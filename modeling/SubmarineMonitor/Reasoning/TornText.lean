import SubmarineMonitor.Reasoning.Text

/-!
# TornText — what is read of a text that was cut

A line of printed values that is cut still scans: the numbers are those of which a digit is left
(`sscanf_cut`).  Text behind complete lines is read line by line as if it stood alone
(`getLines_append`).
-/

namespace Reasoning

/-! ## 1. Numbers -/

/-- The values of which a digit is among the first `kept` characters of their line. -/
def numbersLeft : List Int → Nat → Nat
  | [], _ => 0
  | i :: is, kept =>
      if (if i < 0 then 1 else 0) < kept then
        numbersLeft is (kept - ((decimal i).length + 1)) + 1
      else 0

theorem numbersLeft_zero (is : List Int) : numbersLeft is 0 = 0 := by
  cases is with
  | nil => rfl
  | cons i is => exact if_neg (Nat.not_lt_zero _)

theorem sscanf_nil (fmt : List Directive) : sscanf fmt [] = [] := by
  cases fmt with
  | nil => rfl
  | cons d fmt => cases d <;> rfl

theorem readNumber_digits {s digits : Text} {negative : Bool}
    (hs : splitSign (s.dropWhile isSpace) = (negative, digits)) (hne : digits ≠ [])
    (hall : ∀ c ∈ digits, c.isDigit = true) :
    ∃ n, readNumber s = some (negative, n, []) := by
  have hread := @takeWhile_digits digits [] hall (by simp)
  rw [List.append_nil] at hread
  unfold readNumber
  simp only [hs, hread.1, hread.2]
  rw [if_neg hne]
  exact ⟨_, rfl⟩

/-- A cut number is a number as long as a digit is left. -/
theorem readNumber_take {i : Int} {kept : Nat} (h : (if i < 0 then 1 else 0) < kept) :
    ∃ negative n, readNumber ((decimal i).take kept) = some (negative, n, []) := by
  have hdigits : ∀ k, ∀ c ∈ (Nat.toDigits 10 i.natAbs).take k, c.isDigit = true :=
    fun k c hc ↦ isDigit_of_mem_toDigits (List.mem_of_mem_take hc)
  obtain ⟨c, cs, hcs⟩ := List.exists_cons_of_ne_nil (Nat.toDigits_ne_nil (n := i.natAbs) (b := 10))
  unfold decimal
  by_cases hneg : i < 0
  · rw [if_pos hneg] at h ⊢
    obtain ⟨kept, rfl⟩ : ∃ k, kept = k + 2 := ⟨kept - 2, by omega⟩
    rw [List.take_succ_cons]
    refine ⟨true, readNumber_digits ?_ ?_ (hdigits (kept + 1))⟩
    · rw [List.dropWhile_cons, if_neg (by decide)]
      rfl
    · rw [hcs, List.take_succ_cons]
      exact List.cons_ne_nil c _
  · rw [if_neg hneg] at h ⊢
    obtain ⟨kept, rfl⟩ : ∃ k, kept = k + 1 := ⟨kept - 1, by omega⟩
    have hdigit : c.isDigit = true :=
      hdigits 1 c (by rw [hcs]; exact List.mem_cons_self)
    refine ⟨false, readNumber_digits ?_ ?_ (hdigits (kept + 1))⟩
    · rw [hcs, List.take_succ_cons, List.dropWhile_cons, isSpace_digit hdigit]
      exact splitSign_digit _ hdigit
    · rw [hcs, List.take_succ_cons]
      exact List.cons_ne_nil c _

theorem readNumber_take_none {i : Int} {kept : Nat} (h : ¬ (if i < 0 then 1 else 0) < kept) :
    readNumber ((decimal i).take kept) = none := by
  unfold decimal
  by_cases hneg : i < 0
  · rw [if_pos hneg] at h ⊢
    match kept with
    | 0 => rfl
    | 1 => rfl
    | kept + 2 => omega
  · rw [if_neg hneg] at h
    rw [show kept = 0 by omega]
    rfl

theorem sscanf_read {d : Directive} {i : Int} {s rest : Text} {negative : Bool} {n : Nat}
    (fmt : List Directive) (hd : d.Fits i) (h : readNumber s = some (negative, n, rest)) :
    ∃ v, sscanf (d :: fmt) s = v :: sscanf fmt rest := by
  cases d with
  | unsigned =>
      simp only [sscanf, h]
      exact ⟨_, rfl⟩
  | signed =>
      simp only [sscanf, h]
      exact ⟨_, rfl⟩
  | char c => exact absurd hd id

theorem sscanf_read_none {d : Directive} {i : Int} {s : Text} (fmt : List Directive)
    (hd : d.Fits i) (h : readNumber s = none) : sscanf (d :: fmt) s = [] := by
  cases d with
  | unsigned => simp only [sscanf, h]
  | signed => simp only [sscanf, h]
  | char c => exact absurd hd id

theorem sscanf_take_number {d : Directive} {i : Int} (fmt : List Directive) (hd : d.Fits i)
    (kept : Nat) :
    (sscanf (d :: fmt) ((decimal i).take kept)).length =
      if (if i < 0 then 1 else 0) < kept then 1 else 0 := by
  by_cases h : (if i < 0 then 1 else 0) < kept
  · obtain ⟨negative, n, hread⟩ := readNumber_take h
    obtain ⟨v, hv⟩ := sscanf_read fmt hd hread
    rw [hv, sscanf_nil, if_pos h, List.length_singleton]
  · rw [sscanf_read_none fmt hd (readNumber_take_none h), if_neg h, List.length_nil]

theorem decimal_length_pos (i : Int) : (if i < 0 then 1 else 0) < (decimal i).length := by
  have hpos := List.length_pos_of_ne_nil (Nat.toDigits_ne_nil (n := i.natAbs) (b := 10))
  unfold decimal
  by_cases hneg : i < 0
  · rw [if_pos hneg, if_pos hneg, List.length_cons]
    omega
  · rw [if_neg hneg, if_neg hneg]
    exact hpos

/-- What `sscanf` counts in a cut line, also with a format that asks for more. -/
theorem sscanf_cut {ds more : List Directive} {is : List Int}
    (h : List.Forall₂ Directive.Fits ds is) (kept : Nat) :
    (sscanf (commaFormat (ds ++ more)) ((commaSeparated is).take kept)).length =
      numbersLeft is kept := by
  -- induction on the values: the cut is in the first one, or behind it
  induction h generalizing kept with
  | nil =>
      rw [commaSeparated, List.take_nil, sscanf_nil]
      rfl
  | @cons d i ds is hd htail ih =>
      have hlen := decimal_length_pos i
      obtain ⟨fmt, hfmt⟩ : ∃ fmt, commaFormat (d :: ds ++ more) = d :: fmt := by
        cases hmore : ds ++ more with
        | nil => exact ⟨[], by rw [List.cons_append, hmore]; rfl⟩
        | cons e es => exact ⟨_, by rw [List.cons_append, hmore]; rfl⟩
      by_cases hcut : kept ≤ (decimal i).length
      · -- nothing of the other values is left
        have htake : (commaSeparated (i :: is)).take kept = (decimal i).take kept := by
          cases is with
          | nil => rfl
          | cons j is =>
              rw [commaSeparated_cons (List.cons_ne_nil j is), List.take_append_of_le_length hcut]
        rw [hfmt, htake, sscanf_take_number fmt hd, numbersLeft,
          show kept - ((decimal i).length + 1) = 0 by omega, numbersLeft_zero]
      · rw [numbersLeft, if_pos (by omega)]
        cases htail with
        | nil =>
            have htake : (commaSeparated [i]).take kept = (decimal i).take (decimal i).length := by
              rw [List.take_length]
              exact List.take_of_length_le (by rw [commaSeparated]; omega)
            rw [hfmt, htake, sscanf_take_number fmt hd, if_pos hlen]
            rfl
        | @cons e j ds is he htail =>
            have htake : (commaSeparated (i :: j :: is)).take kept = decimal i ++
                ',' :: (commaSeparated (j :: is)).take (kept - ((decimal i).length + 1)) := by
              obtain ⟨k, rfl⟩ : ∃ k, kept = (decimal i).length + (k + 1) :=
                ⟨kept - ((decimal i).length + 1), by omega⟩
              rw [commaSeparated_cons (List.cons_ne_nil j is), List.take_length_add_append,
                List.take_succ_cons, show (decimal i).length + (k + 1) -
                  ((decimal i).length + 1) = k by omega]
            have hrest : ∀ c ∈ (',' :: (commaSeparated (j :: is)).take
                (kept - ((decimal i).length + 1))).head?, c.isDigit = false := by
              intro c hc
              rw [List.head?_cons, Option.mem_some_iff] at hc
              rw [← hc]
              decide
            rw [htake, List.cons_append, commaFormat_cons (by rw [List.cons_append]; exact List.cons_ne_nil e _),
              sscanf_decimal _ hd hrest, sscanf, if_pos rfl, List.length_cons, ih]

/-! ## 2. Lines -/

def EndsLine (s : Text) : Prop := s = [] ∨ ∃ front, s = front ++ ['\n']

theorem getLines_append {s : Text} (t : Text) (h : EndsLine s) :
    getLines [] (s ++ t) = getLines [] s ++ getLines [] t := by
  rcases h with rfl | ⟨front, rfl⟩
  · rfl
  · -- the newline at the end closes the line that is being read
    suffices hline : ∀ line, getLines line (front ++ '\n' :: t) =
        getLines line (front ++ ['\n']) ++ getLines [] t by
      rw [List.append_assoc, List.singleton_append]
      exact hline []
    intro line
    induction front generalizing line with
    | nil => rfl
    | cons c front ih =>
        rw [List.cons_append, List.cons_append, getLines, getLines]
        by_cases hc : c = '\n'
        · rw [if_pos hc, if_pos hc, ih, List.cons_append]
        · rw [if_neg hc, if_neg hc, ih]

/-- A text without a newline is one line, if it is not empty. -/
theorem getLines_open {s : Text} (line : Text) (h : '\n' ∉ s) :
    getLines line s = if line ++ s = [] then [] else [line ++ s] := by
  induction s generalizing line with
  | nil => rw [List.append_nil, getLines]
  | cons c s ih =>
      rw [List.mem_cons, not_or] at h
      rw [getLines, if_neg (Ne.symm h.1), ih _ h.2, List.append_assoc, List.singleton_append]

def openLine (s : Text) : Text := (s.reverse.takeWhile (· ≠ '\n')).reverse

theorem openLine_append {s t : Text} (h : EndsLine s) (ht : '\n' ∉ t) : openLine (s ++ t) = t := by
  have hopen : ∀ c ∈ t.reverse, decide (c ≠ '\n') = true := by
    intro c hc
    refine decide_eq_true fun heq ↦ ht ?_
    rw [← heq]
    exact List.mem_reverse.mp hc
  have hstop : s.reverse.takeWhile (· ≠ '\n') = [] := by
    rcases h with rfl | ⟨front, rfl⟩
    · rfl
    · rw [List.reverse_concat, List.takeWhile_cons_of_neg (by decide)]
  rw [openLine, List.reverse_append, List.takeWhile_append_of_pos hopen, hstop, List.append_nil,
    List.reverse_reverse]

end Reasoning
