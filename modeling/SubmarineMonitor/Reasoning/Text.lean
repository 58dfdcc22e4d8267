import Mathlib.Data.Char
import Mathlib.Data.List.Lex
import Mathlib.Tactic.Common
import Mathlib.Tactic.Ring

/-!
# Text — decimal numbers, `sscanf` and lines

Decimal numbers as an output stream prints them, the directives `%u`, `%d` and literal characters of
`sscanf`, `getline`, and numbers of a fixed width, whose text order is their numerical order.
-/

namespace Reasoning

abbrev Text := List Char

/-! ## 1. Decimal numbers -/

/-- An integer as `operator<<` prints it. -/
def decimal (i : Int) : Text :=
  if i < 0 then '-' :: Nat.toDigits 10 i.natAbs else Nat.toDigits 10 i.natAbs

def commaSeparated : List Int → Text
  | [] => []
  | [i] => decimal i
  | i :: is => decimal i ++ ',' :: commaSeparated is

theorem isDigit_of_mem_toDigits {n : Nat} {c : Char} (h : c ∈ Nat.toDigits 10 n) :
    c.isDigit = true :=
  Nat.isDigit_of_mem_toDigits (by decide) (by decide) h

theorem decimal_ne_nil (i : Int) : decimal i ≠ [] := by
  unfold decimal
  by_cases h : i < 0
  · rw [if_pos h]
    exact List.cons_ne_nil _ _
  · rw [if_neg h]
    exact Nat.toDigits_ne_nil

theorem mem_decimal {i : Int} {c : Char} (h : c ∈ decimal i) : c = '-' ∨ c.isDigit = true := by
  unfold decimal at h
  by_cases hneg : i < 0
  · rw [if_pos hneg] at h
    rcases List.mem_cons.mp h with rfl | h
    · exact .inl rfl
    · exact .inr (isDigit_of_mem_toDigits h)
  · rw [if_neg hneg] at h
    exact .inr (isDigit_of_mem_toDigits h)

theorem commaSeparated_cons {i : Int} {is : List Int} (h : is ≠ []) :
    commaSeparated (i :: is) = decimal i ++ ',' :: commaSeparated is := by
  cases is with
  | nil => exact absurd rfl h
  | cons j is => rfl

theorem mem_commaSeparated {is : List Int} {c : Char} (h : c ∈ commaSeparated is) :
    c = ',' ∨ c = '-' ∨ c.isDigit = true := by
  induction is with
  | nil => exact absurd h List.not_mem_nil
  | cons i is ih =>
      by_cases his : is = []
      · rw [his] at h
        exact .inr (mem_decimal h)
      · rw [commaSeparated_cons his] at h
        rcases List.mem_append.mp h with h | h
        · exact .inr (mem_decimal h)
        · rcases List.mem_cons.mp h with rfl | h
          · exact .inl rfl
          · exact ih h

theorem commaSeparated_ne_nil {is : List Int} (h : is ≠ []) : commaSeparated is ≠ [] := by
  cases is with
  | nil => exact absurd rfl h
  | cons i is =>
      by_cases his : is = []
      · rw [his]
        exact decimal_ne_nil i
      · rw [commaSeparated_cons his]
        exact fun hnil ↦ decimal_ne_nil i (List.append_eq_nil_iff.mp hnil).1

theorem newline_notMem_commaSeparated (is : List Int) : '\n' ∉ commaSeparated is := by
  intro h
  rcases mem_commaSeparated h with h | h | h
  · exact absurd h (by decide)
  · exact absurd h (by decide)
  · exact absurd h (by decide)

/-! ## 2. `sscanf` -/

inductive Directive
  | unsigned
  | signed
  | char (c : Char)
  deriving DecidableEq, Repr

def isSpace (c : Char) : Bool :=
  c == ' ' || c == '\t' || c == '\n' || c == '\x0b' || c == '\x0c' || c == '\r'

def splitSign : Text → Bool × Text
  | '-' :: s => (true, s)
  | '+' :: s => (false, s)
  | s => (false, s)

/-- The sign, the magnitude and the rest of the text behind a number, if there is one: white space is
    skipped and a sign is allowed. -/
def readNumber (s : Text) : Option (Bool × Nat × Text) :=
  let signed := splitSign (s.dropWhile isSpace)
  let digits := signed.2.takeWhile Char.isDigit
  if digits = [] then none
  else some (signed.1, Nat.ofDigitChars 10 digits 0, signed.2.dropWhile Char.isDigit)

/-- `strtoul`, then the low 32 bits: a sign negates, a magnitude past `ULONG_MAX` saturates. -/
def toUnsigned (negative : Bool) (magnitude : Nat) : Int :=
  let value := if 2 ^ 64 ≤ magnitude then 2 ^ 64 - 1
    else if negative then (2 ^ 64 - magnitude) % 2 ^ 64 else magnitude
  (value % 2 ^ 32 : Nat)

/-- `strtol`, then the low 32 bits: a value outside `long` saturates. -/
def toSigned (negative : Bool) (magnitude : Nat) : Int :=
  let value : Int := if negative then max (-(magnitude : Int)) (-2 ^ 63)
    else min (magnitude : Int) (2 ^ 63 - 1)
  Int.bmod value (2 ^ 32)

/-- The values assigned, in order; their number is what `sscanf` returns (with 0 where it returns
    `EOF`). -/
def sscanf : List Directive → Text → List Int
  | [], _ => []
  | .unsigned :: fmt, s =>
      match readNumber s with
      | none => []
      | some (negative, magnitude, s) => toUnsigned negative magnitude :: sscanf fmt s
  | .signed :: fmt, s =>
      match readNumber s with
      | none => []
      | some (negative, magnitude, s) => toSigned negative magnitude :: sscanf fmt s
  | .char c :: fmt, s =>
      match s with
      | [] => []
      | b :: s => if b = c then sscanf fmt s else []

def Directive.Fits : Directive → Int → Prop
  | .unsigned, i => 0 ≤ i ∧ i < 2 ^ 32
  | .signed, i => -2 ^ 31 ≤ i ∧ i < 2 ^ 31
  | .char _, _ => False

def commaFormat : List Directive → List Directive
  | [] => []
  | [d] => [d]
  | d :: ds => d :: .char ',' :: commaFormat ds

theorem takeWhile_digits {s rest : Text} (hs : ∀ c ∈ s, c.isDigit = true)
    (hrest : ∀ c ∈ rest.head?, c.isDigit = false) :
    (s ++ rest).takeWhile Char.isDigit = s ∧ (s ++ rest).dropWhile Char.isDigit = rest := by
  rw [List.takeWhile_append_of_pos hs, List.dropWhile_append_of_pos hs]
  cases rest with
  | nil => exact ⟨List.append_nil s, rfl⟩
  | cons c rest =>
      have hc := hrest c rfl
      rw [List.takeWhile_cons, List.dropWhile_cons, hc]
      exact ⟨List.append_nil s, rfl⟩

theorem splitSign_digit {c : Char} (s : Text) (h : c.isDigit = true) :
    splitSign (c :: s) = (false, c :: s) := by
  unfold splitSign
  split
  · rename_i heq
    rw [(List.cons.inj heq).1] at h
    exact absurd h (by decide)
  · rename_i heq
    rw [(List.cons.inj heq).1] at h
    exact absurd h (by decide)
  · rfl

theorem isSpace_digit {c : Char} (h : c.isDigit = true) : isSpace c = false := by
  by_contra hc
  simp only [isSpace, Bool.not_eq_false, Bool.or_eq_true, beq_iff_eq] at hc
  rcases hc with ((((rfl | rfl) | rfl) | rfl) | rfl) | rfl
  all_goals exact absurd h (by decide)

/-- A sign, if any, and digits are read up to the first character that is no digit. -/
theorem readNumber_toDigits {s : Text} {negative : Bool} {n : Nat} {rest : Text}
    (hs : splitSign (s.dropWhile isSpace) = (negative, Nat.toDigits 10 n ++ rest))
    (hrest : ∀ c ∈ rest.head?, c.isDigit = false) :
    readNumber s = some (negative, n, rest) := by
  have hread := takeWhile_digits (fun c hc ↦ isDigit_of_mem_toDigits (n := n) hc) hrest
  unfold readNumber
  simp only [hs, hread.1, hread.2]
  rw [if_neg Nat.toDigits_ne_nil, Nat.ofDigitChars_ten_toDigits]

theorem readNumber_decimal (i : Int) {rest : Text} (hrest : ∀ c ∈ rest.head?, c.isDigit = false) :
    readNumber (decimal i ++ rest) = some (decide (i < 0), i.natAbs, rest) := by
  refine readNumber_toDigits ?_ hrest
  unfold decimal
  -- a minus is a sign; a digit in front is none
  by_cases hneg : i < 0
  · rw [if_pos hneg, List.cons_append, List.dropWhile_cons, if_neg (by decide), splitSign]
    simp [hneg]
  · obtain ⟨c, cs, hcs⟩ :=
      List.exists_cons_of_ne_nil (Nat.toDigits_ne_nil (n := i.natAbs) (b := 10))
    have hdigit : c.isDigit = true :=
      isDigit_of_mem_toDigits (n := i.natAbs) (by rw [hcs]; exact List.mem_cons_self)
    rw [if_neg hneg, hcs, List.cons_append, List.dropWhile_cons, isSpace_digit hdigit]
    simp [splitSign_digit _ hdigit, hneg]

theorem toUnsigned_fits {i : Int} (h : Directive.unsigned.Fits i) :
    toUnsigned (decide (i < 0)) i.natAbs = i := by
  obtain ⟨hlo, hhi⟩ := h
  have hneg : ¬ i < 0 := by omega
  unfold toUnsigned
  simp only [hneg, decide_false, Bool.false_eq_true, if_false]
  rw [if_neg (by omega), Nat.mod_eq_of_lt (by omega)]
  omega

theorem toSigned_fits {i : Int} (h : Directive.signed.Fits i) :
    toSigned (decide (i < 0)) i.natAbs = i := by
  obtain ⟨hlo, hhi⟩ := h
  unfold toSigned
  by_cases hneg : i < 0
  · simp only [hneg, decide_true, if_true]
    rw [Int.max_eq_left (show (-2 ^ 63 : Int) ≤ -(i.natAbs : Int) by omega), Int.bmod_eq_of_le (by omega) (by omega)]
    omega
  · simp only [hneg, decide_false, Bool.false_eq_true, if_false]
    rw [Int.min_eq_left (show (i.natAbs : Int) ≤ 2 ^ 63 - 1 by omega), Int.bmod_eq_of_le (by omega) (by omega)]
    omega

theorem sscanf_decimal {d : Directive} {i : Int} (fmt : List Directive) {rest : Text}
    (h : d.Fits i) (hrest : ∀ c ∈ rest.head?, c.isDigit = false) :
    sscanf (d :: fmt) (decimal i ++ rest) = i :: sscanf fmt rest := by
  cases d with
  | unsigned =>
      simp only [sscanf, readNumber_decimal i hrest, toUnsigned_fits h]
  | signed =>
      simp only [sscanf, readNumber_decimal i hrest, toSigned_fits h]
  | char c => exact absurd h id

theorem commaFormat_cons {d : Directive} {ds : List Directive} (h : ds ≠ []) :
    commaFormat (d :: ds) = d :: .char ',' :: commaFormat ds := by
  cases ds with
  | nil => exact absurd rfl h
  | cons e ds => rfl

/-- A line of printed values is read back, also by a format that asks for more. -/
theorem sscanf_commaSeparated {ds more : List Directive} {is : List Int}
    (h : List.Forall₂ Directive.Fits ds is) (hds : ds ≠ []) :
    sscanf (commaFormat (ds ++ more)) (commaSeparated is) = is := by
  -- induction on the values that are printed; the format may go on behind them
  induction h with
  | nil => exact absurd rfl hds
  | @cons d i ds is hd htail ih =>
      rw [List.cons_append]
      cases htail with
      | nil =>
          -- the last value: whatever the format asks for next, the text has ended
          have hread := fun fmt ↦ @sscanf_decimal d i fmt [] hd (by simp)
          rw [List.append_nil] at hread
          cases more with
          | nil => exact hread []
          | cons e more =>
              rw [List.nil_append, commaFormat_cons (List.cons_ne_nil e more)]
              exact hread _
      | @cons e j ds is he htail =>
          have hrest : ∀ c ∈ (',' :: commaSeparated (j :: is)).head?, c.isDigit = false := by
            intro c hc
            rw [List.head?_cons, Option.mem_some_iff] at hc
            rw [← hc]
            decide
          rw [List.cons_append, commaFormat_cons (List.cons_ne_nil e _), commaSeparated_cons (List.cons_ne_nil j is),
            sscanf_decimal _ hd hrest, sscanf, if_pos rfl]
          exact congrArg (i :: ·) (ih (List.cons_ne_nil e ds))

/-! ## 3. Lines -/

/-- The lines a `getline` loop reads; `line` holds what is read of the current one. -/
def getLines (line : Text) : Text → List Text
  | [] => if line = [] then [] else [line]
  | c :: s => if c = '\n' then line :: getLines [] s else getLines (line ++ [c]) s

theorem getLines_line {l : Text} (line s : Text) (h : '\n' ∉ l) :
    getLines line (l ++ '\n' :: s) = (line ++ l) :: getLines [] s := by
  induction l generalizing line with
  | nil => rw [List.nil_append, getLines, if_pos rfl, List.append_nil]
  | cons c l ih =>
      rw [List.mem_cons, not_or] at h
      rw [List.cons_append, getLines, if_neg (Ne.symm h.1), ih _ h.2, List.append_assoc,
        List.singleton_append]

theorem getLines_lines {ls : List Text} (h : ∀ l ∈ ls, '\n' ∉ l) :
    getLines [] (ls.flatMap (· ++ ['\n'])) = ls := by
  induction ls with
  | nil => rfl
  | cons l ls ih =>
      rw [List.flatMap_cons, List.append_assoc, List.singleton_append,
        getLines_line _ _ (h l List.mem_cons_self), List.nil_append,
        ih fun l hl ↦ h l (List.mem_cons_of_mem _ hl)]

/-! ## 4. Numbers of a fixed width -/

def padded : Nat → Nat → Text
  | 0, _ => []
  | w + 1, n => Nat.digitChar (n / 10 ^ w % 10) :: padded w n

@[simp] theorem padded_length (w n : Nat) : (padded w n).length = w := by
  induction w with
  | zero => rfl
  | succ w ih => rw [padded, List.length_cons, ih]

theorem digitChar_lt {a b : Nat} (h : a < b) (hb : b < 10) : Nat.digitChar a < Nat.digitChar b := by
  have hall : ∀ b < 10, ∀ a < b, Nat.digitChar a < Nat.digitChar b := by decide
  exact hall b hb a h

/-- On texts of one length the first difference decides, whatever follows. -/
theorem append_lt_append {a b : Text} (r s : Text) (hlen : a.length = b.length) (h : a < b) :
    a ++ r < b ++ s := by
  induction a generalizing b with
  | nil =>
      rw [List.length_nil] at hlen
      rw [List.length_eq_zero_iff.mp hlen.symm] at h
      exact absurd h (lt_irrefl _)
  | cons x a ih =>
      cases b with
      | nil => exact absurd hlen (by simp)
      | cons y b =>
          rw [List.cons_append, List.cons_append]
          rcases List.cons_lt_cons_iff.mp h with hxy | ⟨rfl, hab⟩
          · exact List.cons_lt_cons_iff.mpr (.inl hxy)
          · exact List.cons_lt_cons_iff.mpr (.inr ⟨rfl, ih (Nat.succ.inj hlen) hab⟩)

theorem padded_lt_of_mod {w m n : Nat} (h : m % 10 ^ w < n % 10 ^ w) : padded w m < padded w n := by
  induction w with
  | zero =>
      rw [Nat.pow_zero, Nat.mod_one, Nat.mod_one] at h
      omega
  | succ w ih =>
      rw [Nat.pow_succ, Nat.mod_mul, Nat.mod_mul] at h
      have hm : m / 10 ^ w % 10 < 10 := Nat.mod_lt _ (by decide)
      have hn : n / 10 ^ w % 10 < 10 := Nat.mod_lt _ (by decide)
      have hlow : m % 10 ^ w < 10 ^ w := Nat.mod_lt _ (Nat.pow_pos (by decide))
      have hlow' : n % 10 ^ w < 10 ^ w := Nat.mod_lt _ (Nat.pow_pos (by decide))
      rw [padded, padded, List.cons_lt_cons_iff]
      -- the leading digits decide, or they agree and the rest does
      rcases Nat.lt_trichotomy (m / 10 ^ w % 10) (n / 10 ^ w % 10) with hlt | heq | hgt
      · exact .inl (digitChar_lt hlt hn)
      · rw [heq] at h ⊢
        exact .inr ⟨rfl, ih (by omega)⟩
      · have hle : 10 ^ w * (n / 10 ^ w % 10 + 1) ≤ 10 ^ w * (m / 10 ^ w % 10) :=
          Nat.mul_le_mul_left _ hgt
        rw [Nat.mul_add, Nat.mul_one] at hle
        omega

/-- The text order of numbers of one width is their numerical order. -/
theorem padded_lt_padded {w m n : Nat} (h : m < n) (hn : n < 10 ^ w) :
    padded w m < padded w n := by
  apply padded_lt_of_mod
  rw [Nat.mod_eq_of_lt hn, Nat.mod_eq_of_lt (Nat.lt_trans h hn)]
  exact h

end Reasoning
