import Mathlib.Data.List.Basic
import Mathlib.Tactic.Common
import Mathlib.Tactic.Ring

/-!
# Stuffing — escape codes over an arbitrary alphabet

An escape code reserves a `start` symbol for frame boundaries and an `escape` symbol that announces
a flipped one.  Stuffed data never contains `start`; reading it back undoes the flips, is unchanged
by whatever follows, and fails on every proper prefix.  A wire that changes symbols but no escapes is
read as the changed data (`readBytes_altered`).
-/

namespace Reasoning

/-- A reserved boundary symbol, an escape symbol and the flip applied to what is escaped. -/
structure EscapeCode (α : Type*) where
  start : α
  escape : α
  flip : α → α
  flip_flip : ∀ b, flip (flip b) = b
  escape_ne_start : escape ≠ start
  flip_start_ne_start : flip start ≠ start
  flip_escape_ne_start : flip escape ≠ start

namespace EscapeCode

variable {α : Type*} [DecidableEq α] (c : EscapeCode α)

def stuffByte (b : α) : List α :=
  if b = c.start ∨ b = c.escape then [c.escape, c.flip b] else [b]

def stuff (l : List α) : List α := l.flatMap c.stuffByte

def cost (b : α) : Nat := if b = c.start ∨ b = c.escape then 2 else 1

/-- Reads one symbol; an escape whose pair is missing is not read at all. -/
def readByte : List α → Option (α × List α)
  | [] => none
  | b :: rest =>
      if b = c.escape then
        match rest with
        | [] => none
        | x :: rest => some (c.flip x, rest)
      else some (b, rest)

def readBytes : Nat → List α → Option (List α × List α)
  | 0, l => some ([], l)
  | n + 1, l =>
      (c.readByte l).bind fun p ↦ (readBytes n p.2).map fun q ↦ (p.1 :: q.1, q.2)

/-! ## 1. Writing -/

@[simp] theorem stuff_nil : c.stuff [] = [] := rfl

@[simp] theorem stuff_cons (b : α) (l : List α) :
    c.stuff (b :: l) = c.stuffByte b ++ c.stuff l := rfl

theorem stuff_append (l r : List α) : c.stuff (l ++ r) = c.stuff l ++ c.stuff r :=
  List.flatMap_append

theorem stuffByte_length (b : α) : (c.stuffByte b).length = c.cost b := by
  unfold stuffByte cost
  split <;> rfl

theorem cost_pos (b : α) : 1 ≤ c.cost b := by
  unfold cost
  split <;> omega

theorem cost_le_two (b : α) : c.cost b ≤ 2 := by
  unfold cost
  split <;> omega

theorem stuff_length (l : List α) : (c.stuff l).length = (l.map c.cost).sum := by
  induction l with
  | nil => rfl
  | cons b l ih =>
      rw [stuff_cons, List.length_append, stuffByte_length, ih, List.map_cons, List.sum_cons]

theorem length_le_stuff (l : List α) : l.length ≤ (c.stuff l).length := by
  induction l with
  | nil => exact Nat.le_refl _
  | cons b l ih =>
      have hb := c.cost_pos b
      rw [stuff_cons, List.length_append, stuffByte_length, List.length_cons]
      omega

theorem stuff_length_le (l : List α) : (c.stuff l).length ≤ 2 * l.length := by
  induction l with
  | nil => exact Nat.le_refl _
  | cons b l ih =>
      have hb := c.cost_le_two b
      rw [stuff_cons, List.length_append, stuffByte_length, List.length_cons]
      omega

theorem start_notMem_stuffByte (b : α) : c.start ∉ c.stuffByte b := by
  unfold stuffByte
  by_cases h : b = c.start ∨ b = c.escape
  · rw [if_pos h]
    have hflip : c.flip b ≠ c.start := by
      rcases h with rfl | rfl
      · exact c.flip_start_ne_start
      · exact c.flip_escape_ne_start
    simp only [List.mem_cons, List.not_mem_nil, or_false, not_or]
    exact ⟨c.escape_ne_start.symm, hflip.symm⟩
  · rw [if_neg h]
    simp only [List.mem_cons, List.not_mem_nil, or_false]
    exact fun hb ↦ h (.inl hb.symm)

/-- Stuffed data never contains the boundary symbol. -/
theorem start_notMem_stuff (l : List α) : c.start ∉ c.stuff l := by
  rw [stuff, List.mem_flatMap]
  rintro ⟨b, -, hb⟩
  exact c.start_notMem_stuffByte b hb

/-! ## 2. Reading back -/

@[simp] theorem readBytes_zero (l : List α) : c.readBytes 0 l = some ([], l) := rfl

theorem readBytes_succ (n : Nat) (l : List α) :
    c.readBytes (n + 1) l =
      (c.readByte l).bind fun p ↦ (c.readBytes n p.2).map fun q ↦ (p.1 :: q.1, q.2) := rfl

@[simp] theorem readByte_nil : c.readByte [] = none := rfl

@[simp] theorem readByte_escape_single : c.readByte [c.escape] = none := by
  simp only [readByte, if_true]

@[simp] theorem readByte_escape (x : α) (r : List α) :
    c.readByte (c.escape :: x :: r) = some (c.flip x, r) := by
  simp only [readByte, if_true]

theorem readByte_plain {b : α} (h : b ≠ c.escape) (r : List α) :
    c.readByte (b :: r) = some (b, r) := by
  simp only [readByte, if_neg h]

theorem readByte_eq_some_iff {l r : List α} {b : α} :
    c.readByte l = some (b, r) ↔
      (∃ x, l = c.escape :: x :: r ∧ b = c.flip x) ∨ (l = b :: r ∧ b ≠ c.escape) := by
  constructor
  · intro h
    rcases l with _ | ⟨x, l⟩
    · exact absurd h (by simp)
    -- an escape takes the symbol behind it along
    by_cases hx : x = c.escape
    · subst hx
      rcases l with _ | ⟨y, l⟩
      · exact absurd h (by simp)
      · rw [readByte_escape] at h
        obtain ⟨rfl, rfl⟩ := Prod.mk.inj (Option.some.inj h)
        exact .inl ⟨y, rfl, rfl⟩
    · rw [c.readByte_plain hx] at h
      obtain ⟨rfl, rfl⟩ := Prod.mk.inj (Option.some.inj h)
      exact .inr ⟨rfl, hx⟩
  · rintro (⟨x, rfl, rfl⟩ | ⟨rfl, hb⟩)
    · exact c.readByte_escape x r
    · exact c.readByte_plain hb r

theorem readByte_stuffByte (b : α) (r : List α) :
    c.readByte (c.stuffByte b ++ r) = some (b, r) := by
  unfold stuffByte
  by_cases h : b = c.start ∨ b = c.escape
  · rw [if_pos h, List.cons_append, List.singleton_append, readByte_escape, c.flip_flip]
  · rw [if_neg h, List.singleton_append, c.readByte_plain fun hb ↦ h (.inr hb)]

theorem readBytes_stuff (l r : List α) :
    c.readBytes l.length (c.stuff l ++ r) = some (l, r) := by
  induction l with
  | nil => rfl
  | cons b l ih =>
      rw [List.length_cons, readBytes_succ, stuff_cons, List.append_assoc, readByte_stuffByte,
        Option.bind_some, ih, Option.map_some]

theorem readByte_append {l r : List α} {b : α} (h : c.readByte l = some (b, r)) (s : List α) :
    c.readByte (l ++ s) = some (b, r ++ s) := by
  rw [readByte_eq_some_iff] at h ⊢
  rcases h with ⟨x, rfl, hb⟩ | ⟨rfl, hb⟩
  · exact .inl ⟨x, rfl, hb⟩
  · exact .inr ⟨rfl, hb⟩

theorem readBytes_append {n : Nat} {l d r : List α} (h : c.readBytes n l = some (d, r))
    (s : List α) : c.readBytes n (l ++ s) = some (d, r ++ s) := by
  induction n generalizing l d r with
  | zero =>
      obtain ⟨rfl, rfl⟩ := Prod.mk.inj (Option.some.inj h)
      rfl
  | succ n ih =>
      rw [readBytes_succ] at h ⊢
      obtain ⟨⟨b, l'⟩, hb, h⟩ := Option.bind_eq_some_iff.mp h
      obtain ⟨⟨d', r'⟩, hd, h⟩ := Option.map_eq_some_iff.mp h
      obtain ⟨rfl, rfl⟩ := Prod.mk.inj h
      rw [c.readByte_append hb s, Option.bind_some, ih hd, Option.map_some]

theorem readBytes_length {n : Nat} {l d r : List α} (h : c.readBytes n l = some (d, r)) :
    d.length = n := by
  induction n generalizing l d r with
  | zero =>
      obtain ⟨rfl, -⟩ := Prod.mk.inj (Option.some.inj h)
      rfl
  | succ n ih =>
      rw [readBytes_succ] at h
      obtain ⟨⟨b, l'⟩, -, h⟩ := Option.bind_eq_some_iff.mp h
      obtain ⟨⟨d', r'⟩, hd, h⟩ := Option.map_eq_some_iff.mp h
      obtain ⟨rfl, rfl⟩ := Prod.mk.inj h
      rw [List.length_cons, ih hd]

theorem readByte_suffix {l r : List α} {b : α} (h : c.readByte l = some (b, r)) :
    r <:+ l ∧ r.length < l.length := by
  rcases c.readByte_eq_some_iff.mp h with ⟨x, rfl, -⟩ | ⟨rfl, -⟩
  · exact ⟨⟨[c.escape, x], rfl⟩, by simp only [List.length_cons]; omega⟩
  · exact ⟨⟨[b], rfl⟩, by simp only [List.length_cons]; omega⟩

theorem readBytes_suffix {n : Nat} {l d r : List α} (h : c.readBytes n l = some (d, r)) :
    r <:+ l ∧ r.length + n ≤ l.length := by
  induction n generalizing l d r with
  | zero =>
      obtain ⟨-, rfl⟩ := Prod.mk.inj (Option.some.inj h)
      exact ⟨List.suffix_refl _, Nat.le_refl _⟩
  | succ n ih =>
      rw [readBytes_succ] at h
      obtain ⟨⟨b, l'⟩, hb, h⟩ := Option.bind_eq_some_iff.mp h
      obtain ⟨⟨d', r'⟩, hd, h⟩ := Option.map_eq_some_iff.mp h
      obtain ⟨-, rfl⟩ : _ ∧ r' = r := Prod.mk.inj h
      obtain ⟨hs, hlt⟩ := c.readByte_suffix hb
      obtain ⟨hs', hle⟩ : r' <:+ l' ∧ r'.length + n ≤ l'.length := ih hd
      exact ⟨hs'.trans hs, by omega⟩

/-- A read looks only at what it uses up. -/
theorem readBytes_used {n : Nat} {l d r : List α} (h : c.readBytes n l = some (d, r)) :
    ∃ used, l = used ++ r ∧ ∀ s, c.readBytes n (used ++ s) = some (d, s) := by
  induction n generalizing l d r with
  | zero =>
      obtain ⟨rfl, rfl⟩ := Prod.mk.inj (Option.some.inj h)
      exact ⟨[], rfl, fun _ ↦ rfl⟩
  | succ n ih =>
      rw [readBytes_succ] at h
      obtain ⟨⟨b, l'⟩, hb, h⟩ := Option.bind_eq_some_iff.mp h
      obtain ⟨⟨d', r'⟩, hd, h⟩ := Option.map_eq_some_iff.mp h
      obtain ⟨rfl, rfl⟩ := Prod.mk.inj h
      obtain ⟨used, rfl, hused⟩ := ih hd
      -- the first symbol uses one place of the wire or two
      have hfirst : ∃ first, l = first ++ (used ++ r') ∧
          ∀ s, c.readByte (first ++ s) = some (b, s) := by
        rcases c.readByte_eq_some_iff.mp hb with ⟨x, rfl, rfl⟩ | ⟨rfl, hplain⟩
        · exact ⟨[c.escape, x], rfl, fun s ↦ c.readByte_escape x s⟩
        · exact ⟨[b], rfl, fun s ↦ c.readByte_plain hplain s⟩
      obtain ⟨first, rfl, hread⟩ := hfirst
      refine ⟨first ++ used, (List.append_assoc _ _ _).symm, fun s ↦ ?_⟩
      rw [readBytes_succ, List.append_assoc, hread, Option.bind_some, hused, Option.map_some]

theorem readBytes_add {m n : Nat} {l d r : List α} (h : c.readBytes m l = some (d, r)) :
    c.readBytes (m + n) l = (c.readBytes n r).map fun q ↦ (d ++ q.1, q.2) := by
  induction m generalizing l d r with
  | zero =>
      obtain ⟨rfl, rfl⟩ := Prod.mk.inj (Option.some.inj h)
      rw [Nat.zero_add]
      cases c.readBytes n l <;> rfl
  | succ m ih =>
      rw [readBytes_succ] at h
      rw [show m + 1 + n = (m + n) + 1 by omega, readBytes_succ]
      obtain ⟨⟨b, l'⟩, hb, h⟩ := Option.bind_eq_some_iff.mp h
      obtain ⟨⟨d', r'⟩, hd, h⟩ := Option.map_eq_some_iff.mp h
      obtain ⟨rfl, rfl⟩ := Prod.mk.inj h
      rw [hb, Option.bind_some, ih hd, Option.map_map]
      rfl

theorem readBytes_add_none {m n : Nat} {l : List α} (h : c.readBytes m l = none) :
    c.readBytes (m + n) l = none := by
  induction m generalizing l with
  | zero => exact absurd h (by simp)
  | succ m ih =>
      rw [show m + 1 + n = (m + n) + 1 by omega, readBytes_succ]
      rw [readBytes_succ] at h
      rcases hb : c.readByte l with _ | ⟨b, l'⟩
      · rfl
      · rw [hb, Option.bind_some, Option.map_eq_none_iff] at h
        rw [Option.bind_some, ih h]
        rfl

theorem readBytes_split {m n : Nat} {l d r : List α} (h : c.readBytes (m + n) l = some (d, r)) :
    ∃ d₁ d₂ mid, d = d₁ ++ d₂ ∧ c.readBytes m l = some (d₁, mid) ∧
      c.readBytes n mid = some (d₂, r) := by
  rcases hfirst : c.readBytes m l with _ | ⟨d₁, mid⟩
  · rw [c.readBytes_add_none hfirst] at h
    exact absurd h (by simp)
  rw [c.readBytes_add hfirst] at h
  obtain ⟨⟨d₂, r'⟩, hsecond, h⟩ := Option.map_eq_some_iff.mp h
  obtain ⟨rfl, rfl⟩ := Prod.mk.inj h
  exact ⟨d₁, d₂, mid, rfl, rfl, hsecond⟩

/-- A proper prefix of stuffed data does not yield all of its symbols. -/
theorem readBytes_of_prefix {t u l : List α} (h : t ++ u = c.stuff l) (hu : u ≠ []) :
    c.readBytes l.length t = none := by
  rcases hread : c.readBytes l.length t with _ | ⟨d, r⟩
  · rfl
  -- else the rest of the stuffed data would be left over
  have hfull := c.readBytes_append hread u
  have hstuff := c.readBytes_stuff l []
  rw [h] at hfull
  rw [List.append_nil, hfull] at hstuff
  have hnil : r ++ u = [] := (Prod.mk.inj (Option.some.inj hstuff)).2
  exact absurd (List.append_eq_nil_iff.mp hnil).2 hu

/-! ## 3. Changes on the wire -/

/-- What stands for `b` on the wire, changed to what would stand for `b'`; an escape in front of it is
    left. -/
def alterByte (b b' : α) : List α :=
  if b = c.start ∨ b = c.escape then [c.escape, c.flip b'] else [b']

def altered (l l' : List α) : List α := (l.zip l').flatMap fun x ↦ c.alterByte x.1 x.2

def escaped (b : α) : Bool := decide (b = c.start ∨ b = c.escape)

/-- Only what is escaped has been changed to the escape symbol. -/
def Readable (l l' : List α) : Prop :=
  ∀ x ∈ l.zip l', (x.1 = c.start ∨ x.1 = c.escape) ∨ x.2 ≠ c.escape

@[simp] theorem altered_cons (b b' : α) (l l' : List α) :
    c.altered (b :: l) (b' :: l') = c.alterByte b b' ++ c.altered l l' := rfl

theorem alterByte_length (b b' : α) : (c.alterByte b b').length = c.cost b := by
  unfold alterByte cost
  split <;> rfl

variable {l l' : List α}

theorem altered_append {r r' : List α} (h : l'.length = l.length) :
    c.altered (l ++ r) (l' ++ r') = c.altered l l' ++ c.altered r r' := by
  rw [altered, List.zip_append h.symm, List.flatMap_append]
  rfl

theorem altered_self (l : List α) : c.altered l l = c.stuff l := by
  induction l with
  | nil => rfl
  | cons b l ih =>
      rw [altered_cons, ih]
      rfl

theorem altered_length (h : l'.length = l.length) : (c.altered l l').length = (c.stuff l).length := by
  induction l generalizing l' with
  | nil => rfl
  | cons b l ih =>
      obtain ⟨b', l', rfl⟩ := List.exists_cons_of_length_eq_add_one h
      rw [altered_cons, stuff_cons, List.length_append, List.length_append, alterByte_length,
        stuffByte_length, ih (Nat.succ.inj h)]

theorem stuff_length_eq (l : List α) : (c.stuff l).length = l.length + l.countP c.escaped := by
  induction l with
  | nil => rfl
  | cons b l ih =>
      have hcost : c.cost b = 1 + if c.escaped b = true then 1 else 0 := by
        by_cases hb : b = c.start ∨ b = c.escape
        · rw [cost, escaped, if_pos hb, if_pos (decide_eq_true hb)]
        · rw [cost, escaped, if_neg hb, if_neg fun htrue ↦ hb (of_decide_eq_true htrue)]
      rw [stuff_cons, List.length_append, stuffByte_length, ih, List.length_cons, List.countP_cons, hcost]
      omega

theorem readBytes_altered (h : l'.length = l.length) (hread : c.Readable l l') (r : List α) :
    c.readBytes l'.length (c.altered l l' ++ r) = some (l', r) := by
  induction l generalizing l' with
  | nil =>
      obtain rfl := List.length_eq_zero_iff.mp h
      rfl
  | cons b l ih =>
      obtain ⟨b', l', rfl⟩ := List.exists_cons_of_length_eq_add_one h
      obtain ⟨hb, hmore⟩ := List.forall_mem_cons.mp hread
      have hone : c.readByte (c.alterByte b b' ++ (c.altered l l' ++ r)) =
          some (b', c.altered l l' ++ r) := by
        rw [alterByte]
        split_ifs with hspecial
        · rw [List.cons_append, List.singleton_append, readByte_escape, c.flip_flip]
        · exact c.readByte_plain (hb.resolve_left hspecial) _
      rw [List.length_cons, readBytes_succ, altered_cons, List.append_assoc, hone, Option.bind_some,
        ih (Nat.succ.inj h) hmore, Option.map_some]

/-- A wire on which the escapes are those of the stuffed data is readable. -/
theorem readable_of_escapes (h : l'.length = l.length)
    (hsame : (c.altered l l').map (decide <| · = c.escape) =
      (c.stuff l).map (decide <| · = c.escape)) : c.Readable l l' := by
  induction l generalizing l' with
  | nil => exact fun x hx ↦ absurd hx List.not_mem_nil
  | cons b l ih =>
      obtain ⟨b', l', rfl⟩ := List.exists_cons_of_length_eq_add_one h
      rw [altered_cons, stuff_cons, List.map_append, List.map_append] at hsame
      obtain ⟨hfirst, hmore⟩ := List.append_inj hsame (by
        rw [List.length_map, List.length_map, alterByte_length, stuffByte_length])
      refine List.forall_mem_cons.mpr ⟨?_, ih (Nat.succ.inj h) hmore⟩
      by_cases hspecial : b = c.start ∨ b = c.escape
      · exact .inl hspecial
      · rw [alterByte, if_neg hspecial, stuffByte, if_neg hspecial] at hfirst
        refine .inr fun hescape ↦ hspecial (.inr ?_)
        exact of_decide_eq_true ((List.head_eq_of_cons_eq hfirst).symm.trans (decide_eq_true hescape))

end EscapeCode

end Reasoning
