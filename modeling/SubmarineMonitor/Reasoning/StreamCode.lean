import Mathlib.Data.List.Basic
import Mathlib.Tactic.Common

/-!
# StreamCode — self-delimiting codes on a byte stream

A code is prefix free on a set of values when the word of one of them, at the front of a stream,
determines both the value and what follows.  A stream of such words can be cut anywhere: either the
first word is there, or a proper prefix of it is.
-/

namespace Reasoning

variable {α β : Type*}

def encodeAll (enc : β → List α) (bs : List β) : List α := bs.flatMap enc

/-- `enc` is a self-delimiting code on the values in `valid`. -/
structure PrefixFree (enc : β → List α) (valid : β → Prop) : Prop where
  ne_nil : ∀ b, enc b ≠ []
  inj : ∀ {a b r s}, valid a → valid b → enc a ++ r = enc b ++ s → a = b ∧ r = s

variable {enc : β → List α}

@[simp] theorem encodeAll_nil : encodeAll enc [] = [] := rfl

@[simp] theorem encodeAll_cons (b : β) (bs : List β) :
    encodeAll enc (b :: bs) = enc b ++ encodeAll enc bs := rfl

theorem encodeAll_append (as bs : List β) :
    encodeAll enc (as ++ bs) = encodeAll enc as ++ encodeAll enc bs :=
  List.flatMap_append

theorem PrefixFree.encodeAll_inj {valid : β → Prop} (h : PrefixFree enc valid) {as bs : List β}
    (ha : ∀ a ∈ as, valid a) (hb : ∀ b ∈ bs, valid b) (he : encodeAll enc as = encodeAll enc bs) :
    as = bs := by
  induction as generalizing bs with
  | nil =>
      cases bs with
      | nil => rfl
      | cons b bs => exact absurd (List.append_eq_nil_iff.mp he.symm).1 (h.ne_nil b)
  | cons a as ih =>
      cases bs with
      | nil => exact absurd (List.append_eq_nil_iff.mp he).1 (h.ne_nil a)
      | cons b bs =>
          have hab := h.inj (ha a List.mem_cons_self) (hb b List.mem_cons_self) he
          rw [hab.1, ih (fun x hx ↦ ha x (List.mem_cons_of_mem a hx))
            (fun x hx ↦ hb x (List.mem_cons_of_mem b hx)) hab.2]

/-- A cut in front of a stream that starts with the word of `b`: the received part holds the whole
    word, or it is a proper prefix of it. -/
theorem encodeAll_cut {received unread : List α} {b : β} {bs : List β}
    (h : received ++ unread = encodeAll enc (b :: bs)) :
    (∃ rest, received = enc b ++ rest ∧ rest ++ unread = encodeAll enc bs) ∨
      (∃ missing, received ++ missing = enc b ∧ missing ≠ []) := by
  rw [encodeAll_cons] at h
  rcases List.append_eq_append_iff.mp h with ⟨missing, hb, hrest⟩ | ⟨rest, hr, hrest⟩
  · rcases missing with _ | ⟨x, missing⟩
    · -- the cut is right behind the word
      refine .inl ⟨[], by rw [hb, List.append_nil, List.append_nil], ?_⟩
      rw [List.nil_append, hrest, List.nil_append]
    · exact .inr ⟨x :: missing, hb.symm, List.cons_ne_nil x missing⟩
  · exact .inl ⟨rest, hr, hrest.symm⟩

theorem encodeAll_cut_nil {received unread : List α}
    (h : received ++ unread = encodeAll enc []) : received = [] ∧ unread = [] :=
  List.append_eq_nil_iff.mp h

/-- The words that the first `n` values of their stream hold whole. -/
def wholeWithin (enc : β → List α) : List β → Nat → List β
  | [], _ => []
  | b :: bs, n =>
      if (enc b).length ≤ n then b :: wholeWithin enc bs (n - (enc b).length) else []

/-- The front of a stream is the words it holds whole, and the beginning of another one. -/
theorem take_encodeAll (bs : List β) (n : Nat) :
    ∃ cut, (encodeAll enc bs).take n = encodeAll enc (wholeWithin enc bs n) ++ cut ∧
      (cut = [] ∨ ∃ b ∈ bs, ∃ missing, enc b = cut ++ missing ∧ missing ≠ []) := by
  induction bs generalizing n with
  | nil => exact ⟨[], List.take_nil, .inl rfl⟩
  | cons b bs ih =>
      rw [encodeAll_cons, wholeWithin, List.take_append]
      by_cases hwhole : (enc b).length ≤ n
      · obtain ⟨cut, htake, hcut⟩ := ih (n - (enc b).length)
        refine ⟨cut, ?_, hcut.imp_right fun ⟨x, hx, h⟩ ↦ ⟨x, List.mem_cons_of_mem b hx, h⟩⟩
        rw [if_pos hwhole, List.take_of_length_le hwhole, htake, encodeAll_cons, List.append_assoc]
      · have hnone : n - (enc b).length = 0 := by omega
        refine ⟨(enc b).take n, ?_,
          .inr ⟨b, List.mem_cons_self, (enc b).drop n, (List.take_append_drop n _).symm, ?_⟩⟩
        · rw [if_neg hwhole, hnone, List.take_zero, List.append_nil, encodeAll_nil, List.nil_append]
        · exact mt List.drop_eq_nil_iff.mp hwhole

theorem wholeWithin_front (bs : List β) (n : Nat) : wholeWithin enc bs n <+: bs := by
  induction bs generalizing n with
  | nil => exact List.prefix_refl _
  | cons b bs ih =>
      rw [wholeWithin]
      by_cases hwhole : (enc b).length ≤ n
      · rw [if_pos hwhole]
        exact List.cons_prefix_cons.mpr ⟨rfl, ih _⟩
      · rw [if_neg hwhole]
        exact List.nil_prefix

/-- The positions between words: where one ends and the next one, if any, starts. -/
def WordBoundary (enc : β → List α) (bs : List β) (n : Nat) : Prop :=
  ∃ before after, bs = before ++ after ∧ n = (encodeAll enc before).length

theorem not_wordBoundary_inside {before after : List β} {b : β} {n : Nat}
    (hlo : (encodeAll enc before).length < n)
    (hhi : n < (encodeAll enc before).length + (enc b).length) :
    ¬ WordBoundary enc (before ++ b :: after) n := by
  rintro ⟨front, back, hsplit, hn⟩
  -- a boundary lies behind the word of `b`, or in front of it
  rcases List.append_eq_append_iff.mp hsplit with ⟨more, hfront, hback⟩ | ⟨more, hbefore, -⟩
  · rw [hfront, encodeAll_append, List.length_append] at hn
    cases more with
    | nil =>
        rw [encodeAll_nil, List.length_nil] at hn
        omega
    | cons c more =>
        rw [List.cons_append, List.cons.injEq] at hback
        rw [encodeAll_cons, ← hback.1, List.length_append] at hn
        omega
  · rw [hbefore, encodeAll_append, List.length_append] at hlo
    omega

end Reasoning
