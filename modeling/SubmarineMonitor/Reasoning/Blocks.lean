import Mathlib.Order.Monotone.Basic
import Mathlib.Tactic.Common

/-!
# Blocks — a count split into blocks of varying lengths

Block `i` is `len i` long, and no block is empty.  A count falls into one block, at one place in it, and a
larger count falls into a later block or further into the same one.
-/

namespace Reasoning

variable (len : Nat → Nat)

def blockStart : Nat → Nat
  | 0 => 0
  | i + 1 => blockStart i + len i

/-- The block that a count falls into, searched from block `i` on, and the place in it. -/
def locateFrom : Nat → Nat → Nat → Nat × Nat
  | 0, i, n => (i, n)
  | fuel + 1, i, n => if n < len i then (i, n) else locateFrom fuel (i + 1) (n - len i)

/-- A count reaches no further than into the block of that number. -/
def locate (n : Nat) : Nat × Nat := locateFrom len n 0 n

variable {len}

theorem locateFrom_spec (hpos : ∀ i, 0 < len i) {fuel i n : Nat} (h : n ≤ fuel) :
    blockStart len (locateFrom len fuel i n).1 + (locateFrom len fuel i n).2 =
        blockStart len i + n ∧
      (locateFrom len fuel i n).2 < len (locateFrom len fuel i n).1 := by
  induction fuel generalizing i n with
  | zero => exact ⟨rfl, Nat.lt_of_le_of_lt h (hpos i)⟩
  | succ fuel ih =>
      have hi := hpos i
      rw [locateFrom]
      by_cases hn : n < len i
      · rw [if_pos hn]
        exact ⟨rfl, hn⟩
      · rw [if_neg hn]
        obtain ⟨hsum, hlt⟩ := @ih (i + 1) (n - len i) (by omega)
        rw [blockStart] at hsum
        exact ⟨by omega, hlt⟩

theorem locate_spec (hpos : ∀ i, 0 < len i) (n : Nat) :
    blockStart len (locate len n).1 + (locate len n).2 = n ∧
      (locate len n).2 < len (locate len n).1 := by
  obtain ⟨hsum, hlt⟩ := @locateFrom_spec len hpos n 0 n (Nat.le_refl n)
  rw [blockStart, Nat.zero_add] at hsum
  exact ⟨hsum, hlt⟩

theorem blockStart_mono : Monotone (blockStart len) :=
  monotone_nat_of_le_succ fun i ↦ Nat.le_add_right (blockStart len i) (len i)

theorem blockStart_add_lt {i j k : Nat} (hk : k < len i) (hij : i < j) :
    blockStart len i + k < blockStart len j :=
  calc blockStart len i + k < blockStart len (i + 1) := Nat.add_lt_add_left hk _
    _ ≤ blockStart len j := blockStart_mono hij

/-- A larger count falls into a later block, or further into the same one. -/
theorem locate_lt (hpos : ∀ i, 0 < len i) {m n : Nat} (h : m < n) :
    (locate len m).1 < (locate len n).1 ∨
      (locate len m).1 = (locate len n).1 ∧ (locate len m).2 < (locate len n).2 := by
  obtain ⟨hm, -⟩ := locate_spec hpos m
  obtain ⟨hn, hlt⟩ := locate_spec hpos n
  rcases Nat.lt_trichotomy (locate len m).1 (locate len n).1 with hless | heq | hmore
  · exact .inl hless
  · rw [heq] at hm
    exact .inr ⟨heq, by omega⟩
  · have hfar := blockStart_add_lt hlt hmore
    omega

/-- A count in front of a block falls into an earlier one. -/
theorem locate_lt_of_lt (hpos : ∀ i, 0 < len i) {n j : Nat} (h : n < blockStart len j) :
    (locate len n).1 < j := by
  obtain ⟨hn, -⟩ := locate_spec hpos n
  by_contra hge
  have hmono := @blockStart_mono len _ _ (Nat.le_of_not_lt hge)
  omega

end Reasoning
