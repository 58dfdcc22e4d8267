import Mathlib.Data.List.Basic
import Mathlib.Data.Nat.Prime.Basic
import Mathlib.Dynamics.PeriodicPts.Defs
import Mathlib.Tactic.Common

/-!
# ShiftRegister — checksums computed by a linear shift register

A symbol is added to the front of the register and the register moves on by one symbol.  Moving on is
linear and loses nothing, and the register takes `width` symbols before the first one comes back.  So
registers that differ stay different, a window of at most `width` symbols can be read off the register,
and a change inside one window is always seen.
-/

namespace Reasoning

/-- `place k a` is the register with the symbol `a` behind `k` others. -/
structure ShiftRegister (ρ α : Type*) where
  xor : ρ → ρ → ρ
  zero : ρ
  next : ρ → ρ
  width : Nat
  place : Nat → α → ρ
  xor_assoc : ∀ r s t, xor (xor r s) t = xor r (xor s t)
  xor_self : ∀ r, xor r r = zero
  zero_xor : ∀ r, xor zero r = r
  xor_zero : ∀ r, xor r zero = r
  next_xor : ∀ r s, next (xor r s) = xor (next r) (next s)
  eq_zero_of_next : ∀ r, next r = zero → r = zero
  next_place : ∀ k a, k + 1 < width → next (place (k + 1) a) = place k a

namespace ShiftRegister

variable {ρ α : Type*} (c : ShiftRegister ρ α)

def step (r : ρ) (a : α) : ρ := c.next (c.xor r (c.place 0 a))

def run (r : ρ) (l : List α) : ρ := l.foldl c.step r

def pack (k : Nat) : List α → ρ
  | [] => c.zero
  | a :: l => c.xor (c.place k a) (pack (k + 1) l)

/-! ## 1. Linearity -/

theorem xor_xor_cancel (r s : ρ) : c.xor r (c.xor r s) = s := by
  rw [← c.xor_assoc, c.xor_self, c.zero_xor]

theorem xor_left_cancel {r s t : ρ} (h : c.xor r s = c.xor r t) : s = t := by
  rw [← c.xor_xor_cancel r s, h, c.xor_xor_cancel]

theorem eq_of_xor_eq_zero {r s : ρ} (h : c.xor r s = c.zero) : r = s := by
  have hcancel := c.xor_xor_cancel r s
  rwa [h, c.xor_zero] at hcancel

theorem next_zero : c.next c.zero = c.zero := by
  have h := c.next_xor c.zero c.zero
  rwa [c.zero_xor, c.xor_self] at h

theorem next_injective : Function.Injective c.next := by
  intro r s h
  apply c.eq_of_xor_eq_zero
  apply c.eq_zero_of_next
  rw [c.next_xor, h, c.xor_self]

theorem iterate_next_zero (n : Nat) : c.next^[n] c.zero = c.zero :=
  Function.iterate_fixed c.next_zero n

/-! ## 2. Runs -/

theorem run_cons (r : ρ) (a : α) (l : List α) : c.run r (a :: l) = c.run (c.step r a) l := rfl

theorem run_append (r : ρ) (l m : List α) : c.run r (l ++ m) = c.run (c.run r l) m :=
  List.foldl_append

theorem run_injective (l : List α) : Function.Injective fun r ↦ c.run r l := by
  induction l with
  | nil => exact Function.injective_id
  | cons a l ih =>
      intro r s h
      have hstep := c.next_injective (ih h)
      have hswap : ∀ t, c.xor (c.xor t (c.place 0 a)) (c.place 0 a) = t := by
        intro t
        rw [c.xor_assoc, c.xor_self, c.xor_zero]
      rw [← hswap r, hstep, hswap]

/-! ## 3. Windows -/

theorem next_pack (l : List α) {k : Nat} (h : k + 1 + l.length ≤ c.width) :
    c.next (c.pack (k + 1) l) = c.pack k l := by
  induction l generalizing k with
  | nil => exact c.next_zero
  | cons a l ih =>
      rw [List.length_cons] at h
      rw [pack, pack, c.next_xor, c.next_place k a (by omega), ih (by omega)]

theorem run_eq_pack (r : ρ) (l : List α) (h : l.length ≤ c.width) :
    c.run r l = c.next^[l.length] (c.xor r (c.pack 0 l)) := by
  -- induction on the window: the symbols behind the first are moved in front of its step
  induction l generalizing r with
  | nil =>
      rw [pack, c.xor_zero]
      rfl
  | cons a l ih =>
      rw [List.length_cons] at h
      rw [run_cons, ih _ (by omega), step, ← c.next_pack l (by omega), ← c.next_xor, c.xor_assoc,
        List.length_cons, Function.iterate_succ_apply, pack]

theorem pack_eq_of_run_eq {r : ρ} {w w' : List α} (hsame : w'.length = w.length)
    (hwidth : w.length ≤ c.width) (h : c.run r w' = c.run r w) : c.pack 0 w' = c.pack 0 w := by
  rw [c.run_eq_pack r w' (by omega), c.run_eq_pack r w hwidth, hsame] at h
  exact c.xor_left_cancel (c.next_injective.iterate w.length h)

/-- A change inside one window changes the checksum. -/
theorem pack_eq_of_burst {r : ρ} {w w' : List α} (front back : List α)
    (hsame : w'.length = w.length) (hwidth : w.length ≤ c.width)
    (h : c.run r (front ++ w' ++ back) = c.run r (front ++ w ++ back)) :
    c.pack 0 w' = c.pack 0 w := by
  rw [c.run_append, c.run_append, c.run_append, c.run_append] at h
  exact c.pack_eq_of_run_eq hsame hwidth (c.run_injective back h)

/-- The register runs out to zero exactly over itself. -/
theorem run_eq_zero_iff {r : ρ} {l : List α} (h : l.length ≤ c.width) :
    c.run r l = c.zero ↔ r = c.pack 0 l := by
  rw [c.run_eq_pack r l h]
  constructor
  · intro hzero
    apply c.eq_of_xor_eq_zero
    apply c.next_injective.iterate l.length
    rw [hzero, c.iterate_next_zero]
  · intro hpack
    rw [hpack, c.xor_self, c.iterate_next_zero]

/-! ## 4. Changes anywhere -/

theorem xor_right_comm (r s t : ρ) : c.xor (c.xor r s) t = c.xor (c.xor r t) s := by
  have hcomm : ∀ a b, c.xor a b = c.xor b a := fun a b ↦ by
    apply c.eq_of_xor_eq_zero
    rw [c.xor_assoc, ← c.xor_assoc b b a, c.xor_self, c.zero_xor, c.xor_self]
  rw [c.xor_assoc, hcomm s t, c.xor_assoc]

theorem run_xor (r s : ρ) (l : List α) :
    c.run (c.xor r s) l = c.xor (c.run r l) (c.next^[l.length] s) := by
  induction l generalizing r s with
  | nil => rfl
  | cons a l ih =>
      rw [run_cons, step, c.xor_right_comm, c.next_xor, ih, run_cons, step, List.length_cons,
        Function.iterate_succ_apply]

/-- A change of one symbol adds what the changed symbol has moved on to. -/
theorem run_changed (r : ρ) (front back : List α) {a a' : α} {d : ρ}
    (h : c.place 0 a' = c.xor (c.place 0 a) d) :
    c.run r (front ++ a' :: back) =
      c.xor (c.run r (front ++ a :: back)) (c.next^[back.length + 1] d) := by
  rw [c.run_append, c.run_append, run_cons, run_cons, step, step, h, ← c.xor_assoc, c.next_xor,
    c.run_xor, Function.iterate_succ_apply]

end ShiftRegister

/-- A period of which no prime can be taken out is the least one. -/
theorem minimalPeriod_eq_of_primes {α : Type*} {f : α → α} {x : α} {n : Nat}
    (hperiod : f^[n] x = x) (hprimes : ∀ p, p.Prime → p ∣ n → f^[n / p] x ≠ x) :
    Function.minimalPeriod f x = n := by
  obtain ⟨k, hk⟩ := Function.IsPeriodicPt.minimalPeriod_dvd (f := f) (n := n) (x := x) hperiod
  by_contra hne
  have hone : k ≠ 1 := fun h ↦ hne (by rw [h, Nat.mul_one] at hk; exact hk.symm)
  -- a prime of what is left over divides the period, and the rest of it is still one
  obtain ⟨p, hp, m, rfl⟩ := Nat.exists_prime_and_dvd hone
  have hdiv : n / p = Function.minimalPeriod f x * m := by
    rw [hk, Nat.mul_left_comm, Nat.mul_div_cancel_left _ hp.pos]
  refine hprimes p hp ⟨_, by rw [hk, Nat.mul_left_comm]⟩ ?_
  rw [hdiv]
  exact (Function.isPeriodicPt_minimalPeriod f x).mul_const m

end Reasoning
