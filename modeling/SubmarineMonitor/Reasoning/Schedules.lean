import SubmarineMonitor.Reasoning.Runs
import Mathlib.Data.List.Perm.Basic

/-!
# Schedules — steps of several parties in any order

A schedule says which party steps next; a party whose step is refused has to wait.  Where no step of one
party changes what another one can do, one schedule that comes to an end decides all others: whatever has
been scheduled can be completed, with the same steps in all, and ends alike.
-/

namespace Reasoning

variable {σ ι : Type*} (act : σ → ι → Option σ)

/-! ## 1. Definitions -/

def Commute : Prop :=
  ∀ s i j t u, i ≠ j → act s i = some t → act s j = some u →
    ∃ v, act t j = some v ∧ act u i = some v

def Stuck (s : σ) : Prop := ∀ i, act s i = none

def Leads (n : Nat) (s t : σ) : Prop :=
  ∃ is : List ι, is.length = n ∧ is.foldlM act s = some t

variable {act}

/-! ## 2. Schedules that lead somewhere -/

theorem leads_refl (s : σ) : Leads act 0 s s := ⟨[], rfl, rfl⟩

theorem Leads.trans {m n : Nat} {s t u : σ} (h : Leads act m s t) (h' : Leads act n t u) :
    Leads act (m + n) s u := by
  obtain ⟨is, his, hst⟩ := h
  obtain ⟨js, hjs, htu⟩ := h'
  refine ⟨is ++ js, by rw [List.length_append, his, hjs], ?_⟩
  rw [List.foldlM_append, hst]
  exact htu

theorem Leads.step {n : Nat} {s t u : σ} (i : ι) (h : act s i = some t) (h' : Leads act n t u) :
    Leads act (n + 1) s u := by
  obtain ⟨is, his, htu⟩ := h'
  refine ⟨i :: is, congrArg (· + 1) his, ?_⟩
  rw [List.foldlM_cons, h]
  exact htu

theorem leads_one {s t : σ} (i : ι) (h : act s i = some t) : Leads act 1 s t :=
  (leads_refl t).step i h

/-! ## 3. Steps that commute -/

section Diamond

variable [DecidableEq ι]

/-- A step that is possible is one of those of a schedule that comes to an end, and may come first. -/
theorem Commute.first (hact : Commute act) {full : List ι} {s t u : σ} {i : ι}
    (hfull : full.foldlM act s = some t) (ht : Stuck act t) (hi : act s i = some u) :
    i ∈ full ∧ (full.erase i).foldlM act u = some t := by
  -- induction on the schedule: the step is still possible behind each step of another party
  induction full generalizing s u with
  | nil =>
      cases hfull
      rw [ht i] at hi
      cases hi
  | cons j full ih =>
      rw [List.foldlM_cons, Option.bind_eq_bind, Option.bind_eq_some_iff] at hfull
      obtain ⟨w, hj, hfull⟩ := hfull
      by_cases hij : i = j
      · subst hij
        rw [hi] at hj
        cases hj
        exact ⟨List.mem_cons_self, by rw [List.erase_cons_head]; exact hfull⟩
      · obtain ⟨v, hv, hv'⟩ := hact s i j u w hij hi hj
        obtain ⟨hmem, hrest⟩ := ih hfull hv'
        refine ⟨List.mem_cons_of_mem j hmem, ?_⟩
        rw [List.erase_cons_tail (by simpa using Ne.symm hij), List.foldlM_cons, hv]
        exact hrest

/-- Every schedule can be completed, and with the steps that complete it is a reordering of the one that
    comes to an end. -/
theorem Commute.completes (hact : Commute act) {full is : List ι} {s s' t : σ}
    (hfull : full.foldlM act s = some t) (ht : Stuck act t) (his : is.foldlM act s = some s') :
    ∃ rest, rest.foldlM act s' = some t ∧ (is ++ rest).Perm full := by
  induction is generalizing s full with
  | nil =>
      cases his
      exact ⟨full, hfull, List.Perm.refl _⟩
  | cons i is ih =>
      rw [List.foldlM_cons, Option.bind_eq_bind, Option.bind_eq_some_iff] at his
      obtain ⟨u, hi, his⟩ := his
      obtain ⟨hmem, hrest⟩ := hact.first hfull ht hi
      obtain ⟨rest, hrest, hperm⟩ := ih hrest his
      exact ⟨rest, hrest, (hperm.cons i).trans (List.perm_cons_erase hmem).symm⟩

/-- One schedule that comes to an end decides all others. -/
theorem Commute.decides (hact : Commute act) {n : Nat} {s t : σ} (h : Leads act n s t)
    (ht : Stuck act t) {is : List ι} {s' : σ} (his : is.foldlM act s = some s') :
    is.length ≤ n ∧ Leads act (n - is.length) s' t ∧ (Stuck act s' → s' = t) := by
  obtain ⟨full, rfl, hfull⟩ := h
  obtain ⟨rest, hrest, hperm⟩ := hact.completes hfull ht his
  have hlen := hperm.length_eq
  rw [List.length_append] at hlen
  refine ⟨by omega, ⟨rest, by omega, hrest⟩, fun hstuck ↦ ?_⟩
  cases rest with
  | nil =>
      cases hrest
      rfl
  | cons i rest =>
      rw [List.foldlM_cons, hstuck i] at hrest
      cases hrest

end Diamond

end Reasoning
