import Mathlib.Data.List.Basic
import Mathlib.Tactic.Common

/-!
# Runs — machines that take one input at a time

A machine answers each input with a new state and an output.  What holds of a whole run is proved
from what one step preserves (`run_invariant`), for the inputs that are allowed in the state they
meet (`Allowed`).
-/

namespace Reasoning

variable {σ ι ω : Type*} (step : σ → ι → σ × ω)

def runState (s : σ) (is : List ι) : σ := is.foldl (fun s i ↦ (step s i).1) s

def runOutputs : σ → List ι → List ω
  | _, [] => []
  | s, i :: is => (step s i).2 :: runOutputs (step s i).1 is

def runSteps : σ → List ι → List (σ × ι)
  | _, [] => []
  | s, i :: is => (s, i) :: runSteps (step s i).1 is

def Allowed (ok : σ → ι → Prop) (s : σ) (is : List ι) : Prop :=
  ∀ p ∈ runSteps step s is, ok p.1 p.2

@[simp] theorem runState_nil (s : σ) : runState step s [] = s := rfl

@[simp] theorem runState_cons (s : σ) (i : ι) (is : List ι) :
    runState step s (i :: is) = runState step (step s i).1 is := rfl

theorem runState_snoc (s : σ) (is : List ι) (i : ι) :
    runState step s (is ++ [i]) = (step (runState step s is) i).1 := List.foldl_append

theorem filterMap_runOutputs_cons {β : Type*} (out : ω → Option β) (s : σ) (i : ι) (is : List ι) :
    (runOutputs step s (i :: is)).filterMap out =
      (out (step s i).2).toList ++ (runOutputs step (step s i).1 is).filterMap out := by
  rw [runOutputs, List.filterMap_cons]
  cases out (step s i).2 with
  | none => rfl
  | some b => rfl

theorem runOutputs_append (s : σ) (is js : List ι) :
    runOutputs step s (is ++ js) =
      runOutputs step s is ++ runOutputs step (runState step s is) js := by
  induction is generalizing s with
  | nil => rfl
  | cons i is ih => simp only [List.cons_append, runOutputs, ih, runState_cons]

theorem runSteps_append (s : σ) (is js : List ι) :
    runSteps step s (is ++ js) = runSteps step s is ++ runSteps step (runState step s is) js := by
  induction is generalizing s with
  | nil => rfl
  | cons i is ih => simp only [List.cons_append, runSteps, ih, runState_cons]

theorem allowed_nil (ok : σ → ι → Prop) (s : σ) : Allowed step ok s [] :=
  fun _ h ↦ absurd h List.not_mem_nil

theorem allowed_cons (ok : σ → ι → Prop) (s : σ) (i : ι) (is : List ι) :
    Allowed step ok s (i :: is) ↔ ok s i ∧ Allowed step ok (step s i).1 is := by
  simp only [Allowed, runSteps, List.forall_mem_cons]

theorem allowed_append (ok : σ → ι → Prop) (s : σ) (is js : List ι) :
    Allowed step ok s (is ++ js) ↔
      Allowed step ok s is ∧ Allowed step ok (runState step s is) js := by
  simp only [Allowed, runSteps_append, List.forall_mem_append]

/-- A step of a run is an input with the state that the inputs before it lead to. -/
theorem mem_runSteps (s : σ) (is : List ι) (p : σ × ι) :
    p ∈ runSteps step s is ↔
      ∃ js ks, is = js ++ p.2 :: ks ∧ p.1 = runState step s js := by
  constructor
  · intro h
    induction is generalizing s with
    | nil => exact absurd h List.not_mem_nil
    | cons i is ih =>
        rcases List.mem_cons.mp h with rfl | h
        · exact ⟨[], is, rfl, rfl⟩
        · obtain ⟨js, ks, his, hp⟩ := ih _ h
          exact ⟨i :: js, ks, by rw [his, List.cons_append], hp⟩
  · rintro ⟨js, ks, rfl, hp⟩
    rw [runSteps_append, runSteps, ← hp]
    exact List.mem_append_right _ List.mem_cons_self

/-- A property holds in every state reached when it holds at first and behind every step. -/
theorem forall_reached_iff (P : σ → Prop) (s : σ) (is : List ι) :
    (∀ js, js <+: is → P (runState step s js)) ↔
      P s ∧ ∀ p ∈ runSteps step s is, P (step p.1 p.2).1 := by
  induction is generalizing s with
  | nil =>
      simp only [List.prefix_nil, forall_eq, runState_nil, runSteps, List.not_mem_nil,
        false_implies, implies_true, and_true]
  | cons i is ih =>
      rw [runSteps, List.forall_mem_cons, ← ih]
      constructor
      · intro h
        exact ⟨h [] (List.nil_prefix), fun js hjs ↦
          h (i :: js) ((List.prefix_cons_inj i).mpr hjs)⟩
      · rintro ⟨hs, h⟩ js hjs
        cases js with
        | nil => exact hs
        | cons j js =>
            obtain ⟨rfl, htail⟩ := List.cons_prefix_cons.mp hjs
            exact h js htail

variable {step}

/-- What every allowed step preserves holds in every state of an allowed run. -/
theorem run_invariant {ok : σ → ι → Prop} {inv : σ → Prop}
    (hstep : ∀ s i, inv s → ok s i → inv (step s i).1) {s : σ} {is : List ι} (hs : inv s)
    (hok : Allowed step ok s is) :
    inv (runState step s is) ∧ ∀ p ∈ runSteps step s is, inv p.1 := by
  -- induction on the inputs, from the state the first of them leads to
  induction is generalizing s with
  | nil => exact ⟨hs, fun p hp ↦ absurd hp List.not_mem_nil⟩
  | cons i is ih =>
      rw [allowed_cons] at hok
      obtain ⟨hlast, hall⟩ := ih (hstep s i hs hok.1) hok.2
      refine ⟨hlast, fun p hp ↦ ?_⟩
      rcases List.mem_cons.mp hp with rfl | hp
      · exact hs
      · exact hall p hp

/-- What every step preserves of the state and of all the outputs so far holds behind a run. -/
theorem run_history {inv : σ → List ω → Prop}
    (hstep : ∀ s os i, inv s os → inv (step s i).1 (os ++ [(step s i).2])) {s : σ} {os : List ω}
    (is : List ι) (hs : inv s os) : inv (runState step s is) (os ++ runOutputs step s is) := by
  -- induction on the inputs, with the first output moved to those so far
  induction is generalizing s os with
  | nil =>
      rw [runOutputs, List.append_nil]
      exact hs
  | cons i is ih =>
      rw [runOutputs, List.append_cons]
      exact ih (hstep s os i hs)

/-- The same for what every allowed step preserves of the state, the inputs and the outputs. -/
theorem run_record {ok : σ → ι → Prop} {inv : σ → List ι → List ω → Prop}
    (hstep : ∀ s js os i, inv s js os → ok s i →
      inv (step s i).1 (js ++ [i]) (os ++ [(step s i).2]))
    {s : σ} {js : List ι} {os : List ω} {is : List ι} (hs : inv s js os)
    (hok : Allowed step ok s is) :
    inv (runState step s is) (js ++ is) (os ++ runOutputs step s is) := by
  induction is generalizing s js os with
  | nil =>
      rw [runOutputs, List.append_nil, List.append_nil]
      exact hs
  | cons i is ih =>
      obtain ⟨hi, his⟩ := (allowed_cons step ok s i is).mp hok
      rw [runOutputs, List.append_cons js, List.append_cons os]
      exact ih (hstep s js os i hs hi) his

theorem run_history_allowed {ok : σ → ι → Prop} {inv : σ → List ω → Prop}
    (hstep : ∀ s os i, inv s os → ok s i → inv (step s i).1 (os ++ [(step s i).2])) {s : σ}
    {os : List ω} {is : List ι} (hs : inv s os) (hok : Allowed step ok s is) :
    inv (runState step s is) (os ++ runOutputs step s is) :=
  @run_record _ _ _ step ok (fun s _ os ↦ inv s os) (fun s _ os i ↦ hstep s os i) s [] os is hs hok

/-- Two properties of outputs agree on runs when they agree on each step, and the second one keeps
    the state in which they do. -/
theorem forall_runOutputs_iff {inv : σ → Prop} {P Q : ω → Prop}
    (hstep : ∀ s i, inv s → (P (step s i).2 ↔ Q (step s i).2) ∧
      (Q (step s i).2 → inv (step s i).1))
    {s : σ} (is : List ι) (hs : inv s) :
    (∀ o ∈ runOutputs step s is, P o) ↔ ∀ o ∈ runOutputs step s is, Q o := by
  induction is generalizing s with
  | nil => exact iff_of_true (fun o h ↦ absurd h List.not_mem_nil) fun o h ↦ absurd h List.not_mem_nil
  | cons i is ih =>
      have hi := hstep s i hs
      rw [runOutputs, List.forall_mem_cons, List.forall_mem_cons, hi.1]
      exact and_congr_right fun hq ↦ ih (hi.2 hq)

/-! ## Steps that may not return -/

section Partial

variable {act : σ → ι → Option σ}

theorem foldlM_invariant {inv : σ → Prop}
    (hstep : ∀ s i s', inv s → act s i = some s' → inv s') {is : List ι} {s s' : σ} (hs : inv s)
    (h : is.foldlM act s = some s') : inv s' := by
  induction is generalizing s with
  | nil =>
      cases h
      exact hs
  | cons i is ih =>
      rw [List.foldlM_cons, Option.bind_eq_bind, Option.bind_eq_some_iff] at h
      obtain ⟨next, hnext, h⟩ := h
      exact ih (hstep s i next hs hnext) h

/-- What simulates each step simulates a run, as far as it returns. -/
theorem foldlM_simulates {τ : Type*} {f : σ → τ} {act' : τ → ι → Option τ}
    (hstep : ∀ s i, act' (f s) i = (act s i).map f) (s : σ) (is : List ι) :
    is.foldlM act' (f s) = (is.foldlM act s).map f := by
  induction is generalizing s with
  | nil => rfl
  | cons i is ih =>
      rw [List.foldlM_cons, List.foldlM_cons, hstep]
      cases act s i with
      | none => rfl
      | some next => exact ih next

end Partial

end Reasoning
