import Mathlib.Tactic.Common

/-!
# Outcomes — programs that may stop

A program of `Except ε` returns a result or stops with an error, and one of `StateT σ (Except ε)` has a
state beside.  `Gives` and `Meets` say what holds of either outcome, the second from any state, and
`LeavesEnd` that what a program leaves of its inputs is an end of them; their rules follow the program's
own structure.
-/

namespace Reasoning

variable {σ ε α β : Type} {P : α → Prop} {Q : β → Prop} {E : ε → Prop}

/-! ## 1. Without a state -/

def Gives (m : Except ε α) (P : α → Prop) (E : ε → Prop) : Prop :=
  (∀ a, m = .ok a → P a) ∧ ∀ e, m = .error e → E e

theorem gives_ok {a : α} (h : P a) : Gives (.ok a : Except ε α) P E :=
  ⟨fun _ hb ↦ Except.ok.inj hb ▸ h, fun _ he ↦ nomatch he⟩

theorem gives_error {e : ε} (h : E e) : Gives (.error e : Except ε α) P E :=
  ⟨fun _ hb ↦ (nomatch hb), fun _ he ↦ Except.error.inj he ▸ h⟩

theorem gives_bind {m : Except ε α} {f : α → Except ε β} (hm : Gives m P E)
    (hf : ∀ a, P a → Gives (f a) Q E) : Gives (m >>= f) Q E := by
  cases m with
  | ok a => exact hf a (hm.1 a rfl)
  | error e => exact gives_error (hm.2 e rfl)

theorem gives_ite {c : Prop} [Decidable c] {m n : Except ε α}
    (hm : c → Gives m P E) (hn : ¬ c → Gives n P E) : Gives (if c then m else n) P E := by
  by_cases h : c
  · rw [if_pos h]
    exact hm h
  · rw [if_neg h]
    exact hn h

/-! ## 2. With a state -/

def Meets (m : StateT σ (Except ε) α) (P : α → Prop) (E : ε → Prop) : Prop :=
  ∀ s, Gives (m s) (fun r ↦ P r.1) E

theorem meets_pure {a : α} (h : P a) : Meets (pure a : StateT σ (Except ε) α) P E :=
  fun _ ↦ gives_ok h

theorem meets_bind {m : StateT σ (Except ε) α} {f : α → StateT σ (Except ε) β}
    (hm : Meets m P E) (hf : ∀ a, P a → Meets (f a) Q E) : Meets (m >>= f) Q E := by
  intro s
  apply gives_bind (hm s)
  intro r hr
  exact hf r.1 hr r.2

theorem meets_lift {m : Except ε α} (h : Gives m P E) :
    Meets (liftM m : StateT σ (Except ε) α) P E := by
  intro s
  apply gives_bind h
  intro a ha
  exact gives_ok ha

theorem Meets.mono {m : StateT σ (Except ε) α} {P' : α → Prop} (h : Meets m P E)
    (hP : ∀ a, P a → P' a) : Meets m P' E :=
  fun s ↦ ⟨fun r hr ↦ hP r.1 ((h s).1 r hr), (h s).2⟩

theorem Meets.anyError {m : StateT σ (Except ε) α} (h : Meets m P E) : Meets m P fun _ ↦ True :=
  fun s ↦ ⟨(h s).1, fun _ _ ↦ trivial⟩

theorem meets_ite {c : Prop} [Decidable c] {m n : StateT σ (Except ε) α}
    (hm : c → Meets m P E) (hn : ¬ c → Meets n P E) : Meets (if c then m else n) P E := by
  by_cases h : c
  · rw [if_pos h]
    exact hm h
  · rw [if_neg h]
    exact hn h

theorem run_bind {m : StateT σ (Except ε) α} {f : α → StateT σ (Except ε) β} {s s' : σ} {a : α}
    (hm : m s = .ok (a, s')) : (m >>= f) s = f a s' := by
  change (m s >>= fun r ↦ f r.1 r.2) = f a s'
  rw [hm]
  rfl

theorem gives_run_bind {m : StateT σ (Except ε) α} {f : α → StateT σ (Except ε) β} {s : σ}
    {R : β × σ → Prop} (h : ∀ a s', m s = .ok (a, s') → Gives (f a s') R fun _ ↦ True) :
    Gives ((m >>= f) s) R fun _ ↦ True := by
  have hfirst : Gives (m s) (fun r ↦ m s = .ok r) fun _ ↦ True :=
    ⟨fun _ hr ↦ hr, fun _ _ ↦ trivial⟩
  exact gives_bind hfirst fun r hr ↦ h r.1 r.2 hr

/-! ## 3. Computations that take from a list of inputs -/

section Consuming

variable {ι : Type}

def LeavesEnd (m : StateT (List ι) (Except ε) α) : Prop :=
  ∀ s, Gives (m s) (fun r ↦ r.2 <:+ s) fun _ ↦ True

theorem leavesEnd_pure (a : α) : LeavesEnd (pure a : StateT (List ι) (Except ε) α) :=
  fun s ↦ gives_ok (List.suffix_refl s)

theorem leavesEnd_bind {m : StateT (List ι) (Except ε) α} {f : α → StateT (List ι) (Except ε) β}
    (hm : LeavesEnd m) (hf : ∀ a, LeavesEnd (f a)) : LeavesEnd (m >>= f) := by
  intro s
  apply gives_bind (hm s)
  intro r hr
  exact ⟨fun b hb ↦ ((hf r.1 r.2).1 b hb).trans hr, fun _ _ ↦ trivial⟩

theorem leavesEnd_lift (m : Except ε α) : LeavesEnd (liftM m : StateT (List ι) (Except ε) α) := by
  intro s
  cases m with
  | ok a => exact gives_ok (List.suffix_refl s)
  | error e => exact gives_error trivial

theorem leavesEnd_ite {c : Prop} [Decidable c] {m n : StateT (List ι) (Except ε) α}
    (hm : LeavesEnd m) (hn : LeavesEnd n) : LeavesEnd (if c then m else n) := by
  by_cases h : c
  · rw [if_pos h]
    exact hm
  · rw [if_neg h]
    exact hn

end Consuming

end Reasoning
