import Mathlib.Tactic.Common

/-!
# Overlay — records that are overwritten in part

An overlay has new values for some components of a record and keeps the others.  Overlays laid one over
another are one overlay, and what a record becomes under one says nothing of what it was exactly when
every component is covered.
-/

namespace Reasoning

variable {ι : Type*} {V : ι → Type*}

abbrev Overlay (V : ι → Type*) := (i : ι) → Option (V i)

namespace Overlay

def onto (u : Overlay V) (m : (i : ι) → V i) : (i : ι) → V i := fun i ↦ (u i).getD (m i)

def above (v u : Overlay V) : Overlay V := fun i ↦ (v i).or (u i)

def Covers (u : Overlay V) : Prop := ∀ i, (u i).isSome

theorem above_onto (v u : Overlay V) (m : (i : ι) → V i) : (v.above u).onto m = v.onto (u.onto m) := by
  funext i
  simp only [onto, above]
  cases v i with
  | none => rfl
  | some a => rfl

variable {u u' : Overlay V} {m m' : (i : ι) → V i}

theorem Covers.onto_eq (h : u.Covers) (m m' : (i : ι) → V i) : u.onto m = u.onto m' := by
  funext i
  obtain ⟨a, ha⟩ := Option.isSome_iff_exists.mp (h i)
  simp only [onto, ha, Option.getD_some]

/-- What is not covered is seen in two records that differ everywhere. -/
theorem covers_of_onto_eq (hne : ∀ i, m i ≠ m' i) (h : u.onto m = u.onto m') : u.Covers := by
  intro i
  have hi := congrFun h i
  simp only [onto] at hi
  cases hu : u i with
  | none =>
      rw [hu] at hi
      exact absurd hi (hne i)
  | some a => rfl

theorem Covers.eq_of_onto_eq (h : u.Covers) (h' : u'.Covers) (heq : u.onto m = u'.onto m) :
    u = u' := by
  funext i
  obtain ⟨a, ha⟩ := Option.isSome_iff_exists.mp (h i)
  obtain ⟨b, hb⟩ := Option.isSome_iff_exists.mp (h' i)
  have hi := congrFun heq i
  simp only [onto, ha, hb, Option.getD_some] at hi
  rw [ha, hb, hi]

end Overlay

end Reasoning
