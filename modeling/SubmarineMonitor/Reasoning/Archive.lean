import SubmarineMonitor.Reasoning.Retention

/-!
# Archive — what a rotating log holds under each key

An archive keeps, for each key that is present, the entries written under it since it was created.
Before each entry the oldest key is dropped if more than `n` are present.  Rotation does not look at the
key that is about to be written (`store`); where it spares that key (`storeSparing`) nothing is lost but
under other keys.
-/

namespace Reasoning

structure Archive (κ α : Type*) where
  present : Finset κ
  entries : κ → List α

namespace Archive

variable {κ α : Type*}

def empty : Archive κ α := { present := ∅, entries := fun _ ↦ [] }

variable [LinearOrder κ]

def held (s : Archive κ α) (kept : Finset κ) (k : κ) : List α := if k ∈ kept then s.entries k else []

def put (n : Nat) (s : Archive κ α) (kept : Finset κ) (k : κ) (a : α) : Archive κ α where
  present := insert k (rotated n s.present)
  entries := Function.update s.entries k (s.held kept k ++ [a])

def store (n : Nat) (s : Archive κ α) (k : κ) (a : α) : Archive κ α :=
  s.put n (rotated n s.present) k a

def storeSparing (n : Nat) (s : Archive κ α) (k : κ) (a : α) : Archive κ α :=
  s.put n s.present k a

def stored (n : Nat) (log : List (κ × α)) : Archive κ α :=
  log.foldl (fun s x ↦ s.store n x.1 x.2) empty

def storedSparing (n : Nat) (log : List (κ × α)) : Archive κ α :=
  log.foldl (fun s x ↦ s.storeSparing n x.1 x.2) empty

theorem stored_snoc (n : Nat) (log : List (κ × α)) (k : κ) (a : α) :
    stored n (log ++ [(k, a)]) = (stored n log).store n k a := List.foldl_append

theorem storedSparing_snoc (n : Nat) (log : List (κ × α)) (k : κ) (a : α) :
    storedSparing n (log ++ [(k, a)]) = (storedSparing n log).storeSparing n k a :=
  List.foldl_append

/-! ## 1. Rotation -/

/-- Rotation drops a key exactly if there are too many and none is older. -/
theorem mem_rotated_iff {n : Nat} {present : Finset κ} {k : κ} (hk : k ∈ present) :
    k ∈ rotated n present ↔ present.card ≤ n ∨ ∃ e ∈ present, e < k := by
  unfold rotated
  by_cases hfew : present.card ≤ n
  · rw [if_pos hfew]
    exact iff_of_true hk (.inl hfew)
  · rw [if_neg hfew]
    obtain ⟨oldest, hmem, hdrop, hlt⟩ := dropOldest_eq (show 0 < present.card by omega)
    rw [hdrop, Finset.mem_erase]
    constructor
    · exact fun h ↦ .inr ⟨oldest, hmem, hlt k (Finset.mem_erase.mpr h)⟩
    · rintro (hcard | ⟨e, he, hek⟩)
      · exact absurd hcard hfew
      · refine ⟨fun heq ↦ ?_, hk⟩
        subst heq
        exact lt_asymm hek (hlt e (Finset.mem_erase.mpr ⟨ne_of_lt hek, he⟩))

theorem storeSparing_eq {n : Nat} {s : Archive κ α} {k : κ}
    (h : k ∈ s.present → k ∈ rotated n s.present) (a : α) :
    s.storeSparing n k a = s.store n k a := by
  have hheld : s.held s.present k = s.held (rotated n s.present) k := by
    unfold held
    by_cases hk : k ∈ s.present
    · rw [if_pos hk, if_pos (h hk)]
    · rw [if_neg hk, if_neg fun hmem ↦ hk (rotated_subset n s.present hmem)]
  rw [storeSparing, store, put, put, hheld]

/-! ## 2. Entries -/

theorem put_entries_self (n : Nat) (s : Archive κ α) (kept : Finset κ) (k : κ) (a : α) :
    (s.put n kept k a).entries k = s.held kept k ++ [a] := Function.update_self _ _ _

theorem put_entries_of_ne (n : Nat) (s : Archive κ α) (kept : Finset κ) {k k' : κ} (a : α)
    (h : k' ≠ k) : (s.put n kept k a).entries k' = s.entries k' := Function.update_of_ne h _ _

theorem mem_held {s : Archive κ α} {kept : Finset κ} {k : κ} {a : α} (h : a ∈ s.held kept k) :
    a ∈ s.entries k := by
  unfold held at h
  by_cases hk : k ∈ kept
  · rwa [if_pos hk] at h
  · rw [if_neg hk] at h
    exact absurd h List.not_mem_nil

/-- Under a key that was always present when it was stored again are all its entries. -/
theorem storedSparing_entries {n : Nat} {log : List (κ × α)}
    (h : ∀ before k a after, log = before ++ (k, a) :: after → k ∈ before.map (·.1) →
      k ∈ (storedSparing n before).present) {k : κ} (hk : k ∈ (storedSparing n log).present) :
    (storedSparing n log).entries k = (log.filter fun x ↦ x.1 = k).map (·.2) := by
  -- induction on the entries, from the last one
  induction log using List.reverseRecOn generalizing k with
  | nil => rfl
  | append_singleton log x ih =>
      obtain ⟨today, a⟩ := x
      have ih := @ih fun before k b after hlog ↦
        h before k b (after ++ [(today, a)]) (by rw [hlog, List.append_assoc, List.cons_append])
      rw [storedSparing_snoc, storeSparing] at hk ⊢
      rw [List.filter_append, List.map_append]
      by_cases heq : k = today
      · rw [heq, put_entries_self, held, List.filter_cons, if_pos (decide_eq_true rfl), List.filter_nil]
        refine congrArg (· ++ [a]) ?_
        by_cases hin : today ∈ (storedSparing n log).present
        · rw [if_pos hin, ih hin]
        · -- not stored before
          have hnew : ∀ x ∈ log, ¬ decide (x.1 = today) = true := by
            intro x hx hkey
            refine hin (h log today a [] rfl ?_)
            rw [← of_decide_eq_true hkey]
            exact List.mem_map_of_mem hx
          rw [if_neg hin, List.filter_eq_nil_iff.mpr hnew, List.map_nil]
      · have hold : k ∈ (storedSparing n log).present :=
          rotated_subset n _ (Finset.mem_of_mem_insert_of_ne hk heq)
        rw [put_entries_of_ne _ _ _ _ heq, ih hold, List.filter_cons,
          if_neg fun hkey ↦ heq (of_decide_eq_true hkey : today = k).symm, List.filter_nil,
          List.map_nil, List.append_nil]

theorem mem_of_mem_entries {n : Nat} {log : List (κ × α)} {k : κ} {a : α}
    (h : a ∈ (stored n log).entries k) : (k, a) ∈ log := by
  induction log using List.reverseRecOn with
  | nil => exact absurd h List.not_mem_nil
  | append_singleton log x ih =>
      obtain ⟨today, b⟩ := x
      rw [List.mem_append]
      rw [stored_snoc, store] at h
      by_cases hk : k = today
      · subst hk
        rw [put_entries_self, List.mem_append, List.mem_singleton] at h
        rcases h with hold | rfl
        · exact .inl (ih (mem_held hold))
        · exact .inr List.mem_cons_self
      · rw [put_entries_of_ne _ _ _ _ hk] at h
        exact .inl (ih h)

end Archive

/-! ## 3. Reading back -/

/-- The records read back of a list of entries: an entry that is whole is read back as its record, any
    other one so or not at all. -/
inductive ReadBack {α ρ : Type*} (record : α → ρ) (whole : α → Prop) : List α → List ρ → Prop
  | nil : ReadBack record whole [] []
  | read {a : α} {as : List α} {rs : List ρ} (h : ReadBack record whole as rs) :
      ReadBack record whole (a :: as) (record a :: rs)
  | skipped {a : α} {as : List α} {rs : List ρ} (ha : ¬ whole a) (h : ReadBack record whole as rs) :
      ReadBack record whole (a :: as) rs

section ReadBack

variable {α ρ : Type*} {record : α → ρ} {whole : α → Prop}

theorem ReadBack.append {as bs : List α} {rs ss : List ρ} (h : ReadBack record whole as rs)
    (h' : ReadBack record whole bs ss) : ReadBack record whole (as ++ bs) (rs ++ ss) := by
  induction h with
  | nil => exact h'
  | read _ ih => exact .read ih
  | skipped ha _ ih => exact .skipped ha ih

theorem ReadBack.exists_entry {as : List α} {rs : List ρ} (h : ReadBack record whole as rs) :
    ∀ r ∈ rs, ∃ a ∈ as, r = record a := by
  induction h with
  | nil => exact fun r hr ↦ absurd hr List.not_mem_nil
  | @read a as rs _ ih =>
      intro r hr
      rcases List.mem_cons.mp hr with rfl | hr
      · exact ⟨a, List.mem_cons_self, rfl⟩
      · obtain ⟨b, hb, heq⟩ := ih r hr
        exact ⟨b, List.mem_cons_of_mem a hb, heq⟩
  | @skipped a as rs _ _ ih =>
      intro r hr
      obtain ⟨b, hb, heq⟩ := ih r hr
      exact ⟨b, List.mem_cons_of_mem a hb, heq⟩

end ReadBack

end Reasoning
