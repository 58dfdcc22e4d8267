import SubmarineMonitor.Storage.StoreQuery

/-!
# SevenFiles — how many files a directory holds

`AppendLine` rotates before it opens the file of the day, so the first record of a new day adds a file
to those that rotation has left.  Over seven receipt dates a directory holds the files of the seven
most recent ones exactly when a day has had its second record (`seven_file_retention_iff`).
-/

open Reasoning

namespace SubmarineMonitor

/-! ## 1. Definitions -/

section Days

variable {α : Type}

def KeepsSevenDays (log : List (Date × α)) (dir : Directory) : Prop :=
  dir.files.card ≤ dcaMaxFiles ∧
    dir.files = ((datesOf log).filter fun d ↦
      ((datesOf log).filter (d < ·)).card < dcaMaxFiles).map fileNames

def LastDateRepeats (log : List (Date × α)) : Prop :=
  ∃ earlier today a, log = earlier ++ [(today, a)] ∧ today ∈ datesOf earlier

/-! ## 2. One store -/

variable {line : α → Text} {log : List (Date × α)} {present : Finset Date} {dir : Directory}

theorem keepsSevenDays_iff (h : Holds line log present dir) :
    KeepsSevenDays log dir ↔ present.card ≤ dcaMaxFiles := by
  rw [KeepsSevenDays, h.files, Finset.card_map]
  constructor
  · exact fun hkeeps ↦ hkeeps.1
  · intro hcard
    exact ⟨hcard, congrArg (Finset.map fileNames) (h.retained.eq_recent hcard)⟩

theorem lastDateRepeats_snoc (log : List (Date × α)) (today : Date) (a : α) :
    LastDateRepeats (log ++ [(today, a)]) ↔ today ∈ datesOf log := by
  constructor
  · rintro ⟨earlier, today', a', heq, hmem⟩
    obtain ⟨rfl, hlast⟩ := List.append_inj' heq rfl
    obtain rfl : today = today' := congrArg Prod.fst (List.singleton_inj.mp hlast)
    exact hmem
  · exact fun hmem ↦ ⟨log, today, a, rfl, hmem⟩

/-- Behind a store on a date that is not before any other one. -/
theorem keepsSevenDays_append (h : Holds line log present dir) {today : Date} (a : α)
    (htoday : ∀ d ∈ datesOf log, d ≤ today) :
    KeepsSevenDays (log ++ [(today, a)]) (appendLine dir today (line a)) ↔
      (datesOf (log ++ [(today, a)])).card ≤ dcaMaxFiles ∨
        LastDateRepeats (log ++ [(today, a)]) := by
  rw [keepsSevenDays_iff (holds_append h htoday), datesOf_snoc, lastDateRepeats_snoc]
  exact h.retained.insert_card_le_iff (by decide) htoday

/-! ## 3. Runs -/

theorem keepsSevenDays_run {ω : Type} {call : Directory → DcaCall α → Directory × ω}
    (hstore : ∀ dir today a, (call dir (.store today a)).1 = appendLine dir today (line a))
    (hquery : ∀ dir start stop, (call dir (.query start stop)).1 = dir)
    (hempty : dir.files = ∅) {calls : List (DcaCall α)}
    (hsorted : ((stored calls).map (·.1)).Pairwise (· ≤ ·)) :
    KeepsSevenDays (stored calls) (runState call dir calls) ↔
      (datesOf (stored calls)).card ≤ dcaMaxFiles ∨ LastDateRepeats (stored calls) := by
  -- induction on the calls from the last one: a query changes nothing
  induction calls using List.reverseRecOn with
  | nil =>
      have h : Holds line [] ∅ dir := holds_empty hempty
      exact iff_of_true ((keepsSevenDays_iff h).mpr (Nat.zero_le _)) (.inl (Nat.zero_le _))
  | append_singleton calls c ih =>
      rw [runState_snoc]
      cases c with
      | store today a =>
          have hlog : stored (calls ++ [.store today a]) = stored calls ++ [(today, a)] := by
            rw [stored, List.filterMap_append]
            rfl
          rw [hlog] at hsorted ⊢
          rw [List.map_append, List.pairwise_append] at hsorted
          obtain ⟨present, h⟩ := holds_run hstore hquery (holds_empty hempty)
            (by rw [List.nil_append]; exact hsorted.1)
          rw [List.nil_append] at h
          have htoday : ∀ d ∈ datesOf (stored calls), d ≤ today := by
            intro d hd
            rw [datesOf, List.mem_toFinset] at hd
            exact hsorted.2.2 d hd today List.mem_cons_self
          rw [hstore]
          exact keepsSevenDays_append h a htoday
      | query start stop =>
          have hlog : stored (calls ++ [.query start stop]) = stored calls := by
            rw [stored, List.filterMap_append]
            exact List.append_nil _
          rw [hlog] at hsorted ⊢
          rw [hquery]
          exact ih hsorted

end Days

theorem seven_file_retention_iff (dir : Directory) (hempty : dir.files = ∅) :
    (∀ calls : List (DcaCall DcaMeasurement), ((stored calls).map (·.1)).Pairwise (· ≤ ·) →
        (KeepsSevenDays (stored calls) (runState measurementCall dir calls) ↔
          (datesOf (stored calls)).card ≤ dcaMaxFiles ∨ LastDateRepeats (stored calls))) ∧
      ∀ calls : List (DcaCall StoreEventArgs), ((stored calls).map (·.1)).Pairwise (· ≤ ·) →
        (KeepsSevenDays (stored calls) (runState eventCall dir calls) ↔
          (datesOf (stored calls)).card ≤ dcaMaxFiles ∨ LastDateRepeats (stored calls)) := by
  constructor
  · intro calls hsorted
    have hkeep : ∀ dir start stop, (measurementCall dir (.query start stop)).1 = dir :=
      fun _ _ _ ↦ rfl
    exact @keepsSevenDays_run _ measurementLine _ _ _ (fun _ _ _ ↦ rfl) hkeep hempty _ hsorted
  · intro calls hsorted
    have hkeep : ∀ dir start stop, (eventCall dir (.query start stop)).1 = dir := fun _ _ _ ↦ rfl
    exact @keepsSevenDays_run _ eventLine _ _ _ (fun _ _ _ ↦ rfl) hkeep hempty _ hsorted

def eightDays : List (DcaCall DcaMeasurement) :=
  ((List.finRange 31).take 8).map fun i ↦ .store (marchDay i) {}

-- and another one on the eighth
theorem seven_file_retention_repeated :
    KeepsSevenDays (stored (eightDays ++ [.store (marchDay 7) {}]))
      (runState measurementCall ⟨∅, fun _ ↦ []⟩ (eightDays ++ [.store (marchDay 7) {}])) := by
  have hsorted : ((stored (eightDays ++ [.store (marchDay 7) {}])).map (·.1)).Pairwise (· ≤ ·) := by
    show ((stored (eightDays ++ [.store (marchDay 7) {}])).map (·.1)).Pairwise
      fun a b ↦ a.number ≤ b.number
    decide
  refine ((seven_file_retention_iff ⟨∅, fun _ ↦ []⟩ rfl).1 _ hsorted).mpr (.inr ?_)
  exact ⟨stored eightDays, marchDay 7, {}, rfl, by decide⟩

/-- The first record of the eighth day leaves eight files. -/
theorem eight_files :
    ¬ KeepsSevenDays (stored eightDays) (runState measurementCall ⟨∅, fun _ ↦ []⟩ eightDays) := by
  have hsorted : ((stored eightDays).map (·.1)).Pairwise (· ≤ ·) := by
    show ((stored eightDays).map (·.1)).Pairwise fun a b ↦ a.number ≤ b.number
    decide
  have hkeep : ∀ dir start stop, (measurementCall dir (.query start stop)).1 = dir :=
    fun _ _ _ ↦ rfl
  rw [@keepsSevenDays_run _ measurementLine _ _ _ (fun _ _ _ ↦ rfl) hkeep rfl _ hsorted]
  rintro (hfew | hrepeats)
  · exact absurd hfew (by decide)
  · have hlog : stored eightDays =
        (stored eightDays).take 7 ++ [(marchDay 7, { timestamp := 0 })] := rfl
    rw [hlog, lastDateRepeats_snoc] at hrepeats
    exact absurd hrepeats (by decide)

end SubmarineMonitor
