import SubmarineMonitor.Storage.Appends

/-!
# CurrentDay — rotation and the file of the day

Rotation removes the file with the first name and does not look at the file that is about to be
written.  When the clock has been set back, the two can be the same: the records of the day are lost
and its file starts again.  Over runs of stores with dates in any order, the records of the day are kept
exactly if no store meets its own file as the first of more than seven; and all that was ever stored
under its date is there exactly if moreover no store of another date has removed the file before
(`rotation_spares_today_iff`).
-/

open Reasoning

namespace SubmarineMonitor

/-! ## 1. Definitions -/

section Definitions

variable {α ρ : Type}

/-- What has been stored, of each date since a store of another date last removed its file. -/
def storedToday (log : List (Date × α)) : Archive Date α := Archive.storedSparing dcaMaxFiles log

/-- A store on `today` as the last one of `log`: rotation leaves today's file where it is, and behind the
    store a query finds every record stored under the date. -/
structure SparesToday (query : Directory → UInt32 → UInt32 → List ρ) (record : α → ρ)
    (timestamp : ρ → UInt32) (log : List (Date × α)) (today : Date) (dir dir' : Directory) :
    Prop where
  keeps : fileName today ∈ dir.files → fileName today ∈ (rotateIfNeeded dir).files
  finds : ∀ start stop,
    ((((storedToday log).entries today).map record).filter
      fun r ↦ start ≤ timestamp r ∧ timestamp r ≤ stop).Sublist (query dir' start stop)

def AlwaysSparesToday (store : Directory → Date → α → Directory)
    (query : Directory → UInt32 → UInt32 → List ρ) (record : α → ρ) (timestamp : ρ → UInt32)
    (dir : Directory) (log : List (Date × α)) : Prop :=
  ∀ before today a after, log = before ++ (today, a) :: after →
    SparesToday query record timestamp (before ++ [(today, a)]) today
      (runState (storeStep store) dir before)
      (runState (storeStep store) dir (before ++ [(today, a)]))

def NotFirst (dir : Directory) (today : Date) : Prop :=
  dir.files.card ≤ dcaMaxFiles ∨ fileName today ∉ dir.files ∨
    ∃ f ∈ dir.files, f < fileName today

/-- As `SparesToday`, and today's file holds whatever has been stored under the date in the whole of
    `log`, so that a query finds all of it. -/
structure KeepsToday (line : α → Text) (query : Directory → UInt32 → UInt32 → List ρ)
    (record : α → ρ) (timestamp : ρ → UInt32) (log : List (Date × α)) (today : Date)
    (dir dir' : Directory) : Prop where
  keeps : fileName today ∈ dir.files → fileName today ∈ (rotateIfNeeded dir).files
  holds : dir'.content (fileName today) = fileText line log today
  finds : ∀ start stop,
    (((log.filter fun x ↦ x.1 = today).map (record ·.2)).filter
      fun r ↦ start ≤ timestamp r ∧ timestamp r ≤ stop).Sublist (query dir' start stop)

def AlwaysKeepsToday (line : α → Text) (store : Directory → Date → α → Directory)
    (query : Directory → UInt32 → UInt32 → List ρ) (record : α → ρ) (timestamp : ρ → UInt32)
    (dir : Directory) (log : List (Date × α)) : Prop :=
  ∀ before today a after, log = before ++ (today, a) :: after →
    KeepsToday line query record timestamp (before ++ [(today, a)]) today
      (runState (storeStep store) dir before)
      (runState (storeStep store) dir (before ++ [(today, a)]))

def NeverRemoved (store : Directory → Date → α → Directory) (dir : Directory)
    (log : List (Date × α)) : Prop :=
  ∀ before today a after, log = before ++ (today, a) :: after →
    NotFirst (runState (storeStep store) dir before) today ∧
      (today ∈ datesOf before → fileName today ∈ (runState (storeStep store) dir before).files)

end Definitions

/-! ## 2. One store -/

theorem rotateIfNeeded_keeps_iff (dir : Directory) (today : Date) :
    (fileName today ∈ dir.files → fileName today ∈ (rotateIfNeeded dir).files) ↔
      NotFirst dir today := by
  rw [rotateIfNeeded_eq, NotFirst]
  dsimp only
  by_cases hin : fileName today ∈ dir.files
  · rw [Archive.mem_rotated_iff hin]
    tauto
  · tauto

section Runs

variable {α ρ : Type} {line : α → Text} {scan : Text → Option ρ} {record : α → ρ}
  {timestamp : ρ → UInt32} {store : Directory → Date → α → Directory} {dir : Directory}
  {log : List (Date × α)}

def wholeLine (line : α → Text) (a : α) : Text := line a ++ ['\n']

/-- As long as no store meets its own file first, the files hold all that was stored under their
    dates. -/
theorem files_storedToday (hstore : ∀ dir today a, store dir today a = appendLine dir today (line a))
    (hempty : dir.files = ∅)
    (hok : Allowed (storeStep store) (fun dir x ↦ NotFirst dir x.1) dir log) :
    Files (wholeLine line) (storedToday log) (runState (storeStep store) dir log) := by
  -- induction on the stores, from the last one
  induction log using List.reverseRecOn with
  | nil => exact files_empty hempty
  | append_singleton log x ih =>
      obtain ⟨today, a⟩ := x
      rw [allowed_append, allowed_cons] at hok
      obtain ⟨hbefore, hnotFirst, -⟩ := hok
      have h := ih hbefore
      have hkept : today ∈ (storedToday log).present →
          today ∈ rotated dcaMaxFiles (storedToday log).present := by
        intro hin
        rw [← h.mem_rotated]
        refine (rotateIfNeeded_keeps_iff _ today).mpr hnotFirst ?_
        rw [h.files]
        exact (Finset.mem_map' fileNames).mpr hin
      have hstate : runState (storeStep store) dir (log ++ [(today, a)]) =
          appendCut (runState (storeStep store) dir log) today (line a) ((line a).length + 1) := by
        rw [← appendLine_eq_cut, ← hstore, runState_snoc]
        rfl
      have htext : (line a ++ ['\n']).take ((line a).length + 1) = wholeLine line a :=
        List.take_of_length_le (by rw [List.length_append, List.length_singleton])
      rw [hstate, storedToday, Archive.storedSparing_snoc, ← storedToday,
        Archive.storeSparing_eq hkept]
      exact h.append htext

theorem Files.finds {s : Archive Date α} (h : Files (wholeLine line) s dir)
    (hline : ∀ a, '\n' ∉ line a ∧ line a ≠ []) (hscan : ∀ a, scan (line a) = some (record a))
    {today : Date} (htoday : today ∈ s.present) (start stop : UInt32) :
    (((s.entries today).map record).filter fun r ↦
      start ≤ timestamp r ∧ timestamp r ≤ stop).Sublist
        (dcaQuery scan timestamp dir start stop) := by
  have hfile : fileRecords scan ((s.entries today).flatMap (wholeLine line)) =
      (s.entries today).map record := fileRecords_lines hline hscan _
  rw [h.query start stop, ← hfile]
  apply List.Sublist.filter
  rw [List.flatMap]
  exact List.sublist_flatten_of_mem (List.mem_map.mpr ⟨today, (Finset.mem_sort _).mpr htoday, rfl⟩)

theorem alwaysSparesToday_iff
    (hstore : ∀ dir today a, store dir today a = appendLine dir today (line a))
    (hline : ∀ a, '\n' ∉ line a ∧ line a ≠ []) (hscan : ∀ a, scan (line a) = some (record a))
    (hempty : dir.files = ∅) (log : List (Date × α)) :
    AlwaysSparesToday store (dcaQuery scan timestamp) record timestamp dir log ↔
      Allowed (storeStep store) (fun dir x ↦ NotFirst dir x.1) dir log := by
  constructor
  · intro h p hp
    obtain ⟨before, after, hlog, hstate⟩ := (mem_runSteps _ _ _ _).mp hp
    have hspares := h before p.2.1 p.2.2 after hlog
    rw [hstate]
    exact (rotateIfNeeded_keeps_iff _ _).mp hspares.keeps
  · rintro hok before today a after rfl
    rw [List.append_cons, allowed_append] at hok
    have hnotFirst := hok.1
    rw [allowed_append, allowed_cons] at hnotFirst
    refine { keeps := (rotateIfNeeded_keeps_iff _ today).mpr hnotFirst.2.1
             finds := fun start stop ↦ ?_ }
    refine (files_storedToday hstore hempty hok.1).finds hline hscan ?_ start stop
    rw [storedToday, Archive.storedSparing_snoc]
    exact Finset.mem_insert_self _ _

/-- Behind a store on a date whose file is not there the file holds one line. -/
theorem appendLine_created {today : Date} (h : fileName today ∉ dir.files) (text : Text) :
    (appendLine dir today text).content (fileName today) = text ++ ['\n'] := by
  have hrotated : fileName today ∉ (rotateIfNeeded dir).files := by
    rw [rotateIfNeeded_eq]
    exact fun hmem ↦ h (rotated_subset _ _ hmem)
  show Function.update (rotateIfNeeded dir).content (fileName today)
    ((if fileName today ∈ (rotateIfNeeded dir).files then _ else []) ++ _) (fileName today) = _
  rw [Function.update_self, if_neg hrotated, List.nil_append]

theorem fileText_ne_nil {today : Date} (h : today ∈ datesOf log) : fileText line log today ≠ [] := by
  rw [datesOf, List.mem_toFinset, List.mem_map] at h
  obtain ⟨x, hx, rfl⟩ := h
  intro hnil
  rw [fileText, List.flatMap_eq_nil_iff] at hnil
  have hmem : line x.2 ∈ (log.filter fun y ↦ y.1 = x.1).map (line ·.2) :=
    List.mem_map.mpr ⟨x, List.mem_filter.mpr ⟨hx, decide_eq_true rfl⟩, rfl⟩
  exact absurd (hnil _ hmem) (List.append_ne_nil_of_right_ne_nil _ (List.cons_ne_nil _ _))

theorem NeverRemoved.allowed (h : NeverRemoved store dir log) :
    Allowed (storeStep store) (fun dir x ↦ NotFirst dir x.1) dir log := by
  intro p hp
  obtain ⟨before, after, hlog, hstate⟩ := (mem_runSteps _ _ _ _).mp hp
  rw [hstate]
  exact (h before p.2.1 p.2.2 after hlog).1

/-- Under each date whose file is there is all that was stored under it. -/
theorem NeverRemoved.entries
    (hstore : ∀ dir today a, store dir today a = appendLine dir today (line a))
    (hempty : dir.files = ∅) (h : NeverRemoved store dir log) {today : Date}
    (htoday : today ∈ (storedToday log).present) :
    (storedToday log).entries today = (log.filter fun x ↦ x.1 = today).map (·.2) := by
  refine Archive.storedSparing_entries (fun before k a after hlog hk ↦ ?_) htoday
  have hok := h.allowed
  rw [hlog, allowed_append] at hok
  have hfile := (h before k a after hlog).2 (List.mem_toFinset.mpr hk)
  rw [(files_storedToday hstore hempty hok.1).files] at hfile
  exact (Finset.mem_map' fileNames).mp hfile

theorem alwaysKeepsToday_iff
    (hstore : ∀ dir today a, store dir today a = appendLine dir today (line a))
    (hline : ∀ a, '\n' ∉ line a ∧ line a ≠ []) (hscan : ∀ a, scan (line a) = some (record a))
    (hempty : dir.files = ∅) (log : List (Date × α)) :
    AlwaysKeepsToday line store (dcaQuery scan timestamp) record timestamp dir log ↔
      NeverRemoved store dir log := by
  constructor
  · intro h before today a after hlog
    have hkeeps := h before today a after hlog
    refine ⟨(rotateIfNeeded_keeps_iff _ _).mp hkeeps.keeps, fun hdates ↦ ?_⟩
    by_contra habsent
    -- then the file starts again with one line, but there have been others
    have hone : (runState (storeStep store) dir (before ++ [(today, a)])).content (fileName today) =
        line a ++ ['\n'] := by
      rw [← appendLine_created habsent, ← hstore, runState_snoc]
      rfl
    rw [hkeeps.holds, fileText_snoc, if_pos rfl] at hone
    exact fileText_ne_nil hdates (List.append_left_eq_self.mp hone)
  · rintro h before today a after rfl
    -- up to this store nothing has been removed, so today's entries are all that was stored
    have hprefix : NeverRemoved store dir (before ++ [(today, a)]) := by
      intro front k b back hlog
      refine h front k b (back ++ after) ?_
      rw [List.append_cons, hlog, List.append_assoc, List.cons_append]
    have htoday : today ∈ (storedToday (before ++ [(today, a)])).present := by
      rw [storedToday, Archive.storedSparing_snoc]
      exact Finset.mem_insert_self _ _
    have hfiles := files_storedToday hstore hempty hprefix.allowed
    have hentries := hprefix.entries hstore hempty htoday
    refine { keeps := (rotateIfNeeded_keeps_iff _ _).mpr (h before today a after rfl).1
             holds := ?_, finds := fun start stop ↦ ?_ }
    · rw [hfiles.content today htoday, hentries, List.flatMap_map, fileText, List.flatMap_map]
      rfl
    · have hfinds : ((((storedToday (before ++ [(today, a)])).entries today).map record).filter
          fun r ↦ start ≤ timestamp r ∧ timestamp r ≤ stop).Sublist
            (dcaQuery scan timestamp _ start stop) := hfiles.finds hline hscan htoday start stop
      rw [hentries, List.map_map] at hfinds
      exact hfinds

end Runs

/-- For stores with dates in any order, from an empty directory. -/
theorem rotation_spares_today_iff (dir : Directory) (hempty : dir.files = ∅) :
    (∀ log : List (Date × DcaMeasurement),
        (AlwaysSparesToday dcaStoreMeasurement dcaQueryMeasurements (fun m ↦ m) (·.timestamp) dir
            log ↔
          Allowed (storeStep dcaStoreMeasurement) (fun dir x ↦ NotFirst dir x.1) dir log) ∧
        (AlwaysKeepsToday measurementLine dcaStoreMeasurement dcaQueryMeasurements (fun m ↦ m)
            (·.timestamp) dir log ↔
          NeverRemoved dcaStoreMeasurement dir log)) ∧
      ∀ log : List (Date × StoreEventArgs),
        (AlwaysSparesToday dcaStoreEvent dcaQueryEvents StoreEventArgs.event (·.timestamp) dir
            log ↔
          Allowed (storeStep dcaStoreEvent) (fun dir x ↦ NotFirst dir x.1) dir log) ∧
        (AlwaysKeepsToday eventLine dcaStoreEvent dcaQueryEvents StoreEventArgs.event
            (·.timestamp) dir log ↔
          NeverRemoved dcaStoreEvent dir log) := by
  constructor
  · intro log
    have hstore : ∀ dir today m, dcaStoreMeasurement dir today m =
        appendLine dir today (measurementLine m) := fun _ _ _ ↦ rfl
    exact ⟨alwaysSparesToday_iff hstore measurementLine_clean scanMeasurement_line hempty log,
      alwaysKeepsToday_iff hstore measurementLine_clean scanMeasurement_line hempty log⟩
  · intro log
    have hstore : ∀ dir today e, dcaStoreEvent dir today e =
        appendLine dir today (eventLine e) := fun _ _ _ ↦ rfl
    exact ⟨alwaysSparesToday_iff hstore eventLine_clean scanEvent_line hempty log,
      alwaysKeepsToday_iff hstore eventLine_clean scanEvent_line hempty log⟩

instance (dir : Directory) (today : Date) : Decidable (NotFirst dir today) :=
  inferInstanceAs (Decidable (dir.files.card ≤ dcaMaxFiles ∨ fileName today ∉ dir.files ∨
    ∃ f ∈ dir.files, f < fileName today))

def clockSetBack : List (Date × DcaMeasurement) :=
  (((List.finRange 31).drop 1).take 7).map (fun i ↦ (marchDay i, { timestamp := 0 })) ++
    [(firstOfMarch, { timestamp := 0 })]

theorem rotation_spares_today_once :
    AlwaysSparesToday dcaStoreMeasurement dcaQueryMeasurements (fun m ↦ m) (·.timestamp)
      ⟨∅, fun _ ↦ []⟩ clockSetBack := by
  apply ((rotation_spares_today_iff ⟨∅, fun _ ↦ []⟩ rfl).1 clockSetBack).1.mpr
  show ∀ p ∈ runSteps (storeStep dcaStoreMeasurement) ⟨∅, fun _ ↦ []⟩ clockSetBack,
    NotFirst p.1 p.2.1
  decide +kernel

/-- The next record of the first of March removes the file of that day. -/
theorem rotation_removes_today :
    let log := clockSetBack ++ [(firstOfMarch, { timestamp := 0 })]
    ¬ AlwaysSparesToday dcaStoreMeasurement dcaQueryMeasurements (fun m ↦ m) (·.timestamp)
        ⟨∅, fun _ ↦ []⟩ log ∧
      ¬ AlwaysKeepsToday measurementLine dcaStoreMeasurement dcaQueryMeasurements (fun m ↦ m)
        (·.timestamp) ⟨∅, fun _ ↦ []⟩ log := by
  have hfirst : ¬ NotFirst (runState (storeStep dcaStoreMeasurement) ⟨∅, fun _ ↦ []⟩ clockSetBack)
      firstOfMarch := by
    decide +kernel
  constructor
  · intro h
    have hspares := h clockSetBack firstOfMarch { timestamp := 0 } [] rfl
    exact hfirst ((rotateIfNeeded_keeps_iff _ _).mp hspares.keeps)
  · intro h
    have hkeeps := h clockSetBack firstOfMarch { timestamp := 0 } [] rfl
    exact hfirst ((rotateIfNeeded_keeps_iff _ _).mp hkeeps.keeps)

end SubmarineMonitor
