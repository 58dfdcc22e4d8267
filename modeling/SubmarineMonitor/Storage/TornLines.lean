import SubmarineMonitor.Storage.Appends

/-!
# TornLines — appends that are cut short

A crash or a full disk leaves the beginning of a line in its file, and the next append goes on with it.
The queries skip a line only by the number of values `sscanf` reads of it, so a line whose last number is
cut is taken for another record, and so is most of what a later append makes of one.  Where no intact
line is appended to a cut one, and what is left of the cut ones has another number of values than a
record, each record is found as it was stored or, if its line was cut, not at all
(`torn_lines_read_back`).
-/

open Reasoning

namespace SubmarineMonitor

/-! ## 1. Definitions -/

/-- A store call of which `kept` characters of the line and its newline reach the file. -/
structure Append (α : Type) where
  value : α
  kept : Nat
  deriving DecidableEq, Repr

def dcaStoreMeasurementCut (dir : Directory) (today : Date) (e : Append DcaMeasurement) : Directory :=
  appendCut dir today (measurementLine e.value) e.kept

def dcaStoreEventCut (dir : Directory) (today : Date) (e : Append StoreEventArgs) : Directory :=
  appendCut dir today (eventLine e.value) e.kept

def measurementValues (m : DcaMeasurement) : List Int :=
  [m.timestamp.toNat, m.temperature.toInt, m.humidity.toNat, m.light.toNat,
    m.batteryVoltage.toNat, m.mode.toNat]

def eventValues (e : StoreEventArgs) : List Int :=
  if e.hasMeasurement then
    [e.timestamp.toNat, e.eventType.toNat, e.eventSource.toNat, e.temperature.toInt,
      e.humidity.toNat, e.light.toNat, e.batteryVoltage.toNat, e.mode.toNat]
  else [e.timestamp.toNat, e.eventType.toNat, e.eventSource.toNat]

section Definitions

variable {α ρ : Type}

def Append.text (values : α → List Int) (e : Append α) : Text :=
  (commaSeparated (values e.value) ++ ['\n']).take e.kept

def Append.Whole (values : α → List Int) (e : Append α) : Prop :=
  (commaSeparated (values e.value)).length < e.kept

/-- Whatever a query finds has been stored.  File by file, it finds the records that were appended, in
    order: one whose line was cut as it was stored or not at all, any other one as it was stored. -/
structure NeverMisread (query : Directory → UInt32 → UInt32 → List ρ) (values : α → List Int)
    (record : α → ρ) (timestamp : ρ → UInt32) (log : List (Date × Append α)) (dir : Directory) :
    Prop where
  passed : ∀ start stop, ∀ r ∈ query dir start stop, ∃ x ∈ log, r = record x.2.value
  inPlace : ∃ found : Date → List ρ,
    (∀ d ∈ (Archive.stored dcaMaxFiles log).present,
      ReadBack (fun e ↦ record e.value) (Append.Whole values)
        ((Archive.stored dcaMaxFiles log).entries d) (found d)) ∧
    ∀ start stop, query dir start stop =
      (((Archive.stored dcaMaxFiles log).present.sort (· ≤ ·)).flatMap found).filter
        fun r ↦ start ≤ timestamp r ∧ timestamp r ≤ stop

/-- The append starts behind a complete line and leaves the values of a whole one, or a number of values
    that is not in `counts`; or it goes on with a line that was cut and is cut itself, and the number of
    values in the line is not in `counts` either; or nothing of it reaches the file. -/
inductive AppendsCleanly (values : α → List Int) (fmt : List Directive) (counts : List Nat)
    (dir : Directory) (x : Date × Append α) : Prop
  | own (behind : EndsLine (todayText dir x.1))
      (left : (commaSeparated (values x.2.value)).length ≤ x.2.kept ∨
        numbersLeft (values x.2.value) x.2.kept ∉ counts)
  | continued (cut : ¬ x.2.Whole values)
      (left : (sscanf fmt (openLine (todayText dir x.1) ++ x.2.text values)).length ∉ counts)
  | nothing (none : x.2.kept = 0)

/-- How a query takes lines: the line of a record as that record, and no line with another number of
    values than a record has; a line that was cut has the number of values that its length tells. -/
structure ScansLines (values : α → List Int) (fmt : List Directive) (counts : List Nat)
    (scan : Text → Option ρ) (record : α → ρ) : Prop where
  ne_nil : ∀ a, values a ≠ []
  whole : ∀ a, scan (commaSeparated (values a)) = some (record a)
  other : ∀ line, (sscanf fmt line).length ∉ counts → scan line = none
  cut : ∀ a kept, (sscanf fmt ((commaSeparated (values a)).take kept)).length =
    numbersLeft (values a) kept

/-- The entries of a file: those that make up its complete lines, and those that make up the line that
    is still open, each read back. -/
structure Scanned (values : α → List Int) (scan : Text → Option ρ) (record : α → ρ)
    (closed opened : List (Append α)) : Prop where
  ends : EndsLine (closed.flatMap (Append.text values))
  cut : ∀ e ∈ opened, ¬ e.Whole values
  readClosed : ReadBack (fun e ↦ record e.value) (Append.Whole values) closed
    (fileRecords scan (closed.flatMap (Append.text values)))
  readOpened : ReadBack (fun e ↦ record e.value) (Append.Whole values) opened
    (fileRecords scan (opened.flatMap (Append.text values)))

end Definitions

/-! ## 2. Lines that are cut -/

theorem eventLine_eq (e : StoreEventArgs) : eventLine e = commaSeparated (eventValues e) := by
  unfold eventLine eventValues
  by_cases h : e.hasMeasurement
  · rw [if_pos h, if_pos h]
  · rw [if_neg h, if_neg h]

theorem measurement_scansLines :
    ScansLines measurementValues measurementFormat [6] scanMeasurement (fun m ↦ m) where
  ne_nil _ := List.cons_ne_nil _ _
  whole := scanMeasurement_line
  other line h := by
    unfold scanMeasurement
    split
    case h_1 heq => exact absurd (List.mem_singleton.mpr (congrArg List.length heq)) h
    case h_2 => rfl
  cut m kept := @sscanf_cut _ [] _ (fits_measurement m) kept

theorem event_scansLines :
    ScansLines eventValues eventFormat [3, 8] scanEvent StoreEventArgs.event where
  ne_nil e := by
    unfold eventValues
    by_cases h : e.hasMeasurement
    · rw [if_pos h]
      exact List.cons_ne_nil _ _
    · rw [if_neg h]
      exact List.cons_ne_nil _ _
  whole e := by
    rw [← eventLine_eq]
    exact scanEvent_line e
  other line h := by
    rw [List.mem_cons, List.mem_singleton, not_or] at h
    unfold scanEvent
    split
    case h_1 heq => exact absurd (congrArg List.length heq) h.2
    case h_2 heq => exact absurd (congrArg List.length heq) h.1
    case h_3 => rfl
  cut e kept := by
    unfold eventValues
    by_cases h : e.hasMeasurement
    · rw [if_pos h]
      exact @sscanf_cut _ [] _ (fits_eventMeasurement e) kept
    · rw [if_neg h]
      exact @sscanf_cut _ [.signed, .unsigned, .unsigned, .unsigned, .unsigned] _ (fits_event e) kept

/-! ## 3. Files -/

section Files

variable {α ρ : Type} {values : α → List Int} {scan : Text → Option ρ} {record : α → ρ}
  {fmt : List Directive} {counts : List Nat}

theorem text_whole {e : Append α} (h : e.Whole values) :
    e.text values = commaSeparated (values e.value) ++ ['\n'] :=
  List.take_of_length_le (by
    rw [List.length_append, List.length_singleton]
    exact h)

theorem text_cut {e : Append α} (h : ¬ e.Whole values) :
    e.text values = (commaSeparated (values e.value)).take e.kept :=
  List.take_append_of_le_length (Nat.le_of_not_lt h)

theorem newline_notMem_opened {opened : List (Append α)} (h : ∀ e ∈ opened, ¬ e.Whole values) :
    '\n' ∉ opened.flatMap (Append.text values) := by
  intro hmem
  obtain ⟨e, he, hmem⟩ := List.mem_flatMap.mp hmem
  rw [text_cut (h e he)] at hmem
  exact newline_notMem_commaSeparated _ (List.mem_of_mem_take hmem)

theorem readBack_skipped {opened : List (Append α)} (h : ∀ e ∈ opened, ¬ e.Whole values) :
    ReadBack (fun e ↦ record e.value) (Append.Whole values) opened [] := by
  induction opened with
  | nil => exact .nil
  | cons e opened ih =>
      rw [List.forall_mem_cons] at h
      exact .skipped h.1 (ih h.2)

theorem readBack_whole (hs : ScansLines values fmt counts scan record) {e : Append α}
    (h : e.Whole values) :
    ReadBack (fun e ↦ record e.value) (Append.Whole values) [e]
      (fileRecords scan (e.text values)) := by
  have hread := @fileRecords_lines (Append α) ρ scan (fun e ↦ commaSeparated (values e.value))
    (fun e ↦ record e.value)
    (fun e ↦ ⟨newline_notMem_commaSeparated _, commaSeparated_ne_nil (hs.ne_nil e.value)⟩)
    (fun e ↦ hs.whole e.value) [e]
  rw [List.flatMap_singleton, List.map_singleton, ← text_whole h] at hread
  rw [hread]
  exact .read .nil

theorem readBack_cut (hs : ScansLines values fmt counts scan record) {e : Append α}
    (hnot : ¬ e.Whole values)
    (h : (commaSeparated (values e.value)).length ≤ e.kept ∨
      numbersLeft (values e.value) e.kept ∉ counts) :
    ReadBack (fun e ↦ record e.value) (Append.Whole values) [e]
      (fileRecords scan (e.text values)) := by
  have hopen : '\n' ∉ e.text values := by
    rw [text_cut hnot]
    exact fun hmem ↦ newline_notMem_commaSeparated _ (List.mem_of_mem_take hmem)
  by_cases hempty : e.text values = []
  · rw [hempty]
    exact .skipped hnot .nil
  rw [fileRecords_open hopen hempty, text_cut hnot]
  rcases h with hall | hcount
  · -- only the newline is missing
    rw [List.take_of_length_le hall, hs.whole]
    exact .read .nil
  · rw [← hs.cut] at hcount
    rw [hs.other _ hcount]
    exact .skipped hnot .nil

section Scanned

variable {closed opened : List (Append α)}

theorem scanned_nil : Scanned values scan record [] [] where
  ends := .inl rfl
  cut _ he := absurd he List.not_mem_nil
  readClosed := .nil
  readOpened := .nil

theorem Scanned.readBack (h : Scanned values scan record closed opened) :
    ReadBack (fun e ↦ record e.value) (Append.Whole values) (closed ++ opened)
      (fileRecords scan ((closed ++ opened).flatMap (Append.text values))) := by
  rw [List.flatMap_append, fileRecords_append _ h.ends]
  exact h.readClosed.append h.readOpened

/-- The entries behind the last newline are those of the open line. -/
theorem Scanned.openLine_eq (h : Scanned values scan record closed opened) :
    openLine ((closed ++ opened).flatMap (Append.text values)) =
      opened.flatMap (Append.text values) := by
  rw [List.flatMap_append]
  exact openLine_append h.ends (newline_notMem_opened h.cut)

theorem Scanned.own (h : Scanned values scan record closed opened)
    (hs : ScansLines values fmt counts scan record) {e : Append α}
    (hbehind : EndsLine ((closed ++ opened).flatMap (Append.text values)))
    (hleft : (commaSeparated (values e.value)).length ≤ e.kept ∨
      numbersLeft (values e.value) e.kept ∉ counts) :
    ∃ closed' opened', closed ++ opened ++ [e] = closed' ++ opened' ∧
      Scanned values scan record closed' opened' := by
  by_cases hwhole : e.Whole values
  · -- nothing is open behind a whole line
    refine ⟨closed ++ opened ++ [e], [], (List.append_nil _).symm, ?_⟩
    refine { ends := .inr ?_, cut := fun e he ↦ absurd he List.not_mem_nil
             readClosed := ?_, readOpened := .nil }
    · rw [List.flatMap_append, List.flatMap_singleton, text_whole hwhole, ← List.append_assoc]
      exact ⟨_, rfl⟩
    · rw [List.flatMap_append, List.flatMap_singleton, fileRecords_append _ hbehind]
      exact h.readBack.append (readBack_whole hs hwhole)
  · -- a line is opened
    refine ⟨closed ++ opened, [e], rfl, ?_⟩
    refine { ends := hbehind, cut := fun e' he ↦ ?_, readClosed := h.readBack, readOpened := ?_ }
    · rw [List.mem_singleton.mp he]
      exact hwhole
    · rw [List.flatMap_singleton]
      exact readBack_cut hs hwhole hleft

theorem Scanned.continued (h : Scanned values scan record closed opened)
    (hs : ScansLines values fmt counts scan record) {e : Append α} (hcut : ¬ e.Whole values)
    (hleft : (sscanf fmt (openLine ((closed ++ opened).flatMap (Append.text values)) ++
      e.text values)).length ∉ counts) :
    Scanned values scan record closed (opened ++ [e]) := by
  have hall : ∀ e' ∈ opened ++ [e], ¬ e'.Whole values := by
    intro e' he
    rcases List.mem_append.mp he with he | he
    · exact h.cut e' he
    · rw [List.mem_singleton.mp he]
      exact hcut
  rw [h.openLine_eq] at hleft
  refine { ends := h.ends, cut := hall, readClosed := h.readClosed, readOpened := ?_ }
  have hopen := newline_notMem_opened hall
  rw [List.flatMap_append, List.flatMap_singleton] at hopen ⊢
  by_cases hempty : opened.flatMap (Append.text values) ++ e.text values = []
  · rw [hempty]
    exact readBack_skipped hall
  · rw [fileRecords_open hopen hempty, hs.other _ hleft]
    exact readBack_skipped hall

theorem Scanned.nothing (h : Scanned values scan record closed opened) {e : Append α}
    (hkept : e.kept = 0) : Scanned values scan record closed (opened ++ [e]) := by
  have hcut : ¬ e.Whole values := by
    rw [Append.Whole, hkept]
    exact Nat.not_lt_zero _
  have htext : (opened ++ [e]).flatMap (Append.text values) = opened.flatMap (Append.text values) := by
    rw [List.flatMap_append, List.flatMap_singleton, Append.text, hkept, List.take_zero,
      List.append_nil]
  have hskipped := h.readOpened.append (.skipped hcut .nil)
  rw [List.append_nil] at hskipped
  exact { ends := h.ends
          cut := List.forall_mem_append.mpr ⟨h.cut, List.forall_mem_singleton.mpr hcut⟩
          readClosed := h.readClosed
          readOpened := htext ▸ hskipped }

end Scanned

variable {store : Directory → Date → Append α → Directory} {dir : Directory}
  {log : List (Date × Append α)}

theorem files_stored (hstore : ∀ dir today e, store dir today e =
      appendCut dir today (commaSeparated (values e.value)) e.kept) (hempty : dir.files = ∅)
    (log : List (Date × Append α)) :
    Files (Append.text values) (Archive.stored dcaMaxFiles log)
      (runState (storeStep store) dir log) := by
  induction log using List.reverseRecOn with
  | nil => exact files_empty hempty
  | append_singleton log x ih =>
      obtain ⟨today, e⟩ := x
      have hstate : runState (storeStep store) dir (log ++ [(today, e)]) =
          appendCut (runState (storeStep store) dir log) today (commaSeparated (values e.value))
            e.kept := by
        rw [← hstore, runState_snoc]
        rfl
      rw [hstate, Archive.stored_snoc]
      exact ih.append rfl

/-- What a run of clean appends leaves under each date. -/
theorem scanned_run (hstore : ∀ dir today e, store dir today e =
      appendCut dir today (commaSeparated (values e.value)) e.kept) (hempty : dir.files = ∅)
    (hs : ScansLines values fmt counts scan record)
    (hok : Allowed (storeStep store) (AppendsCleanly values fmt counts) dir log) (d : Date) :
    ∃ closed opened, (Archive.stored dcaMaxFiles log).entries d = closed ++ opened ∧
      Scanned values scan record closed opened := by
  -- induction on the appends, from the last one
  induction log using List.reverseRecOn generalizing d with
  | nil => exact ⟨[], [], rfl, scanned_nil⟩
  | append_singleton log x ih =>
      obtain ⟨today, e⟩ := x
      rw [allowed_append, allowed_cons] at hok
      obtain ⟨hbefore, hclean, -⟩ := hok
      have htoday := (files_stored hstore hempty log).todayText_eq today
      -- what rotation leaves of today's file
      have hheld : ∃ closed opened, (Archive.stored dcaMaxFiles log).held
          (rotated dcaMaxFiles (Archive.stored dcaMaxFiles log).present) today = closed ++ opened ∧
          Scanned values scan record closed opened := by
        rw [Archive.held]
        by_cases hin : today ∈ rotated dcaMaxFiles (Archive.stored dcaMaxFiles log).present
        · rw [if_pos hin]
          exact ih hbefore today
        · rw [if_neg hin]
          exact ⟨[], [], rfl, scanned_nil⟩
      rw [Archive.stored_snoc, Archive.store]
      by_cases hd : d = today
      · obtain ⟨closed, opened, heq, hscanned⟩ := hheld
        rw [heq] at htoday
        rw [hd, Archive.put_entries_self, heq]
        cases hclean with
        | own behind left =>
            dsimp only at behind left
            rw [htoday] at behind
            exact hscanned.own hs behind left
        | continued cut left =>
            dsimp only at cut left
            rw [htoday] at left
            exact ⟨closed, opened ++ [e], List.append_assoc _ _ _,
              hscanned.continued hs cut left⟩
        | nothing none =>
            exact ⟨closed, opened ++ [e], List.append_assoc _ _ _, hscanned.nothing none⟩
      · rw [Archive.put_entries_of_ne _ _ _ _ hd]
        exact ih hbefore d

theorem neverMisread_run {timestamp : ρ → UInt32} (hstore : ∀ dir today e, store dir today e =
      appendCut dir today (commaSeparated (values e.value)) e.kept) (hempty : dir.files = ∅)
    (hs : ScansLines values fmt counts scan record)
    (hok : Allowed (storeStep store) (AppendsCleanly values fmt counts) dir log)
    {before : List (Date × Append α)} (hbefore : before <+: log) :
    NeverMisread (dcaQuery scan timestamp) values record timestamp before
      (runState (storeStep store) dir before) := by
  obtain ⟨after, rfl⟩ := hbefore
  rw [allowed_append] at hok
  have hread : ∀ d, ReadBack (fun e ↦ record e.value) (Append.Whole values)
      ((Archive.stored dcaMaxFiles before).entries d)
      (fileRecords scan
        (((Archive.stored dcaMaxFiles before).entries d).flatMap (Append.text values))) := by
    intro d
    obtain ⟨closed, opened, heq, hscanned⟩ := scanned_run hstore hempty hs hok.1 d
    rw [heq]
    exact hscanned.readBack
  have hfiles := files_stored hstore hempty before
  refine { passed := fun start stop r hr ↦ ?_, inPlace := ⟨_, fun d _ ↦ hread d, hfiles.query⟩ }
  rw [hfiles.query, List.mem_filter, List.mem_flatMap] at hr
  obtain ⟨⟨d, -, hmem⟩, -⟩ := hr
  obtain ⟨e, he, heq⟩ := (hread d).exists_entry r hmem
  exact ⟨(d, e), Archive.mem_of_mem_entries he, heq⟩

end Files

/-- At every point of a run of appends that leave no line that counts as a record it is not. -/
theorem torn_lines_read_back (dir : Directory) (hempty : dir.files = ∅) :
    (∀ log before : List (Date × Append DcaMeasurement),
        Allowed (storeStep dcaStoreMeasurementCut)
          (AppendsCleanly measurementValues measurementFormat [6]) dir log →
        before <+: log →
        NeverMisread dcaQueryMeasurements measurementValues (fun m ↦ m) (·.timestamp) before
          (runState (storeStep dcaStoreMeasurementCut) dir before)) ∧
      ∀ log before : List (Date × Append StoreEventArgs),
        Allowed (storeStep dcaStoreEventCut) (AppendsCleanly eventValues eventFormat [3, 8]) dir
          log →
        before <+: log →
        NeverMisread dcaQueryEvents eventValues StoreEventArgs.event (·.timestamp) before
          (runState (storeStep dcaStoreEventCut) dir before) := by
  constructor
  · intro log before hok hbefore
    exact neverMisread_run (fun _ _ _ ↦ rfl) hempty measurement_scansLines hok hbefore
  · intro log before hok hbefore
    have hstore : ∀ dir today e, dcaStoreEventCut dir today e =
        appendCut dir today (commaSeparated (eventValues e.value)) e.kept := by
      intro dir today e
      rw [dcaStoreEventCut, eventLine_eq]
    exact neverMisread_run hstore hempty event_scansLines hok hbefore

instance (s : Text) : Decidable (EndsLine s) :=
  decidable_of_iff (s = [] ∨ s.getLast? = some '\n')
    (or_congr_right List.getLast?_eq_some_iff)

instance {α : Type} (values : α → List Int) (fmt : List Directive) (counts : List Nat)
    (dir : Directory) (x : Date × Append α) : Decidable (AppendsCleanly values fmt counts dir x) :=
  decidable_of_iff
    ((EndsLine (todayText dir x.1) ∧ ((commaSeparated (values x.2.value)).length ≤ x.2.kept ∨
        numbersLeft (values x.2.value) x.2.kept ∉ counts)) ∨
      (¬ (commaSeparated (values x.2.value)).length < x.2.kept ∧
        (sscanf fmt (openLine (todayText dir x.1) ++ x.2.text values)).length ∉ counts) ∨
      x.2.kept = 0)
    ⟨fun h ↦ by
      rcases h with ⟨behind, left⟩ | ⟨cut, left⟩ | none
      · exact .own behind left
      · exact .continued cut left
      · exact .nothing none, fun h ↦ by
      cases h with
      | own behind left => exact .inl ⟨behind, left⟩
      | continued cut left => exact .inr (.inl ⟨cut, left⟩)
      | nothing none => exact .inr (.inr none)⟩

/-- A whole line, one that is cut behind its second number and goes on with one that is cut behind its
    first; on the next day a whole line, one that lacks its newline, and one of which the full disk takes
    nothing. -/
def cutTwice : List (Date × Append DcaMeasurement) :=
  [(firstOfMarch, ⟨{ timestamp := 5 }, 20⟩),
    (firstOfMarch, ⟨{ timestamp := 6, temperature := -3 }, 5⟩),
    (firstOfMarch, ⟨{ timestamp := 78 }, 2⟩), (secondOfMarch, ⟨{ timestamp := 9 }, 20⟩),
    (secondOfMarch, ⟨{ timestamp := 0, mode := 12 }, 12⟩), (secondOfMarch, ⟨{ timestamp := 7 }, 0⟩)]

theorem torn_lines_read_back_cutTwice :
    NeverMisread dcaQueryMeasurements measurementValues (fun m ↦ m) (·.timestamp) cutTwice
      (runState (storeStep dcaStoreMeasurementCut) ⟨∅, fun _ ↦ []⟩ cutTwice) := by
  refine (torn_lines_read_back ⟨∅, fun _ ↦ []⟩ rfl).1 cutTwice cutTwice ?_ (List.prefix_refl _)
  show ∀ p ∈ runSteps (storeStep dcaStoreMeasurementCut) ⟨∅, fun _ ↦ []⟩ cutTwice,
    AppendsCleanly measurementValues measurementFormat [6] p.1 p.2
  decide +kernel

def cutMode : List (Date × Append DcaMeasurement) :=
  [(firstOfMarch, ⟨{ timestamp := 0, mode := 12 }, 11⟩)]

/-- The query finds a measurement of mode 1. -/
theorem torn_mode_misread :
    ¬ NeverMisread dcaQueryMeasurements measurementValues (fun m ↦ m) (·.timestamp) cutMode
      (runState (storeStep dcaStoreMeasurementCut) ⟨∅, fun _ ↦ []⟩ cutMode) := by
  have hquery : { timestamp := 0, mode := 1 } ∈ dcaQueryMeasurements
      (runState (storeStep dcaStoreMeasurementCut) ⟨∅, fun _ ↦ []⟩ cutMode) 0 0 := by
    decide +kernel
  intro h
  obtain ⟨x, hx, heq⟩ := h.passed 0 0 _ hquery
  rw [List.mem_singleton.mp hx] at heq
  exact absurd heq (by decide)

end SubmarineMonitor
