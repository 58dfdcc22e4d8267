import SubmarineMonitor.Storage.DataCollection
import SubmarineMonitor.Reasoning.Retention

/-!
# StoreQuery — what the record files hold and what a query finds

A directory holds the log of the calls so far when its files are those of a retained set of dates and
each of them holds the lines of its date.  This is kept by every call, and then a query answers with
the retained records in store order.
-/

open Reasoning

namespace SubmarineMonitor

/-! ## 1. File names in the order of their dates -/

def Date.number (d : Date) : Nat := (d.year * 100 + d.month) * 100 + d.day

theorem Date.number_injective : Function.Injective Date.number := by
  intro a b h
  have ha := a.month_le
  have ha' := a.day_le
  have hb := b.month_le
  have hb' := b.day_le
  unfold Date.number at h
  cases a
  cases b
  simp only [Date.mk.injEq] at *
  omega

instance : LinearOrder Date := LinearOrder.lift' Date.number Date.number_injective

theorem date_lt_iff (a b : Date) : a < b ↔ a.number < b.number := Iff.rfl

/-- File names sort as their dates. -/
theorem fileName_strictMono : StrictMono fileName := by
  intro a b h
  rw [date_lt_iff, Date.number, Date.number] at h
  have ha := a.month_le
  have ha' := a.day_le
  have hb := b.month_le
  have hb' := b.day_le
  have hlen : (todayDateString a).length = (todayDateString b).length := by
    simp only [todayDateString, List.length_append, List.length_cons, padded_length]
  apply append_lt_append _ _ hlen
  unfold todayDateString
  -- the first number that differs decides, and each has a fixed width
  by_cases hyear : a.year < b.year
  · exact append_lt_append _ _ (by simp) (padded_lt_padded hyear b.year_lt)
  have hyear' : a.year = b.year := by omega
  rw [hyear']
  refine List.append_left_lt (List.cons_lt_cons_iff.mpr (.inr ⟨rfl, ?_⟩))
  by_cases hmonth : a.month < b.month
  · exact append_lt_append _ _ (by simp) (padded_lt_padded hmonth (by omega))
  have hmonth' : a.month = b.month := by omega
  rw [hmonth']
  refine List.append_left_lt (List.cons_lt_cons_iff.mpr (.inr ⟨rfl, ?_⟩))
  exact padded_lt_padded (by omega) (by omega)

def marchDay (i : Fin 31) : Date where
  year := 2024
  month := 3
  day := i.val + 1
  year_lt := by decide
  month_le := by decide
  day_le := i.isLt

def firstOfMarch : Date := marchDay 0

def secondOfMarch : Date := marchDay 1

def fileNames : Date ↪ Text := ⟨fileName, fileName_strictMono.injective⟩

/-! ## 2. A directory holds a log -/

section Holds

variable {ρ : Type} {line : ρ → Text}

def datesOf (log : List (Date × ρ)) : Finset Date := (log.map (·.1)).toFinset

def fileText (line : ρ → Text) (log : List (Date × ρ)) (d : Date) : Text :=
  ((log.filter fun x ↦ x.1 = d).map (line ·.2)).flatMap (· ++ ['\n'])

/-- The files are those of the dates in `present`, and each holds the lines of its date. -/
structure Holds (line : ρ → Text) (log : List (Date × ρ)) (present : Finset Date)
    (dir : Directory) : Prop where
  files : dir.files = present.map fileNames
  retained : Retained dcaMaxFiles (datesOf log) present
  content : ∀ d ∈ present, dir.content (fileName d) = fileText line log d

theorem holds_empty {dir : Directory} (h : dir.files = ∅) : Holds line [] ∅ dir where
  files := by rw [h, Finset.map_empty]
  retained := retained_empty _
  content d hd := absurd hd (Finset.notMem_empty d)

theorem mem_files {log : List (Date × ρ)} {present : Finset Date} {dir : Directory}
    (h : Holds line log present dir) (d : Date) : fileName d ∈ dir.files ↔ d ∈ present := by
  rw [h.files]
  exact Finset.mem_map' fileNames

theorem rotateIfNeeded_eq (dir : Directory) :
    rotateIfNeeded dir = { dir with files := rotated dcaMaxFiles dir.files } := by
  unfold rotateIfNeeded rotated dropOldest
  by_cases hfew : dir.files.card ≤ dcaMaxFiles
  · rw [if_pos hfew, if_pos hfew]
  · rw [if_neg hfew, if_neg hfew]
    cases dir.files.sort (· ≤ ·) with
    | nil => rfl
    | cons front rest =>
        simp only [Directory.mk.injEq, and_true]
        ext f
        simp only [Finset.mem_erase]

theorem fileText_snoc (log : List (Date × ρ)) (today : Date) (r : ρ) (d : Date) :
    fileText line (log ++ [(today, r)]) d =
      if d = today then fileText line log d ++ (line r ++ ['\n']) else fileText line log d := by
  unfold fileText
  rw [List.filter_append]
  by_cases hd : d = today
  · rw [if_pos hd, hd]
    simp
  · rw [if_neg hd]
    simp [Ne.symm hd]

theorem fileText_nil {log : List (Date × ρ)} {d : Date} (h : d ∉ datesOf log) :
    fileText line log d = [] := by
  have hnone : log.filter (fun x ↦ x.1 = d) = [] := by
    rw [List.filter_eq_nil_iff]
    intro x hx heq
    apply h
    rw [datesOf, List.mem_toFinset]
    exact List.mem_map.mpr ⟨x, hx, of_decide_eq_true heq⟩
  rw [fileText, hnone]
  rfl

theorem datesOf_snoc (log : List (Date × ρ)) (today : Date) (r : ρ) :
    datesOf (log ++ [(today, r)]) = insert today (datesOf log) := by
  unfold datesOf
  rw [List.map_append, List.toFinset_append, Finset.union_comm]
  rfl

/-- `AppendLine` extends the log by one record. -/
theorem holds_append {log : List (Date × ρ)} {present : Finset Date} {dir : Directory}
    {today : Date} {r : ρ} (h : Holds line log present dir)
    (htoday : ∀ d ∈ datesOf log, d ≤ today) :
    Holds line (log ++ [(today, r)]) (insert today (rotated dcaMaxFiles present))
      (appendLine dir today (line r)) := by
  have hfiles : rotated dcaMaxFiles dir.files = (rotated dcaMaxFiles present).map fileNames := by
    rw [h.files]
    exact rotated_map fileName_strictMono _ _
  have hmem : ∀ d, fileName d ∈ rotated dcaMaxFiles dir.files ↔
      d ∈ rotated dcaMaxFiles present := by
    intro d
    rw [hfiles]
    exact Finset.mem_map' fileNames
  have hsub : rotated dcaMaxFiles present ⊆ present := rotated_subset _ _
  have hrotate := h.retained.rotate
  unfold appendLine
  rw [rotateIfNeeded_eq]
  refine ⟨?_, ?_, fun d hd ↦ ?_⟩
  · rw [Finset.map_insert, ← hfiles]
    rfl
  · rw [datesOf_snoc]
    exact hrotate.1.insert hrotate.2 htoday
  · rw [fileText_snoc]
    by_cases heq : d = today
    · -- today's file: what it held before, if it was there
      rw [if_pos heq, heq]
      simp only [Function.update_self, hmem]
      by_cases hin : today ∈ rotated dcaMaxFiles present
      · rw [if_pos hin, h.content today (hsub hin)]
      · rw [if_neg hin, fileText_nil (hrotate.1.notMem_dates (by decide) htoday hin)]
    · have hne : fileName d ≠ fileName today := fun hname ↦
        heq (fileName_strictMono.injective hname)
      rw [if_neg heq]
      simp only [Function.update_of_ne hne]
      exact h.content d (hsub (Finset.mem_of_mem_insert_of_ne hd heq))

theorem sort_fileNames (present : Finset Date) :
    (present.map fileNames).sort (· ≤ ·) = (present.sort (· ≤ ·)).map fileName :=
  (StrictMonoOn.map_finsetSort fileNames present (fileName_strictMono.strictMonoOn _)).symm

/-- `ReadAllLines` on a directory that holds a log whose dates never decrease. -/
theorem readAllLines_eq {log : List (Date × ρ)} {present : Finset Date} {dir : Directory}
    (h : Holds line log present dir) (hsorted : (log.map (·.1)).Pairwise (· ≤ ·))
    (hline : ∀ r, '\n' ∉ line r) (hne : ∀ r, line r ≠ []) :
    readAllLines dir = (log.filter fun x ↦ fileName x.1 ∈ dir.files).map (line ·.2) := by
  -- a file is read back as the lines of its date
  have hfile : ∀ d ∈ present.sort (· ≤ ·),
      (getLines [] (dir.content (fileName d))).filter (fun l ↦ l ≠ []) =
        (log.filter fun x ↦ x.1 = d).map (line ·.2) := by
    intro d hd
    have hlines : ∀ l ∈ (log.filter fun x ↦ x.1 = d).map (line ·.2), '\n' ∉ l ∧ l ≠ [] := by
      intro l hl
      obtain ⟨x, -, rfl⟩ := List.mem_map.mp hl
      exact ⟨hline x.2, hne x.2⟩
    rw [h.content d ((Finset.mem_sort _).mp hd), fileText,
      getLines_lines fun l hl ↦ (hlines l hl).1, List.filter_eq_self]
    exact fun l hl ↦ decide_eq_true (hlines l hl).2
  have hkeys := (present.sortedLT_sort).pairwise
  rw [List.pairwise_map] at hsorted
  -- file by file is the order of the stores, because dates never decrease
  have hgroup := flatMap_filter_key hsorted hkeys
  have hsort : dir.files.sort (· ≤ ·) = (present.sort (· ≤ ·)).map fileName := by
    rw [h.files, sort_fileNames]
  unfold readAllLines
  rw [hsort, List.flatMap_map, List.flatMap_congr hfile, ← List.map_flatMap, hgroup]
  congr 1
  refine List.filter_congr fun x _ ↦ ?_
  simp only [Finset.mem_sort, mem_files h]

end Holds

/-! ## 3. Lines and records -/

theorem measurementLine_clean (m : DcaMeasurement) :
    '\n' ∉ measurementLine m ∧ measurementLine m ≠ [] :=
  ⟨newline_notMem_commaSeparated _, commaSeparated_ne_nil (List.cons_ne_nil _ _)⟩

theorem eventLine_clean (e : StoreEventArgs) : '\n' ∉ eventLine e ∧ eventLine e ≠ [] := by
  unfold eventLine
  by_cases h : e.hasMeasurement
  · rw [if_pos h]
    exact ⟨newline_notMem_commaSeparated _, commaSeparated_ne_nil (List.cons_ne_nil _ _)⟩
  · rw [if_neg h]
    exact ⟨newline_notMem_commaSeparated _, commaSeparated_ne_nil (List.cons_ne_nil _ _)⟩

theorem fits_u8 (x : UInt8) : Directive.unsigned.Fits x.toNat := by
  have h := UInt8.toNat_lt x
  exact ⟨by omega, by omega⟩

theorem fits_u16 (x : UInt16) : Directive.unsigned.Fits x.toNat := by
  have h := UInt16.toNat_lt x
  exact ⟨by omega, by omega⟩

theorem fits_u32 (x : UInt32) : Directive.unsigned.Fits x.toNat := by
  have h := UInt32.toNat_lt x
  exact ⟨by omega, by omega⟩

theorem fits_i16 (x : Int16) : Directive.signed.Fits x.toInt := by
  have hlo := Int16.le_toInt x
  have hhi := Int16.toInt_lt x
  exact ⟨by omega, by omega⟩

theorem ofInt_u8 (x : UInt8) : UInt8.ofInt x.toNat = x := by
  have h := UInt8.toNat_lt x
  have hmod : ((x.toNat : Int) % 2 ^ 8).toNat = x.toNat := by omega
  rw [UInt8.ofInt, hmod, UInt8.ofNat_toNat]

theorem ofInt_u16 (x : UInt16) : UInt16.ofInt x.toNat = x := by
  have h := UInt16.toNat_lt x
  have hmod : ((x.toNat : Int) % 2 ^ 16).toNat = x.toNat := by omega
  rw [UInt16.ofInt, hmod, UInt16.ofNat_toNat]

theorem ofInt_u32 (x : UInt32) : UInt32.ofInt x.toNat = x := by
  have h := UInt32.toNat_lt x
  have hmod : ((x.toNat : Int) % 2 ^ 32).toNat = x.toNat := by omega
  rw [UInt32.ofInt, hmod, UInt32.ofNat_toNat]

theorem fits_measurement (m : DcaMeasurement) :
    List.Forall₂ Directive.Fits [.unsigned, .signed, .unsigned, .unsigned, .unsigned, .unsigned]
      [m.timestamp.toNat, m.temperature.toInt, m.humidity.toNat, m.light.toNat,
        m.batteryVoltage.toNat, m.mode.toNat] :=
  .cons (fits_u32 _) (.cons (fits_i16 _) (.cons (fits_u8 _) (.cons (fits_u16 _)
    (.cons (fits_u16 _) (.cons (fits_u8 _) .nil)))))

theorem fits_event (e : StoreEventArgs) :
    List.Forall₂ Directive.Fits [.unsigned, .unsigned, .unsigned]
      [e.timestamp.toNat, e.eventType.toNat, e.eventSource.toNat] :=
  .cons (fits_u32 _) (.cons (fits_u8 _) (.cons (fits_u8 _) .nil))

theorem fits_eventMeasurement (e : StoreEventArgs) :
    List.Forall₂ Directive.Fits
      [.unsigned, .unsigned, .unsigned, .signed, .unsigned, .unsigned, .unsigned, .unsigned]
      [e.timestamp.toNat, e.eventType.toNat, e.eventSource.toNat, e.temperature.toInt,
        e.humidity.toNat, e.light.toNat, e.batteryVoltage.toNat, e.mode.toNat] :=
  .cons (fits_u32 _) (.cons (fits_u8 _) (.cons (fits_u8 _) (.cons (fits_i16 _)
    (.cons (fits_u8 _) (.cons (fits_u16 _) (.cons (fits_u16 _) (.cons (fits_u8 _) .nil)))))))

theorem scanMeasurement_line (m : DcaMeasurement) : scanMeasurement (measurementLine m) = some m := by
  have hscan : sscanf measurementFormat (measurementLine m) = _ :=
    @sscanf_commaSeparated _ [] _ (fits_measurement m) (List.cons_ne_nil _ _)
  rw [scanMeasurement, hscan]
  simp only [ofInt_u32, ofInt_u16, ofInt_u8, Int16.ofInt_toInt]

/-- The two line shapes are told apart by the number of values scanned. -/
theorem scanEvent_line (e : StoreEventArgs) : scanEvent (eventLine e) = some e.event := by
  unfold scanEvent eventLine StoreEventArgs.event
  by_cases h : e.hasMeasurement
  · have hscan : sscanf eventFormat (commaSeparated _) = _ :=
      @sscanf_commaSeparated _ [] _ (fits_eventMeasurement e) (List.cons_ne_nil _ _)
    rw [if_pos h, if_pos h, hscan, h]
    simp only [ofInt_u32, ofInt_u16, ofInt_u8, Int16.ofInt_toInt]
  · have hscan : sscanf eventFormat (commaSeparated _) = _ :=
      @sscanf_commaSeparated _ [.signed, .unsigned, .unsigned, .unsigned, .unsigned] _ (fits_event e)
        (List.cons_ne_nil _ _)
    rw [if_neg h, if_neg h, hscan, Bool.eq_false_iff.mpr h]
    simp only [ofInt_u32, ofInt_u8]

/-! ## 4. Runs -/

section Runs

variable {α ρ : Type} {line : α → Text} {scan : Text → Option ρ} {record : α → ρ}
  {timestamp : ρ → UInt32} {log : List (Date × α)} {present : Finset Date} {dir : Directory}

def AnswersInOrder (query : Directory → UInt32 → UInt32 → List ρ) (record : α → ρ)
    (timestamp : ρ → UInt32) (log : List (Date × α)) (dir : Directory) : Prop :=
  ∀ start stop, query dir start stop =
    (log.filter fun x ↦ fileName x.1 ∈ dir.files ∧ start ≤ timestamp (record x.2) ∧
      timestamp (record x.2) ≤ stop).map (record ·.2)

def KeepsRecentDays (line : α → Text) (log : List (Date × α)) (dir : Directory) : Prop :=
  ∀ d ∈ datesOf log, ((datesOf log).filter (d < ·)).card < dcaMaxFiles →
    fileName d ∈ dir.files ∧ dir.content (fileName d) = fileText line log d

theorem keepsRecentDays_of_holds (h : Holds line log present dir) : KeepsRecentDays line log dir := by
  intro d hd hrecent
  have hpresent := h.retained.recent hd hrecent
  exact ⟨(mem_files h d).mpr hpresent, h.content d hpresent⟩

/-- A query scans all the lines and keeps what is in range. -/
theorem dcaQuery_eq_filter (dir : Directory) (start stop : UInt32) :
    dcaQuery scan timestamp dir start stop = ((readAllLines dir).filterMap scan).filter
      fun r ↦ start ≤ timestamp r ∧ timestamp r ≤ stop := by
  rw [List.filter_filterMap, dcaQuery]
  refine List.filterMap_congr fun line _ ↦ ?_
  cases scan line with
  | none => rfl
  | some r =>
      have hrange : (start ≤ timestamp r ∧ timestamp r ≤ stop) ↔
          ¬ (timestamp r < start ∨ timestamp r > stop) := by
        rw [not_or, UInt32.not_lt, gt_iff_lt, UInt32.not_lt]
      dsimp only [Option.filter_some]
      by_cases hout : timestamp r < start ∨ timestamp r > stop
      · rw [if_pos hout, if_neg fun hin ↦ hrange.mp (of_decide_eq_true hin) hout]
      · rw [if_neg hout, if_pos (decide_eq_true (hrange.mpr hout))]

theorem answersInOrder_of_holds (hline : ∀ a, '\n' ∉ line a ∧ line a ≠ [])
    (hscan : ∀ a, scan (line a) = some (record a)) (h : Holds line log present dir)
    (hsorted : (log.map (·.1)).Pairwise (· ≤ ·)) :
    AnswersInOrder (dcaQuery scan timestamp) record timestamp log dir := by
  intro start stop
  -- the lines that are still there, as records
  have hrecords : ((log.filter fun x ↦ fileName x.1 ∈ dir.files).map (line ·.2)).filterMap scan =
      (log.filter fun x ↦ fileName x.1 ∈ dir.files).map (record ·.2) := by
    rw [List.filterMap_map, ← List.filterMap_eq_map]
    exact List.filterMap_congr fun x _ ↦ hscan x.2
  rw [dcaQuery_eq_filter, readAllLines_eq h hsorted (fun a ↦ (hline a).1) (fun a ↦ (hline a).2),
    hrecords, List.filter_map, List.filter_filter]
  refine congrArg _ (List.filter_congr fun x _ ↦ ?_)
  rw [Function.comp_apply, ← Bool.decide_and]
  exact decide_eq_decide.mpr and_comm

theorem holds_run {ω : Type} {call : Directory → DcaCall α → Directory × ω}
    (hstore : ∀ dir today a, (call dir (.store today a)).1 = appendLine dir today (line a))
    (hquery : ∀ dir start stop, (call dir (.query start stop)).1 = dir)
    {calls : List (DcaCall α)} (h : Holds line log present dir)
    (hsorted : ((log ++ stored calls).map (·.1)).Pairwise (· ≤ ·)) :
    ∃ present', Holds line (log ++ stored calls) present' (runState call dir calls) := by
  -- induction on the calls, with the log they extend
  induction calls generalizing log present dir with
  | nil => exact ⟨present, by rw [stored, List.filterMap_nil, List.append_nil]; exact h⟩
  | cons c calls ih =>
      cases c with
      | store today a =>
          have hcons : log ++ stored (.store today a :: calls) =
              (log ++ [(today, a)]) ++ stored calls := by
            rw [List.append_assoc]
            rfl
          rw [hcons] at hsorted ⊢
          have htoday : ∀ d ∈ datesOf log, d ≤ today := by
            intro d hd
            rw [datesOf, List.mem_toFinset] at hd
            rw [List.append_assoc, List.map_append, List.pairwise_append] at hsorted
            exact hsorted.2.2 d hd today List.mem_cons_self
          rw [runState_cons, hstore]
          exact ih (holds_append h htoday) hsorted
      | query start stop =>
          rw [runState_cons, hquery]
          exact ih h hsorted

/-- At every point of a run from an empty directory, queries answer with the records stored so far
    that are still present, and the recent days are. -/
theorem store_query_run {ω : Type} {call : Directory → DcaCall α → Directory × ω}
    (hstore : ∀ dir today a, (call dir (.store today a)).1 = appendLine dir today (line a))
    (hkeep : ∀ dir start stop, (call dir (.query start stop)).1 = dir)
    (hline : ∀ a, '\n' ∉ line a ∧ line a ≠ []) (hscan : ∀ a, scan (line a) = some (record a))
    {calls before : List (DcaCall α)} (hempty : dir.files = ∅)
    (hsorted : ((stored calls).map (·.1)).Pairwise (· ≤ ·)) (hbefore : before <+: calls) :
    AnswersInOrder (dcaQuery scan timestamp) record timestamp (stored before)
        (runState call dir before) ∧
      KeepsRecentDays line (stored before) (runState call dir before) := by
  obtain ⟨after, rfl⟩ := hbefore
  have hsorted' : ((stored before).map (·.1)).Pairwise (· ≤ ·) := by
    rw [stored, List.filterMap_append, List.map_append, List.pairwise_append] at hsorted
    exact hsorted.1
  obtain ⟨present, h⟩ := holds_run hstore hkeep (@holds_empty _ line dir hempty)
    (by rw [List.nil_append]; exact hsorted')
  rw [List.nil_append] at h
  exact ⟨answersInOrder_of_holds hline hscan h hsorted', keepsRecentDays_of_holds h⟩

end Runs

theorem dca_store_query :
    (∀ (dir : Directory) (calls before : List (DcaCall DcaMeasurement)), dir.files = ∅ →
        ((stored calls).map (·.1)).Pairwise (· ≤ ·) → before <+: calls →
        AnswersInOrder dcaQueryMeasurements (fun m ↦ m) (·.timestamp) (stored before)
            (runState measurementCall dir before) ∧
          KeepsRecentDays measurementLine (stored before) (runState measurementCall dir before)) ∧
      ∀ (dir : Directory) (calls before : List (DcaCall StoreEventArgs)), dir.files = ∅ →
        ((stored calls).map (·.1)).Pairwise (· ≤ ·) → before <+: calls →
        AnswersInOrder dcaQueryEvents StoreEventArgs.event (·.timestamp) (stored before)
            (runState eventCall dir before) ∧
          KeepsRecentDays eventLine (stored before) (runState eventCall dir before) := by
  constructor
  · intro dir calls before hempty hsorted hbefore
    have hkeep : ∀ dir start stop, (measurementCall dir (.query start stop)).1 = dir :=
      fun _ _ _ ↦ rfl
    exact store_query_run (fun _ _ _ ↦ rfl) hkeep measurementLine_clean
      scanMeasurement_line hempty hsorted hbefore
  · intro dir calls before hempty hsorted hbefore
    have hkeep : ∀ dir start stop, (eventCall dir (.query start stop)).1 = dir := fun _ _ _ ↦ rfl
    exact store_query_run (fun _ _ _ ↦ rfl) hkeep eventLine_clean
      scanEvent_line hempty hsorted hbefore

def twoDays : List (DcaCall DcaMeasurement) :=
  [.store ⟨2024, 2, 29, by decide, by decide, by decide⟩
      { timestamp := 4294967295, temperature := -32768, humidity := 255, light := 65535,
        batteryVoltage := 3300, mode := 2 },
    .query 0 100,
    .store ⟨2024, 3, 1, by decide, by decide, by decide⟩ { timestamp := 7 }]

theorem dca_store_query_twoDays :
    AnswersInOrder dcaQueryMeasurements (fun m ↦ m) (·.timestamp) (stored twoDays)
      (runState measurementCall { files := ∅, content := fun _ ↦ [] } twoDays) ∧
    KeepsRecentDays measurementLine (stored twoDays)
      (runState measurementCall { files := ∅, content := fun _ ↦ [] } twoDays) := by
  have hsorted : ((stored twoDays).map (·.1)).Pairwise (· ≤ ·) :=
    .cons (fun d hd ↦ by
      rw [List.mem_singleton.mp hd]
      exact (by decide : (20240229 : Nat) ≤ 20240301)) (List.pairwise_singleton _ _)
  exact dca_store_query.1 _ twoDays twoDays rfl hsorted List.prefix_rfl

end SubmarineMonitor
