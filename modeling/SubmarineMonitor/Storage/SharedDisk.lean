import SubmarineMonitor.Fleet.SubmarineDirectories
import SubmarineMonitor.Storage.ReceiptDates
import Mathlib.Data.List.TakeWhile
import Mathlib.Order.Interval.Finset.Nat

/-!
# SharedDisk — the records of many submarines on one disk, by the clock

Records of any submarines are stored in any order while the clock runs.  Each submarine's queries answer
from its own records alone, in the order they were received, and what a query has forgotten is an oldest
part of them: each forgotten record is a week or more older than one the submarine sent later
(`shared_disk_remembers`).
-/

open Reasoning

namespace SubmarineMonitor

/-! ## 1. Definitions -/

structure ReceivedStore where
  submarineId : Text
  received : Fin endOfDates
  record : DcaStore

def ReceivedStore.call (x : ReceivedStore) : StoreCall :=
  { submarineId := x.submarineId, today := gmtime x.received, record := x.record }

def DcaStore.asMeasurement : DcaStore → Option DcaMeasurement
  | .measurement m => some m
  | .event _ => none

def DcaStore.asEvent : DcaStore → Option StoreEventArgs
  | .measurement _ => none
  | .event e => some e

def ReceivedStore.filedAs {α : Type} (kind : DcaStore → Option α) (id : Text) (x : ReceivedStore) :
    Option (Fin endOfDates × α) :=
  if x.submarineId = id then (kind x.record).map fun a ↦ (x.received, a) else none

def ReceivedStore.measurementOf : Text → ReceivedStore → Option (Fin endOfDates × DcaMeasurement) :=
  filedAs DcaStore.asMeasurement

def ReceivedStore.eventOf : Text → ReceivedStore → Option (Fin endOfDates × StoreEventArgs) :=
  filedAs DcaStore.asEvent

/-- The directories of these submarines hold no files, nothing lies on the way to them, and the names of
    their log files are free. -/
structure StartsEmpty (dataDir : Text) (ids : Set Text) (disk : Disk) : Prop where
  whole : nul ∉ dataDir
  direct : ∀ q ∈ wayOf dataDir, ¬ q.Below (resolve dataDir)
  opened : ∀ a ∈ ids, ∀ category, ∀ q ∈ wayOf (submarineDir dataDir a category), ¬ disk.isFile q
  empty : ∀ a ∈ ids, ∀ category, (disk.content (resolve (submarineDir dataDir a category))).files = ∅
  free : ∀ a ∈ ids, ∀ category today, ¬ disk.isFolder (logFile dataDir a category today)

/-- Queries answer in the order of receipt, and have forgotten at most a front of the records, of which
    each was received a week or more before another one. -/
def RemembersWeek {α ρ : Type} (query : UInt32 → UInt32 → List ρ) (record : α → ρ)
    (timestamp : ρ → UInt32) (own : List (Fin endOfDates × α)) : Prop :=
  ∃ forgotten kept, own = forgotten ++ kept ∧
    (∀ x ∈ forgotten, ∃ y ∈ own, receiptDay x.1 + 7 ≤ receiptDay y.1) ∧
    ∀ start stop, query start stop =
      (kept.map (record ·.2)).filter fun r ↦ start ≤ timestamp r ∧ timestamp r ≤ stop

/-! ## 2. A week of files -/

section Week

variable {α ρ : Type} {line : α → Text} {scan : Text → Option ρ} {record : α → ρ}
  {timestamp : ρ → UInt32} {own : List (Fin endOfDates × α)} {present : Finset Date} {dir : Directory}

def dated (own : List (Fin endOfDates × α)) : List (Date × α) :=
  own.map fun x ↦ (gmtime x.1, x.2)

theorem mem_datesOf_dated {d : Date} : d ∈ datesOf (dated own) ↔ ∃ x ∈ own, gmtime x.1 = d := by
  rw [datesOf, List.mem_toFinset, dated, List.map_map, List.mem_map]
  rfl

theorem dated_sorted (h : (own.map (·.1)).Pairwise (· ≤ ·)) :
    ((dated own).map (·.1)).Pairwise (· ≤ ·) := by
  rw [dated, List.map_map, List.pairwise_map]
  exact (List.pairwise_map.mp h).imp fun hle ↦ gmtime_mono hle

/-- Within a week there are at most seven dates. -/
theorem recent_dates {s : Fin endOfDates} (h : ∀ y ∈ own, receiptDay y.1 < receiptDay s + 7) :
    ((datesOf (dated own)).filter (gmtime s < ·)).card < dcaMaxFiles := by
  -- the date depends on the day alone
  have hday : gmtime.FactorsThrough receiptDay := fun _ _ ↦ gmtime_of_day
  let dateOf : Nat → Date := Function.extend receiptDay gmtime fun _ ↦ gmtime s
  have hsub : (datesOf (dated own)).filter (gmtime s < ·) ⊆
      (Finset.Ioo (receiptDay s) (receiptDay s + 7)).image dateOf := by
    intro d hd
    obtain ⟨hmem, hlater⟩ := Finset.mem_filter.mp hd
    obtain ⟨y, hy, rfl⟩ := mem_datesOf_dated.mp hmem
    exact Finset.mem_image.mpr ⟨receiptDay y.1,
      Finset.mem_Ioo.mpr ⟨gmtime_lt_iff.mp hlater, h y hy⟩, hday.extend_apply _ y.1⟩
  calc ((datesOf (dated own)).filter (gmtime s < ·)).card
      ≤ ((Finset.Ioo (receiptDay s) (receiptDay s + 7)).image dateOf).card := Finset.card_le_card hsub
    _ ≤ (Finset.Ioo (receiptDay s) (receiptDay s + 7)).card := Finset.card_image_le
    _ = 6 := by rw [Nat.card_Ioo]; omega
    _ < dcaMaxFiles := by decide

/-- A record whose file is gone is a week older than some other one. -/
theorem forgotten_week (h : Holds line (dated own) present dir) {x : Fin endOfDates × α}
    (hx : x ∈ own) (hgone : gmtime x.1 ∉ present) :
    ∃ y ∈ own, receiptDay x.1 + 7 ≤ receiptDay y.1 := by
  by_contra hnone
  refine hgone (h.retained.recent (mem_datesOf_dated.mpr ⟨x, hx, rfl⟩) (recent_dates fun y hy ↦ ?_))
  by_contra hfar
  exact hnone ⟨y, hy, Nat.le_of_not_lt hfar⟩

/-- Files go in the order of their dates, so what is kept is a tail. -/
theorem kept_tail (h : Holds line (dated own) present dir)
    (hsorted : (own.map (·.1)).Pairwise (· ≤ ·)) :
    own.filter (fun x ↦ gmtime x.1 ∈ present) =
      own.dropWhile fun x ↦ !decide (gmtime x.1 ∈ present) := by
  apply filter_eq_dropWhile
  refine (List.Pairwise.and_mem.mp (List.pairwise_map.mp hsorted)).imp ?_
  rintro x y ⟨-, hy, hle⟩ hx
  rw [decide_eq_true_eq] at hx ⊢
  by_contra hgone
  have hlater := (h.retained.dropped _ (mem_datesOf_dated.mpr ⟨y, hy, rfl⟩) hgone).2 _ hx
  exact absurd (gmtime_mono hle) (not_le_of_gt hlater)

theorem remembersWeek_of_holds (hline : ∀ a, '\n' ∉ line a ∧ line a ≠ [])
    (hscan : ∀ a, scan (line a) = some (record a)) (h : Holds line (dated own) present dir)
    (hsorted : (own.map (·.1)).Pairwise (· ≤ ·)) :
    RemembersWeek (dcaQuery scan timestamp dir) record timestamp own := by
  refine ⟨own.takeWhile fun x ↦ !decide (gmtime x.1 ∈ present),
    own.dropWhile fun x ↦ !decide (gmtime x.1 ∈ present), (List.takeWhile_append_dropWhile).symm,
    fun x hx ↦ ?_, fun start stop ↦ ?_⟩
  · have hgone := List.mem_takeWhile_imp hx
    rw [Bool.not_eq_true', decide_eq_false_iff_not] at hgone
    exact forgotten_week h ((List.takeWhile_prefix _).subset hx) hgone
  · rw [answersInOrder_of_holds hline hscan h (dated_sorted hsorted) start stop,
      ← kept_tail h hsorted, dated, List.filter_map, List.map_map, List.filter_map, List.filter_filter]
    congr 1
    apply List.filter_congr
    intro x _
    simp only [Function.comp_apply, mem_files h, Bool.decide_and]
    exact Bool.and_comm _ _

end Week

theorem holds_stores {α : Type} {line : α → Text} {log : List (Date × α)} {dir : Directory}
    (hempty : dir.files = ∅) (hsorted : (log.map (·.1)).Pairwise (· ≤ ·)) :
    ∃ present, Holds line log present (log.foldl (fun dir x ↦ appendLine dir x.1 (line x.2)) dir) := by
  induction log using List.reverseRecOn with
  | nil => exact ⟨∅, holds_empty hempty⟩
  | append_singleton log x ih =>
      rw [List.map_append, List.pairwise_append] at hsorted
      obtain ⟨present, h⟩ := ih hsorted.1
      rw [List.foldl_append]
      refine ⟨_, holds_append h fun d hd ↦ ?_⟩
      obtain ⟨y, hy, rfl⟩ := List.mem_map.mp (List.mem_toFinset.mp hd)
      exact hsorted.2.2 y.1 (List.mem_map_of_mem hy) x.1 List.mem_cons_self

/-! ## 3. Submarines whose IDs are names -/

section Names

variable {dataDir a b : Text} {ids : Set Text} {disk : Disk}

theorem resolve_plain (ha : PlainName a) (category : Category) :
    resolve (submarineDir dataDir a category) =
      ⟨(resolve dataDir).start, (resolve dataDir).names ++ [a] ++ [category.name]⟩ := by
  rw [resolve_submarineDir, resolve_plainName ha]
  show Place.mk (Place.climb _ 0).start ((Place.climb _ 0).names ++ [a] ++ _) = _
  rw [Place.climb_zero]

/-- The way to a submarine passes through no log file, unless that of the data directory does. -/
theorem logFile_notMem_way (hdirect : ∀ q ∈ wayOf dataDir, ¬ q.Below (resolve dataDir))
    (ha : PlainName a) (hb : PlainName b) (category category' : Category) (today : Date) :
    logFile dataDir b category today ∉ wayOf (submarineDir dataDir a category') := by
  obtain ⟨front, hfront, hway⟩ := wayOf_joinPath dataDir
  have hfile : logFile dataDir b category today = ⟨(resolve dataDir).start,
      (resolve dataDir).names ++ [b] ++ [category.name] ++ [fileName today]⟩ := by
    rw [logFile_eq, resolve_plain hb]
  rw [logFile_mem_way, hway a ha, List.mem_append, hfront _ (by rw [hfile]; simp), List.mem_singleton,
    hfile, ha.enter]
  rintro (hmem | hsame)
  · refine hdirect _ hmem ⟨⟨rfl, ?_⟩, fun hnames ↦ ?_⟩
    · rw [List.append_assoc, List.append_assoc]
      exact List.prefix_append _ _
    · have hlen := congrArg List.length hnames
      simp at hlen
  · have hlen := congrArg List.length (Place.mk.inj hsame).2
    simp at hlen

theorem plainNames_readApart (hids : ∀ a ∈ ids, PlainName a) (hwhole : nul ∉ dataDir)
    (hdirect : ∀ q ∈ wayOf dataDir, ¬ q.Below (resolve dataDir)) : ReadApart dataDir ids where
  unbroken a ha hnul := hwhole ((nul_mem_joinPath (hids a ha).no_nul).mp hnul).2
  returns a ha := by
    rw [resolve_plainName (hids a ha)]
    refine ⟨.inr (Nat.zero_le _), ?_⟩
    rw [Nat.sub_zero, List.drop_length]
    exact List.nil_prefix
  differ a ha b hb heq := by
    dsimp only at heq
    rw [resolve_plainName (hids a ha), resolve_plainName (hids b hb)] at heq
    have hnames : [a].drop (min 0 (resolve dataDir).names.length) =
        [b].drop (min 0 (resolve dataDir).names.length) := heq
    rw [Nat.zero_min, List.drop_zero, List.drop_zero] at hnames
    exact List.singleton_inj.mp hnames
  clear a ha b hb _ category _ hmem :=
    absurd (logFile_mem_way.mpr hmem) (logFile_notMem_way hdirect (hids a ha) (hids b hb) category category _)

structure KeptApart (dataDir : Text) (ids : Set Text) (disk : Disk) : Prop where
  sound : Sound dataDir ids disk
  free : ∀ a ∈ ids, ∀ category today, ¬ disk.isFolder (logFile dataDir a category today)

theorem StartsEmpty.keptApart (h : StartsEmpty dataDir ids disk) : KeptApart dataDir ids disk where
  sound := { opened := h.opened, reached := fun a ha category hne ↦ absurd (h.empty a ha category) hne }
  free := h.free

/-- A store appends to its own directory and leaves the others alone. -/
theorem KeptApart.store (hids : ∀ a ∈ ids, PlainName a) (hwhole : nul ∉ dataDir)
    (hdirect : ∀ q ∈ wayOf dataDir, ¬ q.Below (resolve dataDir)) (h : KeptApart dataDir ids disk)
    {x : StoreCall} (hx : x.submarineId ∈ ids) :
    KeptApart dataDir ids (dcaStore dataDir disk x).1 ∧ ∀ a ∈ ids, ∀ category,
      (dcaStore dataDir disk x).1.content (resolve (submarineDir dataDir a category)) =
        if x.submarineId = a ∧ x.record.category = category then
          appendLine (disk.content (resolve (submarineDir dataDir a category))) x.today x.record.line
        else disk.content (resolve (submarineDir dataDir a category)) := by
  have hapart := plainNames_readApart hids hwhole hdirect
  have happended := dcaStore_opened (hapart.unbroken _ hx) (h.sound.opened _ hx x.record.category)
  refine ⟨⟨h.sound.appended hapart hx happended, fun a ha category today hfolder ↦ ?_⟩,
    fun a ha category ↦ ?_⟩
  · rcases (happended.folders _).mp hfolder with hold | hway
    · exact h.free a ha category today hold
    · exact logFile_notMem_way hdirect (hids _ hx) (hids a ha) _ _ _ hway
  · split_ifs with hown
    · obtain ⟨rfl, rfl⟩ := hown
      refine happended.here.trans (if_neg (not_or.mpr ⟨h.free _ hx _ _, ?_⟩))
      exact logFile_notMem_way hdirect (hids _ hx) (hids _ hx) _ _ _
    · refine happended.elsewhere _ fun hdir ↦ hown ?_
      by_cases hsame : x.submarineId = a
      · exact ⟨hsame, (resolve_submarineDir_inj.mp hdir).2.symm⟩
      · exact absurd hdir (hapart.apart ha hx (Ne.symm hsame) _ _)

end Names

/-! ## 4. The whole disk -/

section Disk

variable {dataDir id : Text} {ids : Set Text} {log : List ReceivedStore} {disk : Disk} {α : Type}
  {kind : DcaStore → Option α} {category : Category} {line : α → Text}

structure FiledUnder (kind : DcaStore → Option α) (category : Category) (line : α → Text) : Prop where
  category : ∀ r, r.category = category ↔ (kind r).isSome
  line : ∀ r a, kind r = some a → r.line = line a

theorem measurements_filed : FiledUnder DcaStore.asMeasurement .measurements measurementLine where
  category r := by cases r <;> simp [DcaStore.category, DcaStore.asMeasurement]
  line r a h := by
    cases r <;> cases h
    rfl

theorem events_filed : FiledUnder DcaStore.asEvent .events eventLine where
  category r := by cases r <;> simp [DcaStore.category, DcaStore.asEvent]
  line r a h := by
    cases r <;> cases h
    rfl

theorem ReceivedStore.of_filedAs {x : ReceivedStore} {y : Fin endOfDates × α}
    (h : x.filedAs kind id = some y) :
    x.submarineId = id ∧ x.received = y.1 ∧ kind x.record = some y.2 := by
  obtain ⟨hsame, h⟩ := Option.ite_none_right_eq_some.mp h
  obtain ⟨a, ha, rfl⟩ := Option.map_eq_some_iff.mp h
  exact ⟨hsame, rfl, ha⟩

theorem FiledUnder.append_eq (h : FiledUnder kind category line) (x : ReceivedStore) (dir : Directory) :
    (if x.call.submarineId = id ∧ x.call.record.category = category then
      appendLine dir x.call.today x.call.record.line else dir) =
      (x.filedAs kind id).elim dir fun y ↦ appendLine dir (gmtime y.1) (line y.2) := by
  have hcategory : x.call.record.category = category ↔ (kind x.record).isSome := h.category x.record
  rw [ReceivedStore.filedAs, if_congr (and_congr_right' hcategory) rfl rfl]
  by_cases hsame : x.submarineId = id
  · cases hrecord : kind x.record with
    | none =>
        rw [if_neg fun hboth ↦ Bool.noConfusion hboth.2, if_pos hsame]
        rfl
    | some a =>
        have hline : x.call.record.line = line a := h.line _ _ hrecord
        rw [if_pos ⟨hsame, rfl⟩, if_pos hsame, hline]
        rfl
  · rw [if_neg fun hboth ↦ hsame hboth.1, if_neg hsame]
    rfl

/-- What a disk does to one directory is what the records that are filed there do to it. -/
theorem directory_stores (hids : ∀ a ∈ ids, PlainName a) (hwhole : nul ∉ dataDir)
    (hdirect : ∀ q ∈ wayOf dataDir, ¬ q.Below (resolve dataDir)) (h : FiledUnder kind category line)
    (hid : id ∈ ids) (hlog : ∀ x ∈ log, x.submarineId ∈ ids) (hdisk : KeptApart dataDir ids disk) :
    KeptApart dataDir ids (runState (dcaStore dataDir) disk (log.map ReceivedStore.call)) ∧
      (runState (dcaStore dataDir) disk (log.map ReceivedStore.call)).content
          (resolve (submarineDir dataDir id category)) =
        (dated (log.filterMap (·.filedAs kind id))).foldl (fun dir x ↦ appendLine dir x.1 (line x.2))
          (disk.content (resolve (submarineDir dataDir id category))) := by
  induction log generalizing disk with
  | nil => exact ⟨hdisk, rfl⟩
  | cons x log ih =>
      rw [List.forall_mem_cons] at hlog
      obtain ⟨hnext, hcontent⟩ := hdisk.store hids hwhole hdirect (x := x.call) hlog.1
      obtain ⟨hkept, hrest⟩ := ih hlog.2 hnext
      rw [List.map_cons, runState_cons]
      refine ⟨hkept, hrest.trans ?_⟩
      rw [hcontent id hid category, h.append_eq]
      cases hf : x.filedAs kind id with
      | none =>
          rw [List.filterMap_cons_none hf]
          rfl
      | some y =>
          rw [List.filterMap_cons_some hf]
          rfl

/-- The records of one submarine come in the order of the clock. -/
theorem filed_sorted (hclock : (log.map (·.received)).Pairwise (· ≤ ·)) :
    ((log.filterMap (·.filedAs kind id)).map (·.1)).Pairwise (· ≤ ·) := by
  rw [List.pairwise_map, List.pairwise_filterMap]
  refine (List.pairwise_map.mp hclock).imp ?_
  intro x x' hle y hy y' hy'
  rw [← (ReceivedStore.of_filedAs hy).2.1, ← (ReceivedStore.of_filedAs hy').2.1]
  exact hle

theorem remembersWeek_stores {ρ : Type} {scan : Text → Option ρ} {record : α → ρ}
    {timestamp : ρ → UInt32} (hids : ∀ a ∈ ids, PlainName a) (hid : id ∈ ids)
    (hdisk : StartsEmpty dataDir ids disk) (hlog : ∀ x ∈ log, x.submarineId ∈ ids)
    (hclock : (log.map (·.received)).Pairwise (· ≤ ·)) (h : FiledUnder kind category line)
    (hline : ∀ a, '\n' ∉ line a ∧ line a ≠ []) (hscan : ∀ a, scan (line a) = some (record a)) :
    RemembersWeek
      (dcaQuery scan timestamp (directoryAt
        (runState (dcaStore dataDir) disk (log.map ReceivedStore.call)) (submarineDir dataDir id category)))
      record timestamp (log.filterMap (·.filedAs kind id)) := by
  have hsorted := @filed_sorted id log α kind hclock
  have hapart := plainNames_readApart hids hdisk.whole hdisk.direct
  obtain ⟨hkept, hcontent⟩ := directory_stores hids hdisk.whole hdisk.direct h hid hlog hdisk.keptApart
  rw [dcaQuery_directoryAt scan timestamp (hapart.unbroken id hid) (hkept.sound.reached id hid category),
    hcontent]
  obtain ⟨present, hholds⟩ := @holds_stores α line _ _ (hdisk.empty id hid category) (dated_sorted hsorted)
  exact remembersWeek_of_holds hline hscan hholds hsorted

theorem measurements_remembered (hids : ∀ a ∈ ids, PlainName a) (hid : id ∈ ids)
    (hdisk : StartsEmpty dataDir ids disk) (hlog : ∀ x ∈ log, x.submarineId ∈ ids)
    (hclock : (log.map (·.received)).Pairwise (· ≤ ·)) :
    RemembersWeek
      (dcaQueryMeasurementsOf dataDir (runState (dcaStore dataDir) disk (log.map ReceivedStore.call)) id)
      (fun m ↦ m) (·.timestamp) (log.filterMap (·.measurementOf id)) :=
  remembersWeek_stores hids hid hdisk hlog hclock measurements_filed measurementLine_clean
    scanMeasurement_line

theorem events_remembered (hids : ∀ a ∈ ids, PlainName a) (hid : id ∈ ids)
    (hdisk : StartsEmpty dataDir ids disk) (hlog : ∀ x ∈ log, x.submarineId ∈ ids)
    (hclock : (log.map (·.received)).Pairwise (· ≤ ·)) :
    RemembersWeek
      (dcaQueryEventsOf dataDir (runState (dcaStore dataDir) disk (log.map ReceivedStore.call)) id)
      StoreEventArgs.event (·.timestamp) (log.filterMap (·.eventOf id)) :=
  remembersWeek_stores hids hid hdisk hlog hclock events_filed eventLine_clean scanEvent_line

end Disk

/-- At every point of a run from empty directories: the log is what has been stored so far. -/
theorem shared_disk_remembers (dataDir : Text) (ids : Set Text) (disk : Disk)
    (log : List ReceivedStore) (hids : ∀ a ∈ ids, PlainName a)
    (hdisk : StartsEmpty dataDir ids disk) (hlog : ∀ x ∈ log, x.submarineId ∈ ids)
    (hclock : (log.map (·.received)).Pairwise (· ≤ ·)) :
    let disk' := runState (dcaStore dataDir) disk (log.map ReceivedStore.call)
    ∀ a ∈ ids,
      RemembersWeek (dcaQueryMeasurementsOf dataDir disk' a) (fun m ↦ m) (·.timestamp)
          (log.filterMap (·.measurementOf a)) ∧
        RemembersWeek (dcaQueryEventsOf dataDir disk' a) StoreEventArgs.event (·.timestamp)
          (log.filterMap (·.eventOf a)) := fun _ ha ↦
  ⟨measurements_remembered hids ha hdisk hlog hclock, events_remembered hids ha hdisk hlog hclock⟩

/-- A disk on which nothing has been stored, with a data directory of one name. -/
theorem startsEmpty_emptyDisk {dataDir : Text} (h : PlainName dataDir) (ids : Set Text) :
    StartsEmpty dataDir ids emptyDisk where
  whole := h.no_nul
  direct q hq hbelow := by
    rw [wayOf, h.splitOn] at hq
    rw [List.mem_singleton.mp hq] at hbelow
    refine hbelow.2 ?_
    rw [resolve_eq_walk, Place.walk, h.splitOn]
    rfl
  opened := (sound_of_noFiles fun _ ↦ rfl).opened
  empty _ _ _ := rfl
  free _ _ _ _ hfolder := by
    rw [logFile_eq] at hfolder
    simp [Folders.isFolder, emptyDisk] at hfolder

def leapDay : Fin endOfDates := ⟨1709164800, by decide⟩

/-- Two submarines, and a record of the first one more than a week behind its other one. -/
def twoSubmarines : List ReceivedStore :=
  [⟨['A'], leapDay, .measurement { timestamp := 5 }⟩,
    ⟨['B'], leapDay, .event ⟨6, 1, 2, false, 0, 0, 0, 0, 0⟩⟩,
    ⟨['A'], ⟨1709900000, by decide⟩, .measurement { timestamp := 7 }⟩]

theorem shared_disk_remembers_two :
    let disk' := runState (dcaStore ['d']) emptyDisk
      (twoSubmarines.map ReceivedStore.call)
    ∀ a ∈ ({['A'], ['B']} : Set Text),
      RemembersWeek (dcaQueryMeasurementsOf ['d'] disk' a) (fun m ↦ m) (·.timestamp)
          (twoSubmarines.filterMap (·.measurementOf a)) ∧
        RemembersWeek (dcaQueryEventsOf ['d'] disk' a) StoreEventArgs.event (·.timestamp)
          (twoSubmarines.filterMap (·.eventOf a)) := by
  apply shared_disk_remembers ['d'] {['A'], ['B']} emptyDisk twoSubmarines
  · rintro a (rfl | rfl)
    · exact ⟨by decide, by decide, by decide, by decide, by decide⟩
    · exact ⟨by decide, by decide, by decide, by decide, by decide⟩
  · exact startsEmpty_emptyDisk ⟨by decide, by decide, by decide, by decide, by decide⟩ _
  · intro x hx
    have hmem : ∀ x ∈ twoSubmarines, x.submarineId = ['A'] ∨ x.submarineId = ['B'] := by decide
    exact hmem x hx
  · decide

end SubmarineMonitor
