import SubmarineMonitor.CentralComputer.Log
import SubmarineMonitor.Reasoning.Folders
import SubmarineMonitor.Storage.StoreQuery

/-!
# DataDirectory — the record files of all submarines on one disk

The directory of a submarine is the path `g_dataDir/submarineId/category`, and nothing looks at the
characters of a submarine ID.  The system takes a path up to its first NUL and walks it through folders;
where a file is in the way nothing is made or opened, a name that is a folder's is not opened as a file,
and `AppendLine` looks at none of these results.  A path without NUL on which no file lies leads to a
directory of its own (`appendLineAt_opened`).
-/

open Reasoning

namespace SubmarineMonitor

/-! ## 1. Definitions -/

inductive Category
  | measurements
  | events
  deriving DecidableEq, Repr

def Category.name : Category → Text
  | .measurements => ['m', 'e', 'a', 's', 'u', 'r', 'e', 'm', 'e', 'n', 't', 's']
  | .events => ['e', 'v', 'e', 'n', 't', 's']

/-- `fs::path(g_dataDir) / submarineId / category`. -/
def submarineDir (dataDir submarineId : Text) (category : Category) : Text :=
  joinPath (joinPath dataDir submarineId) category.name

def emptyDirectory : Directory where
  files := ∅
  content _ := []

instance : Contents Directory where
  empty := emptyDirectory
  holds dir file := decide (file ∈ dir.files)

abbrev Disk := Folders Directory

def emptyDisk : Disk := fun _ ↦ none

def Directory.append (dir : Directory) (file text : Text) : Directory where
  files := insert file dir.files
  content := Function.update dir.content file ((if file ∈ dir.files then dir.content file else []) ++ text)

/-- `RotateIfNeeded`. -/
def rotateAt (disk : Disk) (dir : Text) : Disk :=
  let disk := disk.makeFolders (wayOf (osPath dir))
  match disk.find (osPath dir) with
  | none => disk
  | some p =>
      -- behind a NUL the oldest file has the path of the folder itself, which is not empty
      if nul ∈ dir then disk else disk.put p (rotateIfNeeded (disk.content p))

/-- `std::ofstream(path, std::ios::app) << text`. -/
def appendAt (disk : Disk) (path text : Text) : Disk :=
  match disk.locate (osPath path) with
  | none => disk
  | some (p, file) =>
      if disk.isFolder (p.enter file) then disk else disk.put p ((disk.content p).append file text)

/-- `AppendLine`. -/
def appendLineAt (dataDir : Text) (disk : Disk) (submarineId : Text) (category : Category) (today : Date)
    (line : Text) : Disk :=
  let dir := submarineDir dataDir submarineId category
  appendAt (rotateAt disk dir) (joinPath dir (fileName today)) (line ++ ['\n'])

/-- What `ReadAllLines` finds. -/
def directoryAt (disk : Disk) (dir : Text) : Directory :=
  match disk.find (osPath dir) with
  | none => emptyDirectory
  | some p =>
      -- behind a NUL every file in it is opened as the folder itself, of which nothing can be read
      if nul ∈ dir then emptyDirectory else disk.content p

/-- A call of `DCA_StoreMeasurement` or `DCA_StoreEvent`, with its receipt date. -/
structure StoreCall where
  submarineId : Text
  today : Date
  record : DcaStore

def DcaStore.category : DcaStore → Category
  | .measurement _ => .measurements
  | .event _ => .events

def DcaStore.line : DcaStore → Text
  | .measurement m => measurementLine m
  | .event e => eventLine e

def dcaStore (dataDir : Text) (disk : Disk) (x : StoreCall) : Disk × Unit :=
  (appendLineAt dataDir disk x.submarineId x.record.category x.today x.record.line, ())

def dcaQueryMeasurementsOf (dataDir : Text) (disk : Disk) (submarineId : Text) :
    UInt32 → UInt32 → List DcaMeasurement :=
  dcaQueryMeasurements (directoryAt disk (submarineDir dataDir submarineId .measurements))

def dcaQueryEventsOf (dataDir : Text) (disk : Disk) (submarineId : Text) :
    UInt32 → UInt32 → List DcaEvent :=
  dcaQueryEvents (directoryAt disk (submarineDir dataDir submarineId .events))

def logFile (dataDir submarineId : Text) (category : Category) (today : Date) : Place :=
  (resolve (submarineDir dataDir submarineId category)).enter (fileName today)

def NoFiles (disk : Disk) : Prop := ∀ p, (disk.content p).files = ∅

/-! ## 2. Names -/

theorem category_plainName (category : Category) : PlainName category.name := by
  cases category with
  | measurements => exact ⟨by decide, by decide, by decide, by decide, by decide⟩
  | events => exact ⟨by decide, by decide, by decide, by decide, by decide⟩

theorem category_name_injective : Function.Injective Category.name := by
  intro c c' h
  cases c <;> cases c' <;> first | rfl | exact absurd h (by decide)

theorem mem_padded {w n : Nat} {c : Char} (h : c ∈ padded w n) : c.isDigit = true := by
  induction w with
  | zero => exact absurd h List.not_mem_nil
  | succ w ih =>
      rw [padded, List.mem_cons] at h
      rcases h with rfl | h
      · have hdigit : ∀ k < 10, (Nat.digitChar k).isDigit = true := by decide
        exact hdigit _ (Nat.mod_lt _ (by decide))
      · exact ih h

theorem mem_fileName {d : Date} {c : Char} (h : c ∈ fileName d) :
    c.isDigit = true ∨ c ∈ ['-', '.', 'l', 'o', 'g'] := by
  rw [fileName, todayDateString] at h
  simp only [List.mem_append, List.mem_cons, List.not_mem_nil, or_false] at h ⊢
  rcases h with (h | h | h | h | h) | h
  · exact .inl (mem_padded h)
  · exact .inr (.inl h)
  · exact .inl (mem_padded h)
  · exact .inr (.inl h)
  · exact .inl (mem_padded h)
  · exact .inr (.inr h)

theorem fileName_getLast (d : Date) : (fileName d).getLast? = some 'g' :=
  List.getLast?_append_of_ne_nil (todayDateString d) (by decide)

theorem fileName_plainName (d : Date) : PlainName (fileName d) where
  ne_nil h := by
    have hlast := fileName_getLast d
    rw [h] at hlast
    cases hlast
  ne_dot h := by
    have hlast := fileName_getLast d
    rw [h] at hlast
    exact absurd hlast (by decide)
  ne_up h := by
    have hlast := fileName_getLast d
    rw [h] at hlast
    exact absurd hlast (by decide)
  no_separator h := absurd (mem_fileName h) (by decide)
  no_nul h := absurd (mem_fileName h) (by decide)

theorem fileName_ne_category (d : Date) (category : Category) : fileName d ≠ category.name := by
  intro h
  have hlast := fileName_getLast d
  rw [h] at hlast
  cases category <;> exact absurd hlast (by decide)

/-! ## 3. Places -/

section Places

variable {dataDir id a b : Text} {category category' : Category} {today : Date}

theorem resolve_submarineDir (dataDir id : Text) (category : Category) :
    resolve (submarineDir dataDir id category) =
      ⟨((resolve dataDir).follow (resolve id)).start,
        ((resolve dataDir).follow (resolve id)).names ++ [category.name]⟩ := by
  rw [submarineDir, resolve_joinPath, resolve_joinPath,
    resolve_plainName (category_plainName category)]
  show Place.mk (Place.climb _ 0).start ((Place.climb _ 0).names ++ [category.name]) = _
  rw [Place.climb_zero]

theorem resolve_submarineDir_inj :
    resolve (submarineDir dataDir a category) = resolve (submarineDir dataDir b category') ↔
      (resolve dataDir).follow (resolve a) = (resolve dataDir).follow (resolve b) ∧
        category = category' := by
  rw [resolve_submarineDir, resolve_submarineDir]
  constructor
  · intro h
    obtain ⟨hstart, hnames⟩ := Place.mk.inj h
    obtain ⟨hfront, hlast⟩ := List.append_inj' hnames rfl
    exact ⟨congrArg₂ Place.mk hstart hfront,
      category_name_injective (List.singleton_inj.mp hlast)⟩
  · rintro ⟨hplace, rfl⟩
    rw [hplace]

theorem logFile_eq (dataDir id : Text) (category : Category) (today : Date) :
    logFile dataDir id category today =
      { resolve (submarineDir dataDir id category) with
        names := (resolve (submarineDir dataDir id category)).names ++ [fileName today] } :=
  (fileName_plainName today).enter _

/-- A log file has another name than the directories of a submarine. -/
theorem logFile_ne_dir :
    logFile dataDir b category' today ≠ resolve (submarineDir dataDir a category) := by
  rw [logFile_eq, resolve_submarineDir dataDir a]
  intro h
  obtain ⟨-, hlast⟩ := List.append_inj' (Place.mk.inj h).2 rfl
  exact fileName_ne_category today category (List.singleton_inj.mp hlast)

/-- A path that comes to a log file on its way comes to it inside the ID. -/
theorem logFile_mem_way :
    logFile dataDir b category' today ∈ wayOf (submarineDir dataDir a category) ↔
      logFile dataDir b category' today ∈ wayOf (joinPath dataDir a) := by
  obtain ⟨front, hfront, hway⟩ := wayOf_joinPath (joinPath dataDir a)
  have hnames : (logFile dataDir b category' today).names ≠ [] := by
    rw [logFile_eq]
    exact List.append_ne_nil_of_right_ne_nil _ (List.cons_ne_nil _ _)
  have hdir : (resolve (joinPath dataDir a)).enter category.name =
      resolve (submarineDir dataDir a category) := by
    rw [resolve_submarineDir, (category_plainName category).enter, resolve_joinPath]
  rw [submarineDir, hway _ (category_plainName category), List.mem_append, hfront _ hnames,
    List.mem_singleton, hdir]
  exact or_iff_left logFile_ne_dir

theorem osPath_submarineDir (dataDir id : Text) (category : Category) :
    osPath (submarineDir dataDir id category) = submarineDir dataDir id category ↔
      nul ∉ joinPath dataDir id := by
  rw [osPath_eq_iff, submarineDir, nul_mem_joinPath (category_plainName category).no_nul]
  have hrelative : ¬ isAbsolute category.name = true := by cases category <;> decide
  rw [and_iff_right hrelative]

end Places

/-! ## 4. One append -/

/-- What an append does on a path on which no file lies: all of the path is folders then, and the line is
    appended, unless a folder has the name of its file. -/
structure Appended (dataDir id : Text) (category : Category) (today : Date) (line : Text)
    (disk disk' : Disk) : Prop where
  here : disk'.content (resolve (submarineDir dataDir id category)) =
    if disk.isFolder (logFile dataDir id category today) ∨
        logFile dataDir id category today ∈ wayOf (submarineDir dataDir id category) then
      rotateIfNeeded (disk.content (resolve (submarineDir dataDir id category)))
    else appendLine (disk.content (resolve (submarineDir dataDir id category))) today line
  elsewhere : ∀ q, q ≠ resolve (submarineDir dataDir id category) → disk'.content q = disk.content q
  folders : ∀ q, disk'.isFolder q ↔ disk.isFolder q ∨ q ∈ wayOf (submarineDir dataDir id category)

section Append

variable {dataDir id : Text} {category : Category} {disk : Disk}

theorem rotateIfNeeded_files_subset (dir : Directory) : (rotateIfNeeded dir).files ⊆ dir.files := by
  rw [rotateIfNeeded_eq]
  exact rotated_subset _ _

theorem rotateAt_opened (hnul : nul ∉ joinPath dataDir id)
    (hopen : ∀ q ∈ wayOf (submarineDir dataDir id category), ¬ disk.isFile q) :
    let dir := submarineDir dataDir id category
    (rotateAt disk dir).content (resolve dir) = rotateIfNeeded (disk.content (resolve dir)) ∧
      (∀ q, q ≠ resolve dir → (rotateAt disk dir).content q = disk.content q) ∧
      ∀ q, (rotateAt disk dir).isFolder q ↔ disk.isFolder q ∨ q ∈ wayOf dir := by
  intro dir
  have hpath : osPath dir = dir := (osPath_submarineDir dataDir id category).mpr hnul
  have hdir : nul ∉ dir := (osPath_eq_iff dir).mp hpath
  have hcontent : ∀ q, (disk.makeFolders (wayOf dir)).content q = disk.content q :=
    Folders.makeFolders_content _
  have hfolder := Folders.isFolder_makeFolders_open hopen
  have hfind : (disk.makeFolders (wayOf dir)).find dir = some (resolve dir) := by
    rw [Folders.find, if_pos]
    exact List.all_eq_true.mpr fun q hq ↦ (hfolder q).mpr (.inr hq)
  have heq : rotateAt disk dir = (disk.makeFolders (wayOf dir)).put (resolve dir)
      (rotateIfNeeded (disk.content (resolve dir))) := by
    rw [rotateAt, hpath, hfind]
    exact (if_neg hdir).trans (by rw [hcontent])
  rw [heq]
  refine ⟨Folders.content_put_self _, fun q hq ↦ ?_, fun q ↦ ?_⟩
  · rw [Folders.content_put_of_ne _ hq, hcontent]
  · rw [Folders.isFolder_put, hfolder]
    exact or_iff_left_of_imp fun hq ↦ .inr (hq ▸ resolve_mem_wayOf dir)

theorem rotateAt_files_subset (p : Place) (dir : Text) :
    ((rotateAt disk dir).content p).files ⊆ (disk.content p).files := by
  have hsame : ∀ q, (disk.makeFolders (wayOf (osPath dir))).content q = disk.content q :=
    Folders.makeFolders_content _
  rw [rotateAt]
  split
  · rw [hsame]
  next q _ =>
    split_ifs
    · rw [hsame]
    · by_cases hp : p = q
      · rw [hp, Folders.content_put_self, hsame]
        exact rotateIfNeeded_files_subset _
      · rw [Folders.content_put_of_ne _ hp, hsame]

theorem isFolder_rotateAt {p : Place} (hp : disk.isFolder p) (dir : Text) :
    (rotateAt disk dir).isFolder p := by
  have hmade : (disk.makeFolders (wayOf (osPath dir))).isFolder p := Folders.isFolder_makeFolders hp
  rw [rotateAt]
  split
  · exact hmade
  · split_ifs
    · exact hmade
    · exact (Folders.isFolder_put _).mpr (.inl hmade)

theorem locate_file (hnul : nul ∉ joinPath dataDir id) (today : Date) (disk : Disk) :
    let dir := submarineDir dataDir id category
    disk.locate (osPath (joinPath dir (fileName today))) =
      if (wayOf dir).all disk.isFolder then some (resolve dir, fileName today) else none := by
  intro dir
  have hplain := fileName_plainName today
  have hname : hasFilename dir = true := (category_plainName category).hasFilename_joinPath _
  have hrelative : ¬ isAbsolute (fileName today) = true := fun habs ↦
    hplain.no_separator (List.mem_of_mem_head? (of_decide_eq_true habs))
  have hpath : osPath (joinPath dir (fileName today)) = dir ++ '/' :: fileName today := by
    rw [(osPath_eq_iff _).mpr, joinPath, if_neg hrelative, if_pos hname]
    rw [nul_mem_joinPath hplain.no_nul, not_and_or, ← osPath_eq_iff]
    exact .inr ((osPath_submarineDir dataDir id category).mpr hnul)
  have hstart := startOf_append (of_decide_eq_true hname).1 ('/' :: fileName today)
  rw [hpath, Folders.locate, hstart, List.splitOn_append_cons_self, hplain.splitOn, List.dropLast_concat,
    List.getLast?_concat]
  rfl

theorem appendLineAt_opened (hnul : nul ∉ joinPath dataDir id)
    (hopen : ∀ q ∈ wayOf (submarineDir dataDir id category), ¬ disk.isFile q) (today : Date)
    (line : Text) : Appended dataDir id category today line disk
      (appendLineAt dataDir disk id category today line) := by
  let dir := submarineDir dataDir id category
  obtain ⟨hhere, helse, hfolder⟩ := rotateAt_opened hnul hopen
  -- all of the path but the file is folders by now
  have hway : (wayOf dir).all (rotateAt disk dir).isFolder :=
    List.all_eq_true.mpr fun q hq ↦ (hfolder q).mpr (.inr hq)
  have heq : appendLineAt dataDir disk id category today line =
      if (rotateAt disk dir).isFolder (logFile dataDir id category today) then rotateAt disk dir
      else (rotateAt disk dir).put (resolve dir)
        (((rotateAt disk dir).content (resolve dir)).append (fileName today) (line ++ ['\n'])) := by
    rw [appendLineAt, appendAt, locate_file hnul today, if_pos hway]
    rfl
  rw [heq]
  by_cases hblocked : (rotateAt disk dir).isFolder (logFile dataDir id category today)
  · rw [if_pos hblocked]
    refine ⟨?_, helse, hfolder⟩
    rw [if_pos ((hfolder _).mp hblocked)]
    exact hhere
  · rw [if_neg hblocked]
    refine ⟨?_, fun q hq ↦ ?_, fun q ↦ ?_⟩
    · rw [if_neg fun h ↦ hblocked ((hfolder _).mpr h), Folders.content_put_self, hhere]
      rfl
    · rw [Folders.content_put_of_ne _ hq, helse q hq]
    · rw [Folders.isFolder_put, hfolder]
      exact or_iff_left_of_imp fun hq ↦ .inr (hq ▸ resolve_mem_wayOf dir)

theorem dcaStore_opened {x : StoreCall} (hnul : nul ∉ joinPath dataDir x.submarineId)
    (hopen : ∀ q ∈ wayOf (submarineDir dataDir x.submarineId x.record.category), ¬ disk.isFile q) :
    Appended dataDir x.submarineId x.record.category x.today x.record.line disk
      (dcaStore dataDir disk x).1 := by
  rw [dcaStore]
  exact appendLineAt_opened hnul hopen x.today x.record.line

/-- Where a folder has the name of the file, nothing is appended. -/
theorem appendLineAt_blocked (hnul : nul ∉ joinPath dataDir id) {today : Date}
    (hfolder : disk.isFolder (logFile dataDir id category today)) (line : Text) (p : Place) :
    ((appendLineAt dataDir disk id category today line).content p).files ⊆ (disk.content p).files := by
  have heq : appendLineAt dataDir disk id category today line =
      rotateAt disk (submarineDir dataDir id category) := by
    rw [appendLineAt, appendAt, locate_file hnul today]
    split_ifs
    · exact if_pos (isFolder_rotateAt hfolder _)
    · rfl
  rw [heq]
  exact rotateAt_files_subset p _

/-- The only file that may be new is that of today, and no folder has its place. -/
theorem Appended.mem_files {today : Date} {line : Text} {disk' : Disk}
    (h : Appended dataDir id category today line disk disk') {p : Place} {file : Text}
    (hfile : file ∈ (disk'.content p).files) :
    file ∈ (disk.content p).files ∨ p = resolve (submarineDir dataDir id category) ∧
      file = fileName today ∧
      logFile dataDir id category today ∉ wayOf (submarineDir dataDir id category) := by
  by_cases hp : p = resolve (submarineDir dataDir id category)
  · subst hp
    rw [h.here] at hfile
    split_ifs at hfile with hblocked
    · exact .inl (rotateIfNeeded_files_subset _ hfile)
    · rcases Finset.mem_insert.mp hfile with rfl | hold
      · exact .inr ⟨rfl, rfl, fun hway ↦ hblocked (.inr hway)⟩
      · exact .inl (rotateIfNeeded_files_subset _ hold)
  · rw [h.elsewhere p hp] at hfile
    exact .inl hfile

theorem directoryAt_eq (hnul : nul ∉ joinPath dataDir id)
    (hway : ∀ q ∈ wayOf (submarineDir dataDir id category), disk.isFolder q) :
    directoryAt disk (submarineDir dataDir id category) =
      disk.content (resolve (submarineDir dataDir id category)) := by
  have hpath := (osPath_submarineDir dataDir id category).mpr hnul
  rw [directoryAt, hpath, Folders.find, if_pos (List.all_eq_true.mpr hway)]
  exact if_neg ((osPath_eq_iff _).mp hpath)

theorem directoryAt_files_subset (hnul : nul ∉ joinPath dataDir id) :
    (directoryAt disk (submarineDir dataDir id category)).files ⊆
      (disk.content (resolve (submarineDir dataDir id category))).files := by
  by_cases hway : ∀ q ∈ wayOf (submarineDir dataDir id category), disk.isFolder q
  · rw [directoryAt_eq hnul hway]
  · rw [directoryAt, (osPath_submarineDir dataDir id category).mpr hnul, Folders.find,
      if_neg fun hall ↦ hway (List.all_eq_true.mp hall)]
    exact Finset.empty_subset _

theorem dcaQuery_no_files {ρ : Type} (scan : Text → Option ρ) (timestamp : ρ → UInt32)
    {dir : Directory} (h : dir.files = ∅) (start stop : UInt32) :
    dcaQuery scan timestamp dir start stop = [] := by
  rw [dcaQuery, readAllLines, h, Finset.sort_empty]
  rfl

/-- What a query finds, where a directory with files is always one that can be reached. -/
theorem dcaQuery_directoryAt {ρ : Type} (scan : Text → Option ρ) (timestamp : ρ → UInt32)
    (hnul : nul ∉ joinPath dataDir id)
    (hreached : (disk.content (resolve (submarineDir dataDir id category))).files ≠ ∅ →
      ∀ q ∈ wayOf (submarineDir dataDir id category), disk.isFolder q) :
    dcaQuery scan timestamp (directoryAt disk (submarineDir dataDir id category)) =
      dcaQuery scan timestamp (disk.content (resolve (submarineDir dataDir id category))) := by
  by_cases hempty : (disk.content (resolve (submarineDir dataDir id category))).files = ∅
  · funext start stop
    have hnone := Finset.subset_empty.mp (hempty ▸ directoryAt_files_subset hnul)
    rw [dcaQuery_no_files scan timestamp hempty, dcaQuery_no_files scan timestamp hnone]
  · rw [directoryAt_eq hnul (hreached hempty)]

end Append

end SubmarineMonitor
