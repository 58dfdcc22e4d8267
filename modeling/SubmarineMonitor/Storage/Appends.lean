import SubmarineMonitor.Reasoning.Archive
import SubmarineMonitor.Reasoning.TornText
import SubmarineMonitor.Storage.StoreQuery

/-!
# Appends — record files as an archive of what was appended

Whatever the receipt dates and whether a line reaches its file whole or in part, the files of a
directory hold what has been appended to each of them since it was created (`Files.append`), and a query
reads them file by file (`Files.query`).
-/

open Reasoning

namespace SubmarineMonitor

/-! ## 1. Definitions -/

/-- `AppendLine` when the first `kept` characters of the line and its newline reach the file. -/
def appendCut (dir : Directory) (today : Date) (line : Text) (kept : Nat) : Directory :=
  let dir := rotateIfNeeded dir
  let file := fileName today
  let old := if file ∈ dir.files then dir.content file else []
  { files := insert file dir.files
    content := Function.update dir.content file (old ++ (line ++ ['\n']).take kept) }

theorem appendLine_eq_cut (dir : Directory) (today : Date) (line : Text) :
    appendLine dir today line = appendCut dir today line (line.length + 1) := by
  have hall : (line ++ ['\n']).take (line.length + 1) = line ++ ['\n'] :=
    List.take_of_length_le (by rw [List.length_append, List.length_singleton])
  rw [appendCut, hall]
  rfl

def todayText (dir : Directory) (today : Date) : Text :=
  if fileName today ∈ (rotateIfNeeded dir).files then
    (rotateIfNeeded dir).content (fileName today)
  else []

def storeStep {α : Type} (store : Directory → Date → α → Directory) (dir : Directory)
    (x : Date × α) : Directory × Unit := (store dir x.1 x.2, ())

def fileRecords {ρ : Type} (scan : Text → Option ρ) (content : Text) : List ρ :=
  ((getLines [] content).filter fun line ↦ line ≠ []).filterMap scan

structure Files {α : Type} (text : α → Text) (s : Archive Date α) (dir : Directory) : Prop where
  files : dir.files = s.present.map fileNames
  content : ∀ d ∈ s.present, dir.content (fileName d) = (s.entries d).flatMap text

/-! ## 2. One append -/

section Append

variable {α : Type} {text : α → Text} {s : Archive Date α} {dir : Directory}

theorem files_empty (h : dir.files = ∅) : Files text .empty dir where
  files := by
    rw [h]
    exact (Finset.map_empty fileNames).symm
  content d hd := absurd hd (Finset.notMem_empty d)

theorem Files.rotated_files (h : Files text s dir) :
    (rotateIfNeeded dir).files = (rotated dcaMaxFiles s.present).map fileNames := by
  rw [rotateIfNeeded_eq]
  dsimp only
  rw [h.files]
  exact rotated_map fileName_strictMono _ _

theorem Files.mem_rotated (h : Files text s dir) (d : Date) :
    fileName d ∈ (rotateIfNeeded dir).files ↔ d ∈ rotated dcaMaxFiles s.present := by
  rw [h.rotated_files]
  exact Finset.mem_map' fileNames

theorem Files.todayText_eq (h : Files text s dir) (today : Date) :
    todayText dir today = (s.held (rotated dcaMaxFiles s.present) today).flatMap text := by
  rw [todayText, Archive.held]
  by_cases hin : today ∈ rotated dcaMaxFiles s.present
  · rw [if_pos ((h.mem_rotated today).mpr hin), if_pos hin, rotateIfNeeded_eq]
    exact h.content today (rotated_subset _ _ hin)
  · rw [if_neg fun hmem ↦ hin ((h.mem_rotated today).mp hmem), if_neg hin, List.flatMap_nil]

/-- An append goes behind what rotation leaves of today's file, and the other files stay. -/
theorem Files.append (h : Files text s dir) {today : Date} {a : α} {line : Text} {kept : Nat}
    (htext : (line ++ ['\n']).take kept = text a) :
    Files text (s.store dcaMaxFiles today a) (appendCut dir today line kept) := by
  have htoday := h.todayText_eq today
  refine { files := ?_, content := fun d hd ↦ ?_ }
  · show insert (fileName today) (rotateIfNeeded dir).files = _
    rw [h.rotated_files]
    exact (Finset.map_insert fileNames today _).symm
  · show Function.update (rotateIfNeeded dir).content (fileName today)
      (todayText dir today ++ (line ++ ['\n']).take kept) (fileName d) = _
    rw [Archive.store]
    by_cases heq : d = today
    · rw [heq, Function.update_self, Archive.put_entries_self, htoday, htext,
        List.flatMap_append, List.flatMap_singleton]
    · rw [Function.update_of_ne fun hname ↦ heq (fileName_strictMono.injective hname),
        Archive.put_entries_of_ne _ _ _ _ heq, rotateIfNeeded_eq]
      exact h.content d (rotated_subset _ _ (Finset.mem_of_mem_insert_of_ne hd heq))

end Append

/-! ## 3. Queries -/

section Query

variable {α ρ : Type} {text : α → Text} {scan : Text → Option ρ} {timestamp : ρ → UInt32}
  {s : Archive Date α} {dir : Directory}

theorem dcaQuery_eq (dir : Directory) (start stop : UInt32) :
    dcaQuery scan timestamp dir start stop =
      ((dir.files.sort (· ≤ ·)).flatMap fun f ↦ fileRecords scan (dir.content f)).filter
        fun r ↦ start ≤ timestamp r ∧ timestamp r ≤ stop := by
  have hall : (readAllLines dir).filterMap scan =
      (dir.files.sort (· ≤ ·)).flatMap fun f ↦ fileRecords scan (dir.content f) :=
    List.filterMap_flatMap ..
  rw [dcaQuery_eq_filter, hall]

theorem Files.query (h : Files text s dir) (start stop : UInt32) :
    dcaQuery scan timestamp dir start stop =
      ((s.present.sort (· ≤ ·)).flatMap fun d ↦
        fileRecords scan ((s.entries d).flatMap text)).filter
          fun r ↦ start ≤ timestamp r ∧ timestamp r ≤ stop := by
  have hsort : dir.files.sort (· ≤ ·) = (s.present.sort (· ≤ ·)).map fileName := by
    rw [h.files, sort_fileNames]
  rw [dcaQuery_eq, hsort, List.flatMap_map]
  congr 1
  refine List.flatMap_congr fun d hd ↦ ?_
  rw [h.content d ((Finset.mem_sort _).mp hd)]

theorem fileRecords_append {old : Text} (t : Text) (h : EndsLine old) :
    fileRecords scan (old ++ t) = fileRecords scan old ++ fileRecords scan t := by
  rw [fileRecords, getLines_append t h, List.filter_append, List.filterMap_append]
  rfl

theorem fileRecords_open {s : Text} (h : '\n' ∉ s) (hne : s ≠ []) :
    fileRecords scan s = (scan s).toList := by
  rw [fileRecords, getLines_open [] h, List.nil_append, if_neg hne, List.filter_cons,
    if_pos (decide_eq_true hne), List.filter_nil, List.filterMap_cons]
  cases scan s with
  | none => rfl
  | some r => rfl

/-- Lines that reached their file whole are read back as their records. -/
theorem fileRecords_lines {line : α → Text} {record : α → ρ}
    (hline : ∀ a, '\n' ∉ line a ∧ line a ≠ []) (hscan : ∀ a, scan (line a) = some (record a))
    (as : List α) : fileRecords scan (as.flatMap fun a ↦ line a ++ ['\n']) = as.map record := by
  have hlines : ∀ l ∈ as.map line, '\n' ∉ l ∧ l ≠ [] := by
    intro l hl
    obtain ⟨a, -, rfl⟩ := List.mem_map.mp hl
    exact hline a
  have hkeep : (as.map line).filter (fun l ↦ l ≠ []) = as.map line :=
    List.filter_eq_self.mpr fun l hl ↦ decide_eq_true (hlines l hl).2
  rw [fileRecords, ← List.flatMap_map (f := line) (g := fun l ↦ l ++ ['\n']),
    getLines_lines fun l hl ↦ (hlines l hl).1, hkeep, List.filterMap_map, ← List.filterMap_eq_map]
  exact List.filterMap_congr fun a _ ↦ hscan a

end Query

end SubmarineMonitor
