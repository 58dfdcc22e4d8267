import SubmarineMonitor.Reasoning.Paths
import Mathlib.Logic.Function.Basic

/-!
# Folders — the folders of a file system

A file system is what is in each of its folders.  A name in a folder is that of a file or of another
folder, so a path leads on only through names of folders, and a folder can be made only where no file is.
The working directory, what lies above it and the root are always there.  Links are not followed, and
names of any length are taken.
-/

namespace Reasoning

class Contents (κ : Type*) where
  empty : κ
  holds : κ → Text → Bool

abbrev Folders (κ : Type*) := Place → Option κ

/-! ## 1. Ways -/

def startOf (path : Text) : Place := ⟨if isAbsolute path then .root else .above 0, []⟩

/-- The places that the elements of a path enter, one after another. -/
def Place.way (p : Place) : List Text → List Place
  | [] => []
  | element :: elements => p.enter element :: (p.enter element).way elements

def wayOf (path : Text) : List Place := (startOf path).way (path.splitOn '/')

theorem resolve_eq_walk (path : Text) : resolve path = (startOf path).walk path := rfl

theorem Place.way_append (p : Place) (elements more : List Text) :
    p.way (elements ++ more) = p.way elements ++ (elements.foldl enter p).way more := by
  induction elements generalizing p with
  | nil => rfl
  | cons element elements ih => rw [List.cons_append, way, ih, way, List.foldl_cons, List.cons_append]

theorem startOf_append {path : Text} (h : path ≠ []) (more : Text) :
    startOf (path ++ more) = startOf path := by
  rw [startOf, isAbsolute_append h]
  rfl

theorem wayOf_append {path : Text} (h : path ≠ []) (more : Text) :
    wayOf (path ++ '/' :: more) = wayOf path ++ (resolve path).way (more.splitOn '/') := by
  rw [wayOf, startOf_append h, List.splitOn_append_cons_self, Place.way_append]
  rfl

theorem Place.foldl_mem_way (p : Place) {elements : List Text} (h : elements ≠ []) :
    elements.foldl enter p ∈ p.way elements := by
  obtain ⟨front, last, rfl⟩ := List.exists_cons_of_ne_nil h
  induction last generalizing p front with
  | nil => exact List.mem_cons_self
  | cons element elements ih =>
      rw [way]
      exact List.mem_cons_of_mem _ (ih (p.enter front) element (List.cons_ne_nil _ _))

theorem resolve_mem_wayOf (path : Text) : resolve path ∈ wayOf path :=
  Place.foldl_mem_way _ (List.splitOn_ne_nil '/' path)

theorem PlainName.enter {name : Text} (h : PlainName name) (p : Place) :
    p.enter name = { p with names := p.names ++ [name] } := by
  rw [Place.enter, if_neg (not_or.mpr ⟨h.ne_nil, h.ne_dot⟩), if_neg h.ne_up]

theorem PlainName.splitOn {name : Text} (h : PlainName name) : name.splitOn '/' = [name] :=
  List.splitOn_eq_singleton h.no_separator

theorem PlainName.hasFilename_joinPath {name : Text} (h : PlainName name) (path : Text) :
    hasFilename (joinPath path name) = true := by
  have hrelative : ¬ isAbsolute name = true := fun habs ↦
    h.no_separator (List.mem_of_mem_head? (of_decide_eq_true habs))
  have hlast : ∀ front : Text, hasFilename (front ++ name) = true := by
    intro front
    refine decide_eq_true ⟨List.append_ne_nil_of_right_ne_nil _ h.ne_nil, fun hlast ↦ ?_⟩
    rw [List.getLast?_append_of_ne_nil _ h.ne_nil] at hlast
    exact h.no_separator (List.mem_of_mem_getLast? hlast)
  rw [joinPath, if_neg hrelative]
  split_ifs
  · exact List.append_cons path '/' name ▸ hlast _
  · exact hlast path

theorem wayOf_joinPath_filename {path name : Text} (hpath : hasFilename path = true)
    (h : PlainName name) : wayOf (joinPath path name) = wayOf path ++ [(resolve path).enter name] := by
  have hrelative : ¬ isAbsolute name = true := fun habs ↦
    h.no_separator (List.mem_of_mem_head? (of_decide_eq_true habs))
  rw [joinPath, if_neg hrelative, if_pos hpath, wayOf_append (of_decide_eq_true hpath).1, h.splitOn]
  rfl

/-- What is entered on the way to a name in a folder, whatever the name. -/
theorem wayOf_joinPath (path : Text) : ∃ front : List Place,
    (∀ q, q.names ≠ [] → (q ∈ front ↔ q ∈ wayOf path)) ∧ ∀ name, PlainName name →
      wayOf (joinPath path name) = front ++ [(resolve path).enter name] := by
  by_cases hname : hasFilename path
  · exact ⟨wayOf path, fun _ _ ↦ .rfl, fun name h ↦ wayOf_joinPath_filename hname h⟩
  have hjoin : ∀ name, PlainName name → joinPath path name = path ++ name := by
    intro name h
    have hrelative : ¬ isAbsolute name = true := fun habs ↦
      h.no_separator (List.mem_of_mem_head? (of_decide_eq_true habs))
    rw [joinPath, if_neg hrelative, if_neg hname]
  by_cases hnil : path = []
  · refine ⟨[], fun q hq ↦ iff_of_false List.not_mem_nil fun hmem ↦ hq ?_, fun name h ↦ ?_⟩
    · rw [hnil] at hmem
      rw [List.mem_singleton.mp hmem]
      rfl
    have hrelative : isAbsolute name = false := Bool.eq_false_iff.mpr fun habs ↦
      h.no_separator (List.mem_of_mem_head? (of_decide_eq_true habs))
    rw [hjoin name h, hnil, List.nil_append, wayOf, h.splitOn, startOf, hrelative]
    rfl
  · -- the separator is there already
    have hlast : path.getLast? = some '/' := by
      by_contra hlast
      exact hname (decide_eq_true ⟨hnil, hlast⟩)
    obtain ⟨front, rfl⟩ := List.getLast?_eq_some_iff.mp hlast
    by_cases hfront : front = []
    · subst hfront
      refine ⟨[⟨.root, []⟩], fun q hq ↦ iff_of_false ?_ ?_, fun name h ↦ ?_⟩
      · exact fun hmem ↦ hq (congrArg Place.names (List.mem_singleton.mp hmem))
      · intro hmem
        have hall : ∀ q ∈ wayOf ['/'], q.names = [] := by decide
        exact hq (hall q hmem)
      · rw [hjoin name h, wayOf, List.nil_append, List.singleton_append]
        show (startOf ('/' :: name)).way (([] ++ '/' :: name : Text).splitOn '/') = _
        rw [List.splitOn_append_cons_self, h.splitOn]
        rfl
    · refine ⟨wayOf front, fun q _ ↦ ?_, fun name h ↦ ?_⟩
      · rw [wayOf_append hfront, List.mem_append]
        refine ⟨.inl, fun hmem ↦ hmem.elim id fun hlast ↦ ?_⟩
        -- the last element is empty, and enters nothing
        rw [List.mem_singleton.mp hlast]
        exact resolve_mem_wayOf front
      · rw [hjoin name h, List.append_assoc, List.singleton_append, wayOf_append hfront, h.splitOn,
          resolve_append _ _ hfront]
        show _ ++ [(resolve front).enter name] = _ ++ [((resolve front).walk []).enter name]
        rw [show (resolve front).walk [] = resolve front from rfl]

/-! ## 2. Files and folders -/

namespace Folders

variable {κ : Type*} {disk : Folders κ} {p q : Place}

def isFolder (disk : Folders κ) (p : Place) : Bool := p.names.isEmpty || (disk p).isSome

def put (disk : Folders κ) (p : Place) (dir : κ) : Folders κ := Function.update disk p (some dir)

theorem isFolder_put (dir : κ) : (disk.put p dir).isFolder q ↔ disk.isFolder q ∨ q = p := by
  by_cases h : q = p
  · rw [h, isFolder, put, Function.update_self, Option.isSome_some, Bool.or_true]
    exact iff_of_true rfl (.inr rfl)
  · rw [isFolder, put, Function.update_of_ne h]
    exact (or_iff_left h).symm

variable [Contents κ]

def content (disk : Folders κ) (p : Place) : κ := (disk p).getD Contents.empty

def isFile (disk : Folders κ) (p : Place) : Bool :=
  p.names.getLast?.any (Contents.holds (disk.content (p.climb 1)))

/-- Each of these places is made a folder, as long as no file is there. -/
def makeFolders (disk : Folders κ) : List Place → Folders κ
  | [] => disk
  | p :: way =>
      if disk.isFile p then disk
      else if disk.isFolder p then disk.makeFolders way
      else (disk.put p Contents.empty).makeFolders way

/-- Where a path leads, if it leads through folders to one. -/
def find (disk : Folders κ) (path : Text) : Option Place :=
  if (wayOf path).all disk.isFolder then some (resolve path) else none

def locate (disk : Folders κ) (path : Text) : Option (Place × Text) :=
  let elements := path.splitOn '/'
  if ((startOf path).way elements.dropLast).all disk.isFolder then
    some (elements.dropLast.foldl Place.enter (startOf path), elements.getLast?.getD [])
  else none

theorem content_put_self (dir : κ) : (disk.put p dir).content p = dir := by
  rw [content, put, Function.update_self]
  rfl

theorem content_put_of_ne (dir : κ) (h : q ≠ p) : (disk.put p dir).content q = disk.content q := by
  rw [content, put, Function.update_of_ne h]
  rfl

theorem content_put_empty (hp : ¬ disk.isFolder p) (q : Place) :
    (disk.put p Contents.empty).content q = disk.content q := by
  by_cases hq : q = p
  · have hnone : disk p = none := by
      cases hp' : disk p with
      | none => rfl
      | some dir =>
          refine absurd ?_ hp
          rw [isFolder, hp', Option.isSome_some, Bool.or_true]
    rw [hq, content_put_self, content, hnone]
    rfl
  · exact content_put_of_ne _ hq

theorem makeFolders_content (way : List Place) (q : Place) :
    (disk.makeFolders way).content q = disk.content q := by
  induction way generalizing disk with
  | nil => rfl
  | cons p way ih =>
      rw [makeFolders]
      split_ifs with hfile hp
      · rfl
      · exact ih
      · exact ih.trans (content_put_empty hp q)

theorem isFolder_makeFolders {way : List Place} (hq : disk.isFolder q) :
    (disk.makeFolders way).isFolder q := by
  induction way generalizing disk with
  | nil => exact hq
  | cons p way ih =>
      rw [makeFolders]
      split_ifs
      · exact hq
      · exact ih hq
      · exact ih ((isFolder_put _).mpr (.inl hq))

theorem isFolder_makeFolders_open {way : List Place} (h : ∀ q ∈ way, ¬ disk.isFile q) (q : Place) :
    (disk.makeFolders way).isFolder q ↔ disk.isFolder q ∨ q ∈ way := by
  induction way generalizing disk with
  | nil => exact (or_iff_left List.not_mem_nil).symm
  | cons p way ih =>
      rw [List.forall_mem_cons] at h
      rw [makeFolders, if_neg h.1, List.mem_cons]
      by_cases hp : disk.isFolder p
      · rw [if_pos hp, ih h.2]
        refine or_congr_right' fun hq ↦ (or_iff_right fun hqp ↦ ?_).symm
        exact hq (hqp ▸ hp)
      · have hnext : ∀ q ∈ way, ¬ (disk.put p Contents.empty).isFile q := fun q hq ↦ by
          rw [isFile, content_put_empty hp]
          exact h.2 q hq
        rw [if_neg hp, ih hnext, isFolder_put, or_assoc]

theorem isFile_iff : disk.isFile q ↔
    ∃ p name, q = ⟨p.start, p.names ++ [name]⟩ ∧ Contents.holds (disk.content p) name := by
  rw [isFile]
  constructor
  · intro h
    cases hlast : q.names.getLast? with
    | none =>
        rw [hlast] at h
        cases h
    | some name =>
        rw [hlast] at h
        obtain ⟨front, hnames⟩ := List.getLast?_eq_some_iff.mp hlast
        have hq : q = ⟨q.start, front ++ [name]⟩ := by rw [← hnames]
        have hclimb : q.climb 1 = ⟨q.start, front⟩ := by rw [hq, Place.climb_one_snoc]
        rw [hclimb] at h
        exact ⟨⟨q.start, front⟩, name, hq, h⟩
  · rintro ⟨p, name, rfl, h⟩
    rw [Place.climb_one_snoc, List.getLast?_concat]
    exact h

end Folders

end Reasoning
