import Mathlib.Data.List.Infix
import Mathlib.Data.List.TakeWhile
import SubmarineMonitor.Reasoning.Text

/-!
# Paths — where a POSIX path leads

A path is text; it is joined with another one as `std::filesystem::path` does it (`joinPath`), and read
element by element (`resolve`).  Where a joined path leads follows from where each of its two halves
leads (`resolve_joinPath`), and whether it leads back below the first half from the second one alone
(`follow_within_iff`).  Links are not followed.
-/

namespace Reasoning

/-! ## 1. Places -/

/-- The root, or so many directories above the working directory. -/
inductive Start
  | root
  | above (n : Nat)
  deriving DecidableEq, Repr

def Start.up : Start → Nat → Start
  | .root, _ => .root
  | .above k, n => .above (k + n)

structure Place where
  start : Start
  names : List Text
  deriving DecidableEq, Repr

namespace Place

def here : Place := ⟨.above 0, []⟩

def climb (p : Place) (n : Nat) : Place where
  start := p.start.up (n - p.names.length)
  names := p.names.take (p.names.length - n)

def enter (p : Place) (element : Text) : Place :=
  if element = [] ∨ element = ['.'] then p
  else if element = ['.', '.'] then p.climb 1
  else { p with names := p.names ++ [element] }

def walk (p : Place) (path : Text) : Place := (path.splitOn '/').foldl enter p

def follow (p q : Place) : Place :=
  match q.start with
  | .root => q
  | .above n => { p.climb n with names := (p.climb n).names ++ q.names }

def Within (q p : Place) : Prop := q.start = p.start ∧ p.names <+: q.names

def Below (q p : Place) : Prop := q.Within p ∧ q.names ≠ p.names

/-- Read from `p`, `q` comes back to `p`: it climbs no further than it comes back down through the
    last names of `p`, or it repeats all of them from the root. -/
def ReturnsTo (q p : Place) : Prop :=
  match q.start with
  | .root => p.start = .root ∧ p.names <+: q.names
  | .above n => (p.start = .root ∨ n ≤ p.names.length) ∧
      p.names.drop (p.names.length - n) <+: q.names

/-- The names of `q` behind those that repeat names of `p`. -/
def remaining (q p : Place) : List Text :=
  match q.start with
  | .root => q.names.drop p.names.length
  | .above n => q.names.drop (min n p.names.length)

end Place

/-! ## 2. Paths -/

def isAbsolute (path : Text) : Bool := path.head? = some '/'

def hasFilename (path : Text) : Bool := path ≠ [] ∧ path.getLast? ≠ some '/'

/-- `operator/`. -/
def joinPath (p q : Text) : Text :=
  if isAbsolute q then q
  else if hasFilename p then p ++ '/' :: q
  else p ++ q

def resolve (path : Text) : Place :=
  Place.walk ⟨if isAbsolute path then .root else .above 0, []⟩ path

/-- The character that ends a string of the system. -/
def nul : Char := Char.ofNat 0

/-- What the system is given of a path. -/
def osPath (path : Text) : Text := path.takeWhile (· ≠ nul)

structure PlainName (path : Text) : Prop where
  ne_nil : path ≠ []
  ne_dot : path ≠ ['.']
  ne_up : path ≠ ['.', '.']
  no_separator : '/' ∉ path
  no_nul : nul ∉ path

/-! ## 3. Climbing and following -/

namespace Place

theorem up_up (s : Start) (m n : Nat) : (s.up m).up n = s.up (m + n) := by
  cases s with
  | root => rfl
  | above k => rw [Start.up, Start.up, Start.up, Nat.add_assoc]

theorem up_eq_self_iff (s : Start) (n : Nat) : s.up n = s ↔ s = .root ∨ n = 0 := by
  cases s with
  | root => exact iff_of_true rfl (.inl rfl)
  | above k => simp [Start.up]

theorem climb_climb (p : Place) (m n : Nat) : (p.climb m).climb n = p.climb (m + n) := by
  have hlen : (p.climb m).names.length = p.names.length - m := by
    rw [climb, List.length_take]
    omega
  have hstart : m - p.names.length + (n - (p.names.length - m)) = m + n - p.names.length := by
    omega
  rw [climb, hlen, climb, climb, up_up, hstart, List.take_take]
  congr 2
  omega

theorem climb_zero (p : Place) : p.climb 0 = p := by
  rw [climb, Nat.zero_sub, Nat.sub_zero, List.take_length, (up_eq_self_iff _ 0).mpr (.inr rfl)]

theorem follow_here (p : Place) : p.follow here = p := by
  show ({ p.climb 0 with names := (p.climb 0).names ++ [] } : Place) = p
  rw [List.append_nil, climb_zero]

theorem climb_one_snoc (s : Start) (front : List Text) (last : Text) :
    climb ⟨s, front ++ [last]⟩ 1 = ⟨s, front⟩ := by
  have hstart : 1 - (front ++ [last]).length = 0 := by
    rw [List.length_append, List.length_singleton]
    omega
  rw [climb, hstart, (up_eq_self_iff s 0).mpr (.inr rfl), ← List.dropLast_eq_take,
    List.dropLast_concat]

theorem follow_climb (p q : Place) : p.follow (q.climb 1) = (p.follow q).climb 1 := by
  obtain ⟨start, names⟩ := q
  cases start with
  | root => rfl
  | above n =>
      rcases List.eq_nil_or_concat' names with rfl | ⟨front, last, rfl⟩
      · -- above everything that `q` has entered
        show ({ p.climb (n + 1) with names := (p.climb (n + 1)).names ++ [] } : Place) =
          ({ p.climb n with names := (p.climb n).names ++ [] } : Place).climb 1
        rw [List.append_nil, List.append_nil, ← climb_climb]
      · -- the last name that `q` has entered is left again
        rw [climb_one_snoc]
        show Place.mk (p.climb n).start ((p.climb n).names ++ front) =
          climb ⟨(p.climb n).start, (p.climb n).names ++ (front ++ [last])⟩ 1
        rw [← List.append_assoc, climb_one_snoc]

theorem follow_enter (p q : Place) (element : Text) :
    p.follow (q.enter element) = (p.follow q).enter element := by
  unfold enter
  by_cases hstay : element = [] ∨ element = ['.']
  · rw [if_pos hstay, if_pos hstay]
  rw [if_neg hstay, if_neg hstay]
  by_cases hup : element = ['.', '.']
  · rw [if_pos hup, if_pos hup]
    exact follow_climb p q
  rw [if_neg hup, if_neg hup]
  obtain ⟨start, names⟩ := q
  cases start with
  | root => rfl
  | above n =>
      show Place.mk (p.climb n).start ((p.climb n).names ++ (names ++ [element])) =
        ⟨(p.climb n).start, (p.climb n).names ++ names ++ [element]⟩
      rw [List.append_assoc]

/-- A path that is walked behind another one can be walked first. -/
theorem follow_walk (p q : Place) (path : Text) :
    p.follow (q.walk path) = (p.follow q).walk path := by
  unfold walk
  induction path.splitOn '/' generalizing q with
  | nil => rfl
  | cons element elements ih => rw [List.foldl_cons, List.foldl_cons, ih, follow_enter]

theorem walk_eq_follow (p : Place) (path : Text) : p.walk path = p.follow (here.walk path) := by
  rw [follow_walk, follow_here]

theorem walk_append (p : Place) (path more : Text) :
    p.walk (path ++ '/' :: more) = (p.walk path).walk more := by
  rw [walk, List.splitOn_append_cons_self, List.foldl_append]
  rfl

theorem walk_separator (p : Place) (path : Text) : p.walk (path ++ ['/']) = p.walk path :=
  walk_append p path []

theorem walk_start {p : Place} (h : p.start = .root) (path : Text) : (p.walk path).start = .root := by
  unfold walk
  induction path.splitOn '/' generalizing p with
  | nil => exact h
  | cons element elements ih =>
      refine ih ?_
      unfold enter
      split_ifs
      · exact h
      · show p.start.up _ = _
        rw [h]
        rfl
      · exact h

end Place

/-! ## 4. Joining -/

theorem resolve_of_absolute {path : Text} (h : isAbsolute path = true) :
    (resolve path).start = .root := by
  rw [resolve, if_pos h]
  exact Place.walk_start rfl path

theorem resolve_of_relative {path : Text} (h : ¬ isAbsolute path = true) :
    resolve path = Place.here.walk path := by
  rw [resolve, if_neg h]
  rfl

theorem isAbsolute_append {p : Text} (h : p ≠ []) (q : Text) :
    isAbsolute (p ++ q) = isAbsolute p := by
  rw [isAbsolute, List.head?_append_of_ne_nil p h]
  rfl

theorem resolve_append (p q : Text) (h : p ≠ []) :
    resolve (p ++ '/' :: q) = (resolve p).walk q := by
  rw [resolve, isAbsolute_append h, Place.walk_append]
  rfl

theorem resolve_joinPath (p q : Text) : resolve (joinPath p q) = (resolve p).follow (resolve q) := by
  unfold joinPath
  by_cases habs : isAbsolute q
  · -- an absolute path replaces the one in front of it
    rw [if_pos habs, Place.follow, resolve_of_absolute habs]
  rw [if_neg habs, resolve_of_relative habs, ← Place.walk_eq_follow]
  by_cases hname : hasFilename p
  · rw [if_pos hname]
    exact resolve_append p q (of_decide_eq_true hname).1
  rw [if_neg hname]
  by_cases hnil : p = []
  · rw [hnil, List.nil_append, resolve_of_relative habs]
    rfl
  · -- the separator is there already
    have hlast : p.getLast? = some '/' := by
      by_contra hlast
      exact hname (decide_eq_true ⟨hnil, hlast⟩)
    obtain ⟨front, rfl⟩ := List.getLast?_eq_some_iff.mp hlast
    rw [resolve, isAbsolute_append hnil, List.append_assoc, List.singleton_append,
      Place.walk_append, resolve, Place.walk_separator]

theorem osPath_eq_iff (path : Text) : osPath path = path ↔ nul ∉ path := by
  rw [osPath, List.takeWhile_eq_self_iff]
  constructor
  · intro h hmem
    exact of_decide_eq_true (h nul hmem) rfl
  · intro h c hc
    exact decide_eq_true fun hnul ↦ h (hnul ▸ hc)

theorem nul_mem_joinPath {p q : Text} (hq : nul ∉ q) :
    nul ∈ joinPath p q ↔ ¬ isAbsolute q ∧ nul ∈ p := by
  have hslash : nul ≠ '/' := by decide
  unfold joinPath
  split_ifs with habs hname
  · exact iff_of_false hq fun h ↦ h.1 habs
  · rw [List.mem_append, List.mem_cons, and_iff_right habs]
    exact or_iff_left fun h ↦ h.elim hslash hq
  · rw [List.mem_append, and_iff_right habs]
    exact or_iff_left hq

theorem resolve_plainName {path : Text} (h : PlainName path) : resolve path = ⟨.above 0, [path]⟩ := by
  have hrelative : ¬ isAbsolute path = true := by
    intro habs
    exact h.no_separator (List.mem_of_mem_head? (of_decide_eq_true habs))
  rw [resolve_of_relative hrelative, Place.walk, List.splitOn_eq_singleton h.no_separator,
    List.foldl_cons, List.foldl_nil, Place.enter, if_neg (not_or.mpr ⟨h.ne_nil, h.ne_dot⟩),
    if_neg h.ne_up]
  rfl

/-! ## 5. Coming back -/

namespace Place

/-- Whether `q`, read from `p`, stays in `p` is seen from its own elements. -/
theorem follow_within_iff (p q : Place) : (p.follow q).Within p ↔ q.ReturnsTo p := by
  obtain ⟨start, names⟩ := q
  cases start with
  | root => exact and_congr_left fun _ ↦ eq_comm
  | above n =>
      have hstart : n - p.names.length = 0 ↔ n ≤ p.names.length := Nat.sub_eq_zero_iff_le
      have hsplit : p.names = p.names.take (p.names.length - n) ++
          p.names.drop (p.names.length - n) := (List.take_append_drop _ _).symm
      show p.start.up (n - p.names.length) = p.start ∧
          p.names <+: p.names.take (p.names.length - n) ++ names ↔
        (p.start = .root ∨ n ≤ p.names.length) ∧ p.names.drop (p.names.length - n) <+: names
      rw [up_eq_self_iff, hstart]
      refine and_congr_right fun _ ↦ ?_
      conv_lhs => lhs; rw [hsplit]
      exact List.prefix_append_right_inj _

/-- What lies one name behind `q` is below `p` if `q` is in `p`. -/
theorem snoc_below_iff (p q : Place) (name : Text) :
    Below ⟨q.start, q.names ++ [name]⟩ p ↔ q.Within p := by
  unfold Below Within
  rw [List.prefix_concat_iff]
  constructor
  · rintro ⟨⟨hstart, heq | hprefix⟩, hne⟩
    · exact absurd heq.symm hne
    · exact ⟨hstart, hprefix⟩
  · rintro ⟨hstart, hprefix⟩
    refine ⟨⟨hstart, .inr hprefix⟩, fun heq ↦ ?_⟩
    have hlen := hprefix.length_le
    rw [← heq, List.length_append, List.length_singleton] at hlen
    omega

/-- A place that stays in `p` leads to the names that remain of it. -/
theorem follow_eq {p q : Place} (h : q.ReturnsTo p) :
    p.follow q = ⟨p.start, p.names ++ q.remaining p⟩ := by
  obtain ⟨start, names⟩ := q
  cases start with
  | root =>
      obtain ⟨hstart, hprefix⟩ := h
      have hnames : names = p.names ++ names.drop p.names.length := List.prefix_append_drop hprefix
      show Place.mk .root names = ⟨p.start, p.names ++ names.drop p.names.length⟩
      rw [hstart, ← hnames]
  | above n =>
      obtain ⟨hclimb, hprefix⟩ := h
      have hstart : p.start.up (n - p.names.length) = p.start := by
        rw [up_eq_self_iff, Nat.sub_eq_zero_iff_le]
        exact hclimb
      have hlen : (p.names.drop (p.names.length - n)).length = min n p.names.length := by
        rw [List.length_drop]
        omega
      have hnames : names = _ ++ names.drop _ := List.prefix_append_drop hprefix
      rw [hlen] at hnames
      -- the names that are climbed away are entered again
      have hjoined : p.names.take (p.names.length - n) ++ names =
          p.names ++ names.drop (min n p.names.length) := by
        conv_lhs => rw [hnames]
        rw [← List.append_assoc, List.take_append_drop]
      show Place.mk (p.start.up (n - p.names.length))
          (p.names.take (p.names.length - n) ++ names) =
        ⟨p.start, p.names ++ names.drop (min n p.names.length)⟩
      rw [hstart, hjoined]

end Place

end Reasoning
