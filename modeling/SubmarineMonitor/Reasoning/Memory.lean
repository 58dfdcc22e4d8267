import Mathlib.Data.List.GetD
import Mathlib.Tactic.Common

/-!
# Memory — flat memories and the lists read from and written to them

A memory is a total function from addresses to cells, so that a read past the end of an object is
"whatever lies there" and a statement about stale cells is a statement about two memories.  A run
of cells is read as a list (`slice`) and written from one (`store`); the lemmas below say how the
two compose, and every index-driven loop is proved against the list it walks.
-/

namespace Reasoning

/-- A flat memory with cells in `α`, addressed from the object's first cell. -/
abbrev Memory (α : Type*) := Nat → α

variable {α : Type*}

def slice (m : Memory α) (off : Nat) : Nat → List α
  | 0 => []
  | n + 1 => m off :: slice m (off + 1) n

/-- The memory seen through the pointer `m + k`. -/
def advance (m : Memory α) (k : Nat) : Memory α := fun i ↦ m (k + i)

def store (m : Memory α) (off : Nat) (l : List α) : Memory α :=
  fun i ↦ if off ≤ i then l.getD (i - off) (m i) else m i

/-- A memory that holds `l` from address 0 on and `d` behind it. -/
def ofList (l : List α) (d : α) : Memory α := fun i ↦ l.getD i d

/-! ## 1. Reading -/

@[simp] theorem slice_zero (m : Memory α) (off : Nat) : slice m off 0 = [] := rfl

theorem slice_succ (m : Memory α) (off n : Nat) :
    slice m off (n + 1) = m off :: slice m (off + 1) n := rfl

@[simp] theorem slice_length (m : Memory α) (off n : Nat) : (slice m off n).length = n := by
  induction n generalizing off with
  | zero => rfl
  | succ n ih => rw [slice_succ, List.length_cons, ih]

theorem slice_add (m : Memory α) (off a b : Nat) :
    slice m off (a + b) = slice m off a ++ slice m (off + a) b := by
  induction a generalizing off with
  | zero => simp only [Nat.zero_add, Nat.add_zero, slice_zero, List.nil_append]
  | succ a ih =>
      rw [show a + 1 + b = (a + b) + 1 by omega, slice_succ, slice_succ, ih, List.cons_append,
        show off + 1 + a = off + (a + 1) by omega]

@[simp] theorem slice_advance (m : Memory α) (k off n : Nat) :
    slice (advance m k) off n = slice m (k + off) n := by
  induction n generalizing off with
  | zero => rfl
  | succ n ih => rw [slice_succ, slice_succ, ih]; rfl

@[simp] theorem advance_apply (m : Memory α) (k i : Nat) : advance m k i = m (k + i) := rfl

theorem slice_congr {m m' : Memory α} {off n : Nat}
    (h : ∀ i, off ≤ i → i < off + n → m i = m' i) : slice m off n = slice m' off n := by
  induction n generalizing off with
  | zero => rfl
  | succ n ih =>
      rw [slice_succ, slice_succ, h off (Nat.le_refl _) (by omega),
        ih fun i hlo hhi ↦ h i (by omega) (by omega)]

theorem getElem?_slice (m : Memory α) (off n i : Nat) (hi : i < n) :
    (slice m off n)[i]? = some (m (off + i)) := by
  induction n generalizing off i with
  | zero => omega
  | succ n ih =>
      cases i with
      | zero => rfl
      | succ i =>
          rw [slice_succ, List.getElem?_cons_succ, ih (off + 1) i (by omega)]
          congr 2; omega

/-- The head of the unread cells `[i, n)`, while there is one. -/
theorem slice_sub_of_lt (m : Memory α) {i n : Nat} (h : i < n) :
    slice m i (n - i) = m i :: slice m (i + 1) (n - (i + 1)) := by
  rw [show n - i = (n - (i + 1)) + 1 by omega, slice_succ]

theorem slice_sub_of_ge (m : Memory α) {i n : Nat} (h : n ≤ i) : slice m i (n - i) = [] := by
  rw [Nat.sub_eq_zero_of_le h, slice_zero]

theorem slice_take (m : Memory α) (off : Nat) {k n : Nat} (h : k ≤ n) :
    (slice m off n).take k = slice m off k := by
  rw [show n = k + (n - k) by omega, slice_add]
  exact List.take_left' (slice_length m off k)

theorem slice_drop (m : Memory α) (off : Nat) {k n : Nat} (h : k ≤ n) :
    (slice m off n).drop k = slice m (off + k) (n - k) := by
  conv_lhs => rw [show n = k + (n - k) by omega, slice_add]
  exact List.drop_left' (slice_length m off k)

theorem slice_skip (m : Memory α) {off k n : Nat} (h : off + k ≤ n) :
    slice m (off + k) (n - (off + k)) = (slice m off (n - off)).drop k := by
  rw [slice_drop m off (by omega), Nat.sub_sub]

/-! ## 2. Writing -/

theorem store_of_lt (m : Memory α) (l : List α) {off i : Nat} (h : i < off) :
    store m off l i = m i := by
  unfold store
  rw [if_neg (by omega)]

theorem store_of_mem (m : Memory α) (l : List α) {off i : Nat} (hlo : off ≤ i)
    (hhi : i < off + l.length) : store m off l i = l.get ⟨i - off, by omega⟩ := by
  unfold store
  rw [if_pos hlo, List.getD_eq_getElem _ _ (by omega)]
  rfl

theorem store_of_ge (m : Memory α) (l : List α) {off i : Nat} (h : off + l.length ≤ i) :
    store m off l i = m i := by
  unfold store
  rw [if_pos (by omega), List.getD_eq_default _ _ (by omega)]

@[simp] theorem store_nil (m : Memory α) (off : Nat) : store m off [] = m := by
  funext i
  unfold store
  rw [List.getD_nil, ite_self]

theorem slice_store (m : Memory α) (off : Nat) (l : List α) :
    slice (store m off l) off l.length = l := by
  apply List.ext_getElem?
  intro i
  by_cases hi : i < l.length
  · rw [getElem?_slice _ _ _ _ hi, store_of_mem m l (by omega) (by omega)]
    simp only [Nat.add_sub_cancel_left, List.get_eq_getElem, List.getElem?_eq_getElem hi]
  · rw [List.getElem?_eq_none (by rw [slice_length]; omega), List.getElem?_eq_none (by omega)]

theorem slice_store_of_length (m : Memory α) (off n : Nat) {l : List α} (h : l.length = n) :
    slice (store m off l) off n = l := by
  rw [← h, slice_store]

theorem slice_store_before (m : Memory α) (l : List α) {off at_ n : Nat} (h : off + n ≤ at_) :
    slice (store m at_ l) off n = slice m off n :=
  slice_congr fun _ _ hi ↦ store_of_lt m l (by omega)

/-- Appending `l` to the `n` cells already written at the front of a buffer. -/
theorem slice_store_append (m : Memory α) (off n : Nat) (l : List α) :
    slice (store m (off + n) l) off (n + l.length) = slice m off n ++ l := by
  rw [slice_add, slice_store_before m l (Nat.le_refl _), slice_store]

theorem store_append (m : Memory α) (off : Nat) (l r : List α) :
    store (store m off l) (off + l.length) r = store m off (l ++ r) := by
  funext i
  unfold store
  by_cases hlo : off ≤ i
  · by_cases hl : i - off < l.length
    · rw [if_neg (by omega), if_pos hlo, if_pos hlo, List.getD_append _ _ _ _ hl,
        List.getD_eq_getElem _ _ hl]
    · rw [if_pos (by omega), if_pos hlo, if_pos hlo, List.getD_append_right _ _ _ _ (by omega),
        List.getD_eq_default l _ (by omega), Nat.sub_add_eq]
  · rw [if_neg (by omega), if_neg hlo, if_neg hlo]

/-! ## 3. Memories that hold a list -/

theorem slice_ofList (l : List α) (d : α) : slice (ofList l d) 0 l.length = l := by
  apply List.ext_getElem?
  intro i
  by_cases hi : i < l.length
  · rw [getElem?_slice _ _ _ _ hi, ofList, Nat.zero_add, List.getD_eq_getElem?_getD,
      List.getElem?_eq_getElem hi, Option.getD_some]
  · rw [List.getElem?_eq_none (by rw [slice_length]; omega), List.getElem?_eq_none (by omega)]

/-! ## 4. The cells a computation writes -/

def Writes (f : Memory α → Memory α) (i : Nat) : Prop := ∃ m, f m i ≠ m i

/-- A store of a fixed list writes the cells under the list. -/
theorem writes_store_iff [Nontrivial α] (l : List α) (off i : Nat) :
    Writes (fun m ↦ store m off l) i ↔ off ≤ i ∧ i < off + l.length := by
  constructor
  · rintro ⟨m, hm⟩
    by_contra hout
    rw [not_and_or, Nat.not_le, Nat.not_lt] at hout
    cases hout with
    | inl hlo => exact hm (store_of_lt m l hlo)
    | inr hhi => exact hm (store_of_ge m l hhi)
  · intro hin
    obtain ⟨d, hd⟩ := exists_ne (l.get ⟨i - off, by omega⟩)
    refine ⟨fun _ ↦ d, fun heq ↦ hd ?_⟩
    rw [← store_of_mem (fun _ ↦ d) l hin.1 hin.2]
    exact heq.symm

end Reasoning
