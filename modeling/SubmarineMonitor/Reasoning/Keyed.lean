import Mathlib.Data.List.Basic
import Mathlib.Data.List.Forall2
import Mathlib.Data.List.Nodup
import Mathlib.Tactic.Common

/-!
# Keyed — records found by a key, and a symmetric relation kept as lists of neighbours

Records stand in a list and are found and edited by their key, the first match only.  `Linked` is a
symmetric, irreflexive relation between keys of live records that every record keeps its own side of;
one rule for each kind of edit says when it is kept.
-/

namespace Reasoning

variable {α κ : Type*}

/-! ## 1. Finding and editing by key -/

theorem forall₂_mem_right {R : α → α → Prop} {xs ys : List α} (h : List.Forall₂ R xs ys) {y : α}
    (hy : y ∈ ys) : ∃ x ∈ xs, R x y := by
  induction h with
  | nil => exact absurd hy List.not_mem_nil
  | @cons x y' xs ys hxy _ ih =>
      rcases List.mem_cons.mp hy with rfl | hy
      · exact ⟨x, List.mem_cons_self, hxy⟩
      · obtain ⟨z, hz, hzy⟩ := ih hy
        exact ⟨z, List.mem_cons_of_mem x hz, hzy⟩

theorem map_key_eq {key : α → κ} {xs ys : List α}
    (h : List.Forall₂ (fun x y ↦ key y = key x) xs ys) : ys.map key = xs.map key := by
  induction h with
  | nil => rfl
  | cons hxy _ ih => rw [List.map_cons, List.map_cons, hxy, ih]

theorem forall₂_mem_left {R : α → α → Prop} {xs ys : List α} (h : List.Forall₂ R xs ys) {x : α}
    (hx : x ∈ xs) : ∃ y ∈ ys, R x y :=
  forall₂_mem_right h.flip hx

theorem map_key_map {key : α → κ} {f : α → α} {xs : List α} (hf : ∀ x ∈ xs, key (f x) = key x) :
    (xs.map f).map key = xs.map key := by
  rw [List.map_map]
  exact List.map_congr_left hf

section Records
variable [DecidableEq κ] (key : α → κ)

def findKey (k : κ) (xs : List α) : Option α := xs.find? fun x ↦ key x = k

def updateKey (k : κ) (f : α → α) : List α → List α
  | [] => []
  | x :: xs => if key x = k then f x :: xs else x :: updateKey k f xs

def updateKeys (ks : List κ) (f : α → α) (xs : List α) : List α :=
  xs.map fun x ↦ if key x ∈ ks then f x else x

variable {key}

theorem findKey_some {k : κ} {x : α} {xs : List α} (h : findKey key k xs = some x) :
    x ∈ xs ∧ key x = k :=
  ⟨List.mem_of_find?_eq_some h, of_decide_eq_true (List.find?_some (p := fun x ↦ key x = k) h)⟩

theorem findKey_none {k : κ} {xs : List α} (h : findKey key k xs = none) :
    ∀ x ∈ xs, key x ≠ k :=
  fun x hx hk ↦ List.find?_eq_none.mp h x hx (decide_eq_true hk)

theorem findKey_cons {k : κ} (x : α) (xs : List α) :
    findKey key k (x :: xs) = if key x = k then some x else findKey key k xs := by
  by_cases hx : key x = k
  · rw [if_pos hx]
    exact List.find?_cons_of_pos (decide_eq_true hx)
  · rw [if_neg hx]
    exact List.find?_cons_of_neg (by rw [decide_eq_true_iff]; exact hx)

theorem mem_updateKey {k : κ} {f : α → α} {xs : List α} {y : α} (hy : y ∈ updateKey key k f xs) :
    y ∈ xs ∨ ∃ x, findKey key k xs = some x ∧ y = f x := by
  induction xs with
  | nil => exact .inl hy
  | cons x xs ih =>
      rw [updateKey] at hy
      rw [findKey_cons]
      by_cases hx : key x = k
      · rw [if_pos hx, List.mem_cons] at hy
        rw [if_pos hx]
        exact hy.elim (fun hy ↦ .inr ⟨x, rfl, hy⟩) fun hy ↦ .inl (List.mem_cons_of_mem x hy)
      · rw [if_neg hx, List.mem_cons] at hy
        rw [if_neg hx]
        rcases hy with rfl | hy
        · exact .inl List.mem_cons_self
        · exact (ih hy).imp_left (List.mem_cons_of_mem x)

/-- An edit that keeps the key shows behind its key and nowhere else. -/
theorem findKey_updateKey {j k : κ} {f : α → α} {xs : List α}
    (hf : ∀ x, findKey key k xs = some x → key (f x) = k) :
    findKey key j (updateKey key k f xs) =
      if j = k then (findKey key k xs).map f else findKey key j xs := by
  induction xs with
  | nil => exact (ite_self _).symm
  | cons x xs ih =>
      rw [findKey_cons] at hf
      rw [updateKey, findKey_cons, findKey_cons]
      by_cases hx : key x = k
      · rw [if_pos hx, if_pos hx, findKey_cons, hf x (if_pos hx), hx]
        by_cases hj : j = k
        · rw [if_pos hj, if_pos hj.symm]
          rfl
        · rw [if_neg hj, if_neg (Ne.symm hj), if_neg (Ne.symm hj)]
      · rw [if_neg hx] at hf
        rw [if_neg hx, if_neg hx, findKey_cons, ih hf]
        by_cases hj : j = k
        · rw [if_pos hj, if_pos hj, if_neg (hj ▸ hx)]
        · rw [if_neg hj, if_neg hj]

/-- With distinct keys the first record with a key is the only one. -/
theorem updateKey_eq_map {k : κ} {f : α → α} {xs : List α} (hkeys : (xs.map key).Nodup) :
    updateKey key k f xs = xs.map fun x ↦ if key x = k then f x else x := by
  induction xs with
  | nil => rfl
  | cons x xs ih =>
      rw [List.map_cons, List.nodup_cons] at hkeys
      rw [updateKey, List.map_cons]
      by_cases hx : key x = k
      · have hrest : xs.map (fun x ↦ if key x = k then f x else x) = xs := by
          refine (List.map_congr_left fun y hy ↦ if_neg ?_).trans (List.map_id xs)
          intro hyk
          rw [hx, ← hyk] at hkeys
          exact hkeys.1 (List.mem_map_of_mem hy)
        rw [if_pos hx, if_pos hx, hrest]
      · rw [if_neg hx, if_neg hx, ih hkeys.2]

theorem key_updateKeys {ks : List κ} {f : α → α} (hkey : ∀ x, key (f x) = key x) (x : α) :
    key (if key x ∈ ks then f x else x) = key x := by
  by_cases hx : key x ∈ ks
  · rw [if_pos hx, hkey]
  · rw [if_neg hx]

theorem map_key_updateKeys {ks : List κ} {f : α → α} (hkey : ∀ x, key (f x) = key x)
    (xs : List α) : (updateKeys key ks f xs).map key = xs.map key :=
  map_key_map fun x _ ↦ key_updateKeys hkey x

theorem updateKeys_nil (f : α → α) (xs : List α) : updateKeys key [] f xs = xs :=
  (List.map_congr_left fun _ _ ↦ if_neg List.not_mem_nil).trans (List.map_id xs)

theorem updateKey_eq_updateKeys {k : κ} {f : α → α} {xs : List α} (hkeys : (xs.map key).Nodup) :
    updateKey key k f xs = updateKeys key [k] f xs := by
  rw [updateKey_eq_map hkeys, updateKeys]
  simp only [List.mem_singleton]

/-- Editing the records of several keys by an idempotent edit is one pass over the records. -/
theorem foldl_updateKey {f : α → α} (hkey : ∀ x, key (f x) = key x) (hidem : ∀ x, f (f x) = f x)
    (ks : List κ) {xs : List α} (hkeys : (xs.map key).Nodup) :
    ks.foldl (fun xs k ↦ updateKey key k f xs) xs = updateKeys key ks f xs := by
  -- induction on the keys, from the records the first edit leaves
  induction ks generalizing xs with
  | nil => exact (updateKeys_nil f xs).symm
  | cons k ks ih =>
      rw [List.foldl_cons, updateKey_eq_updateKeys hkeys,
        ih (by rw [map_key_updateKeys hkey]; exact hkeys), updateKeys, updateKeys, updateKeys,
        List.map_map]
      apply List.map_congr_left
      intro x hx
      rw [Function.comp_apply, key_updateKeys hkey]
      by_cases hk : key x = k
      · have hsingle : key x ∈ [k] := List.mem_singleton.mpr hk
        have hcons : key x ∈ k :: ks := List.mem_cons.mpr (.inl hk)
        rw [if_pos hsingle, hidem, ite_self, if_pos hcons]
      · rw [if_neg (List.mem_singleton.not.mpr hk)]
        by_cases hks : key x ∈ ks
        · rw [if_pos hks, if_pos (List.mem_cons_of_mem k hks)]
        · rw [if_neg hks, if_neg fun h ↦ (List.mem_cons.mp h).elim hk hks]

/-- The edits of several keys and then of another one, as one pass. -/
theorem updateKey_updateKeys {k : κ} {ks : List κ} {f g : α → α} (hkey : ∀ x, key (f x) = key x)
    (hk : k ∉ ks) {xs : List α} (hkeys : (xs.map key).Nodup) :
    updateKey key k g (updateKeys key ks f xs) =
      xs.map fun x ↦ if key x = k then g x else if key x ∈ ks then f x else x := by
  rw [updateKey_eq_map (by rw [map_key_updateKeys hkey]; exact hkeys), updateKeys, List.map_map]
  apply List.map_congr_left
  intro x hx
  rw [Function.comp_apply, key_updateKeys hkey]
  by_cases hxk : key x = k
  · rw [if_pos hxk, if_pos hxk, if_neg (hxk ▸ hk)]
  · rw [if_neg hxk, if_neg hxk]

end Records

/-! ## 2. A relation kept on both sides -/

def appendNew [DecidableEq κ] (k : κ) (ks : List κ) : List κ := if k ∈ ks then ks else ks ++ [k]

theorem mem_appendNew [DecidableEq κ] {j k : κ} {ks : List κ} : j ∈ appendNew k ks ↔ j ∈ ks ∨ j = k := by
  unfold appendNew
  by_cases h : k ∈ ks
  · rw [if_pos h]
    constructor
    · exact .inl
    · rintro (hj | rfl)
      · exact hj
      · exact h
  · rw [if_neg h, List.mem_append, List.mem_singleton]

theorem nodup_appendNew [DecidableEq κ] {k : κ} {ks : List κ} (h : ks.Nodup) : (appendNew k ks).Nodup := by
  unfold appendNew
  by_cases hk : k ∈ ks
  · rwa [if_pos hk]
  · rw [if_neg hk]
    exact List.nodup_append.mpr ⟨h, List.nodup_singleton k, fun a ha b hb ↦ by
      rw [List.mem_singleton.mp hb]
      rintro rfl
      exact hk ha⟩

section Linked
variable (key : α → κ) (links : α → List κ) (live : α → Prop)

/-- Keys are distinct, no record is its own neighbour or names one twice, and each neighbour is a
    live record that names it back. -/
structure Linked (xs : List α) : Prop where
  keys : (xs.map key).Nodup
  nodup : ∀ x ∈ xs, (links x).Nodup
  irrefl : ∀ x ∈ xs, key x ∉ links x
  symm : ∀ x ∈ xs, ∀ k ∈ links x, ∃ y ∈ xs, key y = k ∧ live y ∧ key x ∈ links y

variable {key links live}

theorem linked_nil : Linked key links live [] where
  keys := List.nodup_nil
  nodup := fun _ h ↦ absurd h List.not_mem_nil
  irrefl := fun _ h ↦ absurd h List.not_mem_nil
  symm := fun _ h ↦ absurd h List.not_mem_nil

theorem Linked.append {xs : List α} (h : Linked key links live xs) {x : α}
    (hkey : ∀ y ∈ xs, key y ≠ key x) (hlinks : links x = []) :
    Linked key links live (xs ++ [x]) where
  keys := by
    rw [List.map_append, List.map_singleton]
    refine List.nodup_append.mpr ⟨h.keys, List.nodup_singleton _, fun a ha b hb ↦ ?_⟩
    obtain ⟨y, hy, rfl⟩ := List.mem_map.mp ha
    rw [List.mem_singleton.mp hb]
    exact hkey y hy
  nodup := by
    rw [List.forall_mem_append, List.forall_mem_singleton, hlinks]
    exact ⟨h.nodup, List.nodup_nil⟩
  irrefl := by
    rw [List.forall_mem_append, List.forall_mem_singleton, hlinks]
    exact ⟨h.irrefl, List.not_mem_nil⟩
  symm := by
    rw [List.forall_mem_append, List.forall_mem_singleton, hlinks]
    constructor
    · intro y hy k hk
      obtain ⟨z, hz, hfacts⟩ := h.symm y hy k hk
      exact ⟨z, List.mem_append_left _ hz, hfacts⟩
    · exact fun k hk ↦ absurd hk List.not_mem_nil

/-- Records are replaced one by one, with their keys, their neighbours and live records kept. -/
theorem Linked.frame {xs ys : List α} (h : Linked key links live xs)
    (hrel : List.Forall₂ (fun x y ↦ key y = key x ∧ links y = links x ∧ (live x → live y)) xs ys) :
    Linked key links live ys where
  keys := by
    rw [map_key_eq (hrel.imp fun _ _ hxy ↦ hxy.1)]
    exact h.keys
  nodup := by
    intro y hy
    obtain ⟨x, hx, hxy⟩ := forall₂_mem_right hrel hy
    rw [hxy.2.1]
    exact h.nodup x hx
  irrefl := by
    intro y hy
    obtain ⟨x, hx, hxy⟩ := forall₂_mem_right hrel hy
    rw [hxy.1, hxy.2.1]
    exact h.irrefl x hx
  symm := by
    intro y hy k hk
    obtain ⟨x, hx, hxy⟩ := forall₂_mem_right hrel hy
    rw [hxy.2.1] at hk
    obtain ⟨z, hz, hzk, hzlive, hback⟩ := h.symm x hx k hk
    obtain ⟨w, hw, hzw⟩ := forall₂_mem_left hrel hz
    rw [hxy.1]
    exact ⟨w, hw, hzw.1.trans hzk, hzw.2.2 hzlive, hzw.2.1 ▸ hback⟩

theorem Linked.connect [DecidableEq κ] {xs : List α} (h : Linked key links live xs) {a b : α} {f : α → α}
    (ha : a ∈ xs) (hb : b ∈ xs) (hne : key a ≠ key b) (halive : live a) (hblive : live b)
    (hkey : ∀ x ∈ xs, key (f x) = key x) (hlive : ∀ x ∈ xs, live x → live (f x))
    (hfa : links (f a) = appendNew (key b) (links a))
    (hfb : links (f b) = appendNew (key a) (links b))
    (hother : ∀ x ∈ xs, key x ≠ key a → key x ≠ key b → links (f x) = links x) :
    Linked key links live (xs.map f) := by
  have hunique {x y : α} (hx : x ∈ xs) (hy : y ∈ xs) (hxy : key x = key y) : x = y :=
    List.inj_on_of_nodup_map h.keys hx hy hxy
  -- a link is an old one or one of the two new ones
  have hcases : ∀ x ∈ xs, ∀ k, k ∈ links (f x) ↔
      k ∈ links x ∨ (x = a ∧ k = key b) ∨ (x = b ∧ k = key a) := by
    intro x hx k
    by_cases hxa : key x = key a
    · obtain rfl := hunique hx ha hxa
      have hxb : x ≠ b := fun he ↦ hne (he ▸ rfl)
      simp only [hfa, mem_appendNew, hxb, true_and, false_and, or_false]
    · by_cases hxb : key x = key b
      · obtain rfl := hunique hx hb hxb
        have hxa' : x ≠ a := fun he ↦ hxa (he ▸ rfl)
        simp only [hfb, mem_appendNew, hxa', true_and, false_and, false_or]
      · have hxa' : x ≠ a := fun he ↦ hxa (he ▸ rfl)
        have hxb' : x ≠ b := fun he ↦ hxb (he ▸ rfl)
        simp only [hother x hx hxa hxb, hxa', hxb', false_and, or_false]
  exact {
    keys := by
      rw [map_key_map hkey]
      exact h.keys
    nodup := by
      rw [List.forall_mem_map]
      intro x hx
      by_cases hxa : key x = key a
      · rw [hunique hx ha hxa, hfa]
        exact nodup_appendNew (h.nodup a ha)
      · by_cases hxb : key x = key b
        · rw [hunique hx hb hxb, hfb]
          exact nodup_appendNew (h.nodup b hb)
        · rw [hother x hx hxa hxb]
          exact h.nodup x hx
    irrefl := by
      rw [List.forall_mem_map]
      intro x hx hmem
      rw [hkey x hx, hcases x hx] at hmem
      rcases hmem with hold | ⟨rfl, hkb⟩ | ⟨rfl, hka⟩
      · exact h.irrefl x hx hold
      · exact hne hkb
      · exact hne hka.symm
    symm := by
      rw [List.forall_mem_map]
      intro x hx k hk
      rw [hkey x hx]
      rcases (hcases x hx k).mp hk with hold | ⟨rfl, rfl⟩ | ⟨rfl, rfl⟩
      · obtain ⟨y, hy, hyk, hylive, hback⟩ := h.symm x hx k hold
        exact ⟨f y, List.mem_map_of_mem hy, (hkey y hy).trans hyk, hlive y hy hylive,
          (hcases y hy _).mpr (.inl hback)⟩
      · exact ⟨f b, List.mem_map_of_mem hb, hkey b hb, hlive b hb hblive,
          (hcases b hb _).mpr (.inr (.inr ⟨rfl, rfl⟩))⟩
      · exact ⟨f a, List.mem_map_of_mem ha, hkey a ha, hlive a ha halive,
          (hcases a ha _).mpr (.inr (.inl ⟨rfl, rfl⟩))⟩ }

/-- A record leaves: it keeps no neighbour and no record keeps it. -/
theorem Linked.isolate [DecidableEq κ] {xs : List α} (h : Linked key links live xs) {a : α} {f : α → α}
    (ha : a ∈ xs) (hkey : ∀ x ∈ xs, key (f x) = key x)
    (hlive : ∀ x ∈ xs, key x ≠ key a → live x → live (f x)) (hfa : links (f a) = [])
    (hother : ∀ x ∈ xs, key x ≠ key a → links (f x) = (links x).filter (· ≠ key a)) :
    Linked key links live (xs.map f) := by
  have hcases : ∀ x ∈ xs, ∀ k, k ∈ links (f x) → key x ≠ key a ∧ k ∈ links x ∧ k ≠ key a := by
    intro x hx k hk
    by_cases hxa : key x = key a
    · rw [List.inj_on_of_nodup_map h.keys hx ha hxa, hfa] at hk
      exact absurd hk List.not_mem_nil
    · rw [hother x hx hxa, List.mem_filter] at hk
      exact ⟨hxa, hk.1, of_decide_eq_true hk.2⟩
  exact {
    keys := by
      rw [map_key_map hkey]
      exact h.keys
    nodup := by
      rw [List.forall_mem_map]
      intro x hx
      by_cases hxa : key x = key a
      · rw [List.inj_on_of_nodup_map h.keys hx ha hxa, hfa]
        exact List.nodup_nil
      · rw [hother x hx hxa]
        exact (h.nodup x hx).filter _
    irrefl := by
      rw [List.forall_mem_map]
      intro x hx hmem
      rw [hkey x hx] at hmem
      exact h.irrefl x hx (hcases x hx _ hmem).2.1
    symm := by
      rw [List.forall_mem_map]
      intro x hx k hk
      rw [hkey x hx]
      obtain ⟨hxa, hold, hka⟩ := hcases x hx k hk
      obtain ⟨y, hy, hyk, hylive, hback⟩ := h.symm x hx k hold
      have hya : key y ≠ key a := hyk.symm ▸ hka
      refine ⟨f y, List.mem_map_of_mem hy, (hkey y hy).trans hyk, hlive y hy hya hylive, ?_⟩
      rw [hother y hy hya, List.mem_filter]
      exact ⟨hback, decide_eq_true hxa⟩ }

end Linked

end Reasoning
