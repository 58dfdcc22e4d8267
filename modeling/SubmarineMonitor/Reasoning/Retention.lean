import Mathlib.Data.Finset.Sort
import Mathlib.Tactic.Common

/-!
# Retention — logs that keep the most recent keys

Records arrive under keys that never decrease.  Before each record the oldest key is dropped if more
than `n` are present.  Then the `n` most recent keys are always present (`Retained.recent`), and
reading the keys in order gives the records in the order they came (`flatMap_filter_key`).
-/

namespace Reasoning

variable {κ ρ : Type*} [LinearOrder κ]

def dropOldest (present : Finset κ) : Finset κ :=
  match present.sort (· ≤ ·) with
  | [] => present
  | oldest :: _ => present.erase oldest

def rotated (n : Nat) (present : Finset κ) : Finset κ :=
  if present.card ≤ n then present else dropOldest present

structure Retained (n : Nat) (dates present : Finset κ) : Prop where
  sub : present ⊆ dates
  card_le : present.card ≤ n + 1
  dropped : ∀ d ∈ dates, d ∉ present → n ≤ present.card ∧ ∀ e ∈ present, d < e

theorem retained_empty (n : Nat) : Retained n (∅ : Finset κ) ∅ where
  sub := Finset.Subset.refl _
  card_le := Nat.zero_le _
  dropped d hd := absurd hd (Finset.notMem_empty d)

theorem dropOldest_eq {present : Finset κ} (h : 0 < present.card) :
    ∃ oldest ∈ present, dropOldest present = present.erase oldest ∧
      ∀ e ∈ present.erase oldest, oldest < e := by
  unfold dropOldest
  cases hsort : present.sort (· ≤ ·) with
  | nil =>
      rw [← Finset.length_sort (· ≤ ·), hsort, List.length_nil] at h
      omega
  | cons oldest rest =>
      have hmem : ∀ e, e ∈ present ↔ e ∈ oldest :: rest := fun e ↦ by
        rw [← hsort, Finset.mem_sort]
      have hsorted := present.pairwise_sort (· ≤ ·)
      rw [hsort, List.pairwise_cons] at hsorted
      refine ⟨oldest, (hmem oldest).mpr List.mem_cons_self, rfl, fun e he ↦ ?_⟩
      obtain ⟨hne, he⟩ := Finset.mem_erase.mp he
      rcases List.mem_cons.mp ((hmem e).mp he) with heq | hrest
      · exact absurd heq hne
      · exact lt_of_le_of_ne (hsorted.1 e hrest) (Ne.symm hne)

theorem rotated_subset (n : Nat) (present : Finset κ) : rotated n present ⊆ present := by
  unfold rotated
  by_cases hfew : present.card ≤ n
  · rw [if_pos hfew]
  · rw [if_neg hfew]
    obtain ⟨oldest, -, hdrop, -⟩ := dropOldest_eq (show 0 < present.card by omega)
    rw [hdrop]
    exact Finset.erase_subset _ _

theorem Retained.rotate {n : Nat} {dates present : Finset κ} (h : Retained n dates present) :
    Retained n dates (rotated n present) ∧ (rotated n present).card ≤ n := by
  have hcard := h.card_le
  have hsub := (rotated_subset n present).trans h.sub
  unfold rotated at hsub ⊢
  by_cases hfew : present.card ≤ n
  · rw [if_pos hfew]
    exact ⟨h, hfew⟩
  · rw [if_neg hfew] at hsub ⊢
    obtain ⟨oldest, holdest, hdrop, hlt⟩ := dropOldest_eq (show 0 < present.card by omega)
    rw [hdrop] at hsub ⊢
    have herase : (present.erase oldest).card = n := by
      rw [Finset.card_erase_of_mem holdest]
      omega
    refine ⟨⟨hsub, by omega, fun d hd hout ↦ ⟨by omega, fun e he ↦ ?_⟩⟩, by omega⟩
    by_cases hpresent : d ∈ present
    · -- the key dropped now
      have heq : d = oldest := by
        by_contra hne
        exact hout (Finset.mem_erase.mpr ⟨hne, hpresent⟩)
      rw [heq]
      exact hlt e he
    · exact (h.dropped d hd hpresent).2 e (Finset.mem_of_mem_erase he)

/-- A record under a key that is not behind any other one. -/
theorem Retained.insert {n : Nat} {dates present : Finset κ} {today : κ}
    (h : Retained n dates present) (hcard : present.card ≤ n) (htoday : ∀ d ∈ dates, d ≤ today) :
    Retained n (insert today dates) (insert today present) := by
  refine ⟨Finset.insert_subset_insert _ h.sub, ?_, fun d hd hout ↦ ?_⟩
  · exact Nat.le_trans (Finset.card_insert_le _ _) (Nat.succ_le_succ hcard)
  · rw [Finset.mem_insert, not_or] at hout
    have hd' := Finset.mem_of_mem_insert_of_ne hd hout.1
    have hdrop := h.dropped d hd' hout.2
    refine ⟨Nat.le_trans hdrop.1 (Finset.card_le_card (Finset.subset_insert _ _)), ?_⟩
    intro e he
    rcases Finset.mem_insert.mp he with rfl | he
    · exact lt_of_le_of_ne (htoday d hd') hout.1
    · exact hdrop.2 e he

/-- Keys that were dropped never come back. -/
theorem Retained.notMem_dates {n : Nat} {dates present : Finset κ} {today : κ} (hn : 0 < n)
    (h : Retained n dates present) (htoday : ∀ d ∈ dates, d ≤ today) (hout : today ∉ present) :
    today ∉ dates := by
  intro hmem
  obtain ⟨hcard, hlt⟩ := h.dropped today hmem hout
  obtain ⟨d, hd⟩ := Finset.card_pos.mp (Nat.lt_of_lt_of_le hn hcard)
  exact absurd (hlt d hd) (not_lt_of_ge (htoday d (h.sub hd)))

theorem Retained.recent {n : Nat} {dates present : Finset κ} {d : κ}
    (h : Retained n dates present) (hd : d ∈ dates)
    (hrecent : (dates.filter (d < ·)).card < n) : d ∈ present := by
  by_contra hout
  have hdrop := h.dropped d hd hout
  -- if it were dropped, all that are present would be more recent
  have hsub : present ⊆ dates.filter (d < ·) := fun e he ↦
    Finset.mem_filter.mpr ⟨h.sub he, hdrop.2 e he⟩
  have hcard := Finset.card_le_card hsub
  omega

theorem Retained.eq_recent {n : Nat} {dates present : Finset κ} (h : Retained n dates present)
    (hcard : present.card ≤ n) :
    present = dates.filter fun d ↦ (dates.filter (d < ·)).card < n := by
  ext d
  rw [Finset.mem_filter]
  constructor
  · intro hd
    refine ⟨h.sub hd, ?_⟩
    -- all that is more recent is present, and `d` is not among it
    have hsub : dates.filter (d < ·) ⊆ present.erase d := by
      intro e he
      obtain ⟨hmem, hlt⟩ := Finset.mem_filter.mp he
      refine Finset.mem_erase.mpr ⟨ne_of_gt hlt, ?_⟩
      by_contra hout
      exact lt_asymm hlt ((h.dropped e hmem hout).2 d hd)
    have hle := Finset.card_le_card hsub
    have hpos := Finset.card_pos.mpr ⟨d, hd⟩
    rw [Finset.card_erase_of_mem hd] at hle
    omega
  · rintro ⟨hd, hrecent⟩
    exact h.recent hd hrecent

/-- With `n` keys or more in all, `n` of them are present. -/
theorem Retained.le_card {n : Nat} {dates present : Finset κ} (h : Retained n dates present)
    (hdates : n ≤ dates.card) : n ≤ present.card := by
  by_cases hall : dates ⊆ present
  · exact Nat.le_trans hdates (Finset.card_le_card hall)
  · obtain ⟨d, hd, hout⟩ := Finset.not_subset.mp hall
    exact (h.dropped d hd hout).1

/-- Rotation makes room before a record is kept, so a new key is one too many when there are `n`. -/
theorem Retained.insert_card_le_iff {n : Nat} {dates present : Finset κ} {today : κ} (hn : 0 < n)
    (h : Retained n dates present) (htoday : ∀ d ∈ dates, d ≤ today) :
    (Insert.insert today (rotated n present)).card ≤ n ↔
      (Insert.insert today dates).card ≤ n ∨ today ∈ dates := by
  obtain ⟨hrotate, hcard⟩ := h.rotate
  constructor
  · intro hle
    by_contra hnot
    rw [not_or] at hnot
    have hout : today ∉ rotated n present := fun hmem ↦ hnot.2 (hrotate.sub hmem)
    have hdates := Finset.card_insert_of_notMem hnot.2
    have hge := hrotate.le_card (show n ≤ dates.card by omega)
    rw [Finset.card_insert_of_notMem hout] at hle
    omega
  · rintro (hfew | hmem)
    · exact Nat.le_trans (Finset.card_le_card (Finset.insert_subset_insert _ hrotate.sub)) hfew
    · have hnone : dates.filter (today < ·) = ∅ := by
        rw [Finset.filter_eq_empty_iff]
        exact fun d hd ↦ not_lt_of_ge (htoday d hd)
      have hin := hrotate.recent hmem (by rw [hnone, Finset.card_empty]; exact hn)
      rw [Finset.insert_eq_of_mem hin]
      exact hcard

theorem dropOldest_map {κ' : Type*} [LinearOrder κ'] {f : κ ↪ κ'} (hf : StrictMono f)
    (present : Finset κ) : dropOldest (present.map f) = (dropOldest present).map f := by
  have hsort := StrictMonoOn.map_finsetSort f present (hf.strictMonoOn _)
  unfold dropOldest
  rw [← hsort]
  cases present.sort (· ≤ ·) with
  | nil => rfl
  | cons oldest rest => exact (Finset.map_erase f present oldest).symm

/-- Names in the order of their keys rotate as the keys do. -/
theorem rotated_map {κ' : Type*} [LinearOrder κ'] {f : κ ↪ κ'} (hf : StrictMono f) (n : Nat)
    (present : Finset κ) : rotated n (present.map f) = (rotated n present).map f := by
  unfold rotated
  rw [Finset.card_map]
  by_cases hfew : present.card ≤ n
  · rw [if_pos hfew, if_pos hfew]
  · rw [if_neg hfew, if_neg hfew, dropOldest_map hf]

/-! ## Reading key by key -/

theorem filter_or_of_pairwise {p q : ρ → Bool} {l : List ρ} (hdisj : ∀ x ∈ l, ¬ (p x ∧ q x))
    (h : l.Pairwise fun x y ↦ ¬ (q x ∧ p y)) :
    l.filter (fun x ↦ p x || q x) = l.filter p ++ l.filter q := by
  induction l with
  | nil => rfl
  | cons x l ih =>
      rw [List.pairwise_cons] at h
      have htail := ih (fun y hy ↦ hdisj y (List.mem_cons_of_mem x hy)) h.2
      by_cases hp : p x
      · have hq : ¬ q x := fun hq ↦ hdisj x List.mem_cons_self ⟨hp, hq⟩
        rw [List.filter_cons, if_pos (by simp [hp]), List.filter_cons, if_pos hp,
          List.filter_cons, if_neg hq, htail, List.cons_append]
      · by_cases hq : q x
        · -- behind an element of the second kind there is none of the first
          have hnone : l.filter p = [] := by
            rw [List.filter_eq_nil_iff]
            exact fun y hy hpy ↦ h.1 y hy ⟨hq, hpy⟩
          rw [List.filter_cons, if_pos (by simp [hq]), List.filter_cons, if_neg hp,
            List.filter_cons, if_pos hq, htail, hnone, List.nil_append, List.nil_append]
        · rw [List.filter_cons, if_neg (by simp [hp, hq]), List.filter_cons, if_neg hp,
            List.filter_cons, if_neg hq, htail]

/-- The records read key by key, in key order, are the records in the order they came. -/
theorem flatMap_filter_key {log : List (κ × ρ)} {keys : List κ}
    (hlog : log.Pairwise (·.1 ≤ ·.1)) (hkeys : keys.Pairwise (· < ·)) :
    keys.flatMap (fun k ↦ log.filter (fun x ↦ x.1 = k)) =
      log.filter (fun x ↦ x.1 ∈ keys) := by
  -- induction on the keys: the records of the first one come before all others
  induction keys with
  | nil =>
      rw [List.flatMap_nil, eq_comm, List.filter_eq_nil_iff]
      exact fun x _ ↦ by simp
  | cons k keys ih =>
      rw [List.pairwise_cons] at hkeys
      rw [List.flatMap_cons, ih hkeys.2]
      have hor : ∀ x : κ × ρ, decide (x.1 ∈ k :: keys) =
          (decide (x.1 = k) || decide (x.1 ∈ keys)) := fun x ↦ by
        simp [List.mem_cons]
      simp only [hor]
      refine (filter_or_of_pairwise (fun x _ hx ↦ ?_) (hlog.imp fun hxy hqp ↦ ?_)).symm
      · simp only [decide_eq_true_eq] at hx
        have hlt := hkeys.1 x.1 hx.2
        rw [hx.1] at hlt
        exact lt_irrefl _ hlt
      · simp only [decide_eq_true_eq] at hqp
        have hlt := hkeys.1 _ hqp.1
        rw [← hqp.2] at hlt
        exact absurd hxy (not_le_of_gt hlt)

/-- What is kept once it has started to be kept is a tail. -/
theorem filter_eq_dropWhile {p : ρ → Bool} {l : List ρ} (h : l.Pairwise fun x y ↦ p x → p y) :
    l.filter p = l.dropWhile fun x ↦ !p x := by
  induction l with
  | nil => rfl
  | cons x l ih =>
      obtain ⟨hx, hl⟩ := List.pairwise_cons.mp h
      by_cases hp : p x = true
      · rw [List.dropWhile_cons_of_neg (by rw [hp]; decide), List.filter_eq_self]
        exact List.forall_mem_cons.mpr ⟨hp, fun y hy ↦ hx y hy hp⟩
      · rw [List.filter_cons_of_neg hp, ih hl,
          List.dropWhile_cons_of_pos (by rw [Bool.eq_false_iff.mpr hp]; rfl)]

end Reasoning
