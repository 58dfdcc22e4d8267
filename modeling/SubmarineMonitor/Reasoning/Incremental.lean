import Mathlib.Data.List.Basic
import Mathlib.Tactic.Common

/-!
# Incremental — decoders that are called again when more has arrived

A decoder looks at the front of a buffer and hands out a result with the number of symbols to discard,
or asks for more.  When what it hands out is not changed by what arrives behind it, a loop that decodes
and discards hands out the same results however the stream is cut into chunks (`feed_eq_drain`).  A
decoder that is one on buffers of a bounded length will do, as long as the buffers of the loop are no
longer (`feed_eq_feed`).
-/

namespace Reasoning

variable {α ω : Type*}

structure Incremental (decode : List α → Option (ω × Nat)) : Prop where
  consumes : ∀ {l o n}, decode l = some (o, n) → 0 < n ∧ n ≤ l.length
  stable : ∀ {l p} (s), decode l = some p → decode (l ++ s) = some p

def drainLoop (decode : List α → Option (ω × Nat)) : Nat → List α → List ω × List α
  | 0, l => ([], l)
  | fuel + 1, l =>
      match decode l with
      | none => ([], l)
      | some (o, n) =>
          (o :: (drainLoop decode fuel (l.drop n)).1, (drainLoop decode fuel (l.drop n)).2)

/-- Decoding and discarding while the decoder has a result; every result discards something. -/
def drain (decode : List α → Option (ω × Nat)) (l : List α) : List ω × List α :=
  drainLoop decode l.length l

def feed (decode : List α → Option (ω × Nat)) : List α → List (List α) → List ω × List α
  | kept, [] => ([], kept)
  | kept, chunk :: chunks =>
      let now := drain decode (kept ++ chunk)
      let later := feed decode now.2 chunks
      (now.1 ++ later.1, later.2)

def FeedsWithin (bound : Nat) (decode : List α → Option (ω × Nat)) : List α → List (List α) → Prop
  | _, [] => True
  | kept, chunk :: chunks =>
      (kept ++ chunk).length ≤ bound ∧ FeedsWithin bound decode (drain decode (kept ++ chunk)).2 chunks

section Drain

variable {decode : List α → Option (ω × Nat)} {l : List α}

theorem Incremental.nil (h : Incremental decode) : decode [] = none := by
  cases hdecode : decode [] with
  | none => rfl
  | some p =>
      have hn := @h.consumes [] p.1 p.2 hdecode
      rw [List.length_nil] at hn
      omega

theorem drainLoop_none (hl : decode l = none) (fuel : Nat) : drainLoop decode fuel l = ([], l) := by
  cases fuel with
  | zero => rfl
  | succ fuel => rw [drainLoop, hl]

theorem drainLoop_eq (h : Incremental decode) {fuel : Nat} (hfuel : l.length ≤ fuel) :
    drainLoop decode fuel l = drain decode l := by
  -- both loops make the same steps, and each step leaves fewer symbols
  have hloop : ∀ fuel fuel' l, l.length ≤ fuel → l.length ≤ fuel' →
      drainLoop decode fuel l = drainLoop decode fuel' l := by
    intro fuel
    induction fuel with
    | zero =>
        intro fuel' l hfuel _
        have hnil : l = [] := List.length_eq_zero_iff.mp (Nat.le_zero.mp hfuel)
        rw [hnil, drainLoop_none h.nil, drainLoop_none h.nil]
    | succ fuel ih =>
        intro fuel' l hfuel hfuel'
        cases hdecode : decode l with
        | none => rw [drainLoop_none hdecode, drainLoop_none hdecode]
        | some p =>
            obtain ⟨o, n⟩ := p
            obtain ⟨hpos, hle⟩ := h.consumes hdecode
            have hlen : (l.drop n).length = l.length - n := List.length_drop
            cases fuel' with
            | zero => omega
            | succ fuel' =>
                rw [drainLoop, drainLoop, hdecode]
                dsimp only
                rw [ih fuel' (l.drop n) (by omega) (by omega)]
  exact hloop fuel l.length l hfuel (Nat.le_refl _)

theorem drain_some (h : Incremental decode) {o : ω} {n : Nat} (hdecode : decode l = some (o, n)) :
    drain decode l = (o :: (drain decode (l.drop n)).1, (drain decode (l.drop n)).2) := by
  obtain ⟨hpos, hle⟩ := h.consumes hdecode
  have hlen : (l.drop n).length = l.length - n := List.length_drop
  obtain ⟨k, hk⟩ : ∃ k, l.length = k + 1 := ⟨l.length - 1, by omega⟩
  rw [drain, hk, drainLoop, hdecode]
  dsimp only
  rw [drainLoop_eq h (by omega)]

theorem drain_left (h : Incremental decode) : decode (drain decode l).2 = none := by
  induction hn : l.length using Nat.strongRecOn generalizing l with
  | ind k ih =>
      cases hdecode : decode l with
      | none =>
          rw [drain, drainLoop_none hdecode]
          exact hdecode
      | some p =>
          obtain ⟨o, n⟩ := p
          obtain ⟨hpos, hle⟩ := h.consumes hdecode
          have hlen : (l.drop n).length = l.length - n := List.length_drop
          rw [drain_some h hdecode]
          exact ih (l.drop n).length (by omega) rfl

theorem drain_append (h : Incremental decode) (s : List α) :
    drain decode (l ++ s) =
      ((drain decode l).1 ++ (drain decode ((drain decode l).2 ++ s)).1,
        (drain decode ((drain decode l).2 ++ s)).2) := by
  -- induction on the symbols in front: a result there is a result with `s` behind it
  induction hn : l.length using Nat.strongRecOn generalizing l with
  | ind k ih =>
      cases hdecode : decode l with
      | none =>
          have hnow : drain decode l = ([], l) := drainLoop_none hdecode _
          rw [hnow]
          rfl
      | some p =>
          obtain ⟨o, n⟩ := p
          obtain ⟨hpos, hle⟩ := h.consumes hdecode
          have hlen : (l.drop n).length = l.length - n := List.length_drop
          have hdrop : (l ++ s).drop n = l.drop n ++ s := List.drop_append_of_le_length hle
          rw [drain_some h (h.stable s hdecode), drain_some h hdecode, hdrop,
            ih (l.drop n).length (by omega) rfl]
          rfl

/-- The chunks do not matter: the results are those of the whole stream, and so is what is left. -/
theorem feed_eq_drain (h : Incremental decode) {kept : List α} (hkept : decode kept = none)
    (chunks : List (List α)) : feed decode kept chunks = drain decode (kept ++ chunks.flatten) := by
  induction chunks generalizing kept with
  | nil =>
      rw [List.flatten_nil, List.append_nil, drain, drainLoop_none hkept]
      rfl
  | cons chunk chunks ih =>
      rw [List.flatten_cons, ← List.append_assoc, feed, ih (drain_left h)]
      exact (drain_append h chunks.flatten).symm

end Drain

section Bounded

variable {decode spec : List α → Option (ω × Nat)} {bound : Nat}

theorem drain_congr (hagree : ∀ l, l.length ≤ bound → decode l = spec l) {l : List α}
    (hl : l.length ≤ bound) : drain decode l = drain spec l := by
  have hloop : ∀ fuel l, l.length ≤ bound → drainLoop decode fuel l = drainLoop spec fuel l := by
    intro fuel
    induction fuel with
    | zero => exact fun _ _ ↦ rfl
    | succ fuel ih =>
        intro l hl
        rw [drainLoop, drainLoop, hagree l hl]
        cases spec l with
        | none => rfl
        | some p =>
            have hdrop : (l.drop p.2).length ≤ bound := by
              rw [List.length_drop]
              omega
            dsimp only
            rw [ih (l.drop p.2) hdrop]
  exact hloop l.length l hl

theorem feed_congr (hagree : ∀ l, l.length ≤ bound → decode l = spec l) {kept : List α}
    {chunks : List (List α)} (hfits : FeedsWithin bound decode kept chunks) :
    feed decode kept chunks = feed spec kept chunks := by
  induction chunks generalizing kept with
  | nil => rfl
  | cons chunk chunks ih =>
      obtain ⟨hnow, hlater⟩ := hfits
      rw [feed, feed, ih hlater, drain_congr hagree hnow]

/-- Two ways to cut a stream of any length, with buffers on which the decoder agrees with an incremental
    one. -/
theorem feed_eq_feed (h : Incremental spec) (hagree : ∀ l, l.length ≤ bound → decode l = spec l)
    {chunks chunks' : List (List α)} (hsame : chunks.flatten = chunks'.flatten)
    (hfits : FeedsWithin bound decode [] chunks) (hfits' : FeedsWithin bound decode [] chunks') :
    feed decode [] chunks = feed decode [] chunks' := by
  rw [feed_congr hagree hfits, feed_congr hagree hfits', feed_eq_drain h h.nil,
    feed_eq_drain h h.nil, hsame]

end Bounded

end Reasoning
