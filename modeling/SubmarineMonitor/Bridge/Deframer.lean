import SubmarineMonitor.Bridge.MainLoop
import SubmarineMonitor.Protocol.FrameStream

/-!
# Deframer — the uplink on byte strings

`deframe` is what one iteration does to the bytes that wait in `uartRxBuf`; `uplinkStep_eq` connects
the buffer with its `memmove` to it.
-/

open Reasoning

namespace SubmarineMonitor

/-- What an iteration keeps of the waiting bytes, and the payload it forwards. -/
def deframe (l : Bytes) : Bytes × Option Bytes :=
  match parseFrame 256 l with
  | .ok payload consumed => (l.drop consumed, some payload)
  | .malformed consumed => (l.drop consumed, none)
  | .bufferTooSmall => ([], none)
  | .incomplete => (l, none)

/-! ## 1. The buffer refines the byte string -/

@[simp] theorem Uplink.pending_length (u : Uplink) : u.pending.length = u.uartRxLen :=
  slice_length _ _ _

theorem uplinkRecv_pending {u : Uplink} {chunk : Bytes} (h : u.uartRxLen + chunk.length ≤ 256) :
    (uplinkRecv u chunk).pending = u.pending ++ chunk := by
  have hstore := slice_store_append u.uartRxBuf 0 u.uartRxLen chunk
  rw [Nat.zero_add] at hstore
  unfold Uplink.pending uplinkRecv
  rw [u16_of_lt (by omega), hstore]

theorem uplinkDiscard_pending {u : Uplink} {consumed : Nat} (hlen : u.uartRxLen ≤ 256)
    (h : consumed ≤ u.uartRxLen) : (uplinkDiscard u consumed).pending = u.pending.drop consumed := by
  unfold Uplink.pending uplinkDiscard
  rw [u16_of_lt (by omega), slice_store_of_length _ _ _ (slice_length _ _ _), slice_drop _ _ h,
    Nat.zero_add]

theorem uplinkDecode_eq {u : Uplink} (h : u.uartRxLen ≤ 256) :
    (uplinkDecode u).1.pending = (deframe u.pending).1 ∧
      (uplinkDecode u).2 = (deframe u.pending).2 := by
  unfold uplinkDecode deframe
  by_cases hpos : u.uartRxLen > 0
  · have hdecode : frameDecode u.uartRxBuf u.uartRxLen 256 = parseFrame 256 u.pending :=
      frameDecode_eq_parseFrame _ _ _ (by omega)
    rw [if_pos hpos, hdecode]
    cases hparse : parseFrame 256 u.pending with
    | ok payload consumed =>
        have hle := (parseFrame_consumed (.inl ⟨payload, hparse⟩)).2
        rw [Uplink.pending_length] at hle
        exact ⟨uplinkDiscard_pending h hle, rfl⟩
    | malformed consumed =>
        have hle := (parseFrame_consumed (.inr hparse)).2
        rw [Uplink.pending_length] at hle
        exact ⟨uplinkDiscard_pending h hle, rfl⟩
    | incomplete => exact ⟨rfl, rfl⟩
    | bufferTooSmall => exact ⟨rfl, rfl⟩
  · -- an empty buffer is not decoded at all
    have hnil : u.pending = [] := by
      rw [← List.length_eq_zero_iff, Uplink.pending_length]
      omega
    have hparse : parseFrame 256 u.pending = .incomplete := by
      rw [hnil]
      rfl
    rw [if_neg hpos, hparse]
    exact ⟨rfl, rfl⟩

/-- One iteration of the uplink is `deframe` on what waits and what arrives. -/
theorem uplinkStep_eq {u : Uplink} {chunk : Bytes} (h : u.uartRxLen + chunk.length ≤ 256) :
    (uplinkStep u chunk).1.pending = (deframe (u.pending ++ chunk)).1 ∧
      (uplinkStep u chunk).2 = (deframe (u.pending ++ chunk)).2 := by
  have hlen : (uplinkRecv u chunk).uartRxLen ≤ 256 := by
    rw [← Uplink.pending_length, uplinkRecv_pending h, List.length_append, Uplink.pending_length]
    exact h
  rw [← uplinkRecv_pending h]
  exact uplinkDecode_eq hlen

/-! ## 2. What `deframe` does to a stream -/

theorem deframe_frame {q : Bytes} (rest : Bytes) (hq : q.length ≤ 256) :
    deframe (frameOf q ++ rest) = (rest, some q) := by
  have hparse := @parseFrame_frame 256 [] q rest List.not_mem_nil hq (by omega)
  rw [List.nil_append, List.length_nil, Nat.zero_add] at hparse
  rw [deframe, hparse]
  exact Prod.ext List.drop_left rfl

theorem deframe_incomplete {l : Bytes} (h : parseFrame 256 l = .incomplete) :
    deframe l = (l, none) := by
  rw [deframe, h]

theorem deframe_cut {q t u : Bytes} (h : t ++ u = frameOf q) (hu : u ≠ [])
    (hq : q.length ≤ 256) : deframe t = (t, none) :=
  deframe_incomplete (@parseFrame_cut 256 [] q t u List.not_mem_nil h hu hq (by omega))

theorem deframe_length_le (l : Bytes) : (deframe l).1.length ≤ l.length := by
  unfold deframe
  cases parseFrame 256 l with
  | ok payload consumed => exact List.length_drop.trans_le (Nat.sub_le _ _)
  | malformed consumed => exact List.length_drop.trans_le (Nat.sub_le _ _)
  | incomplete => exact Nat.le_refl _
  | bufferTooSmall => exact Nat.zero_le _

/-- Only an incomplete frame keeps a full buffer full. -/
theorem deframe_full_iff {l : Bytes} (h : l.length = 256) :
    (deframe l).1.length = 256 ↔ parseFrame 256 l = .incomplete := by
  unfold deframe
  cases hparse : parseFrame 256 l with
  | ok payload consumed =>
      have hpos := (parseFrame_consumed (.inl ⟨payload, hparse⟩)).1
      simp only [List.length_drop, reduceCtorEq, iff_false]
      omega
  | malformed consumed =>
      have hpos := (parseFrame_consumed (.inr hparse)).1
      simp only [List.length_drop, reduceCtorEq, iff_false]
      omega
  | incomplete => simp only [h]
  | bufferTooSmall => simp

end SubmarineMonitor
