import SubmarineMonitor.Protocol.FrameWire

/-!
# FrameCapacity — when `Frame_Encode` stays inside its buffer

`stuff_write_byte` compares `(uint16_t)(*outIdx + 1)` or `(uint16_t)(*outIdx + 2)` with the capacity.
The sum wraps for a byte that starts at one of the last two indices below 65536, and then the byte is
written behind the buffer.  Where no byte of the frame starts there, room is checked exactly
(`frameEncode_within_cap_iff`).
-/

open Reasoning

namespace SubmarineMonitor

/-! ## 1. Definitions -/

structure EncodesWithinCap (payload : Mem) (payloadLen outBufCap : Nat) : Prop where
  fits : stuffedFrameSize (slice payload 0 payloadLen) ≤ outBufCap → ∀ outBuf outWritten,
    (frameEncode payload payloadLen outBuf outBufCap outWritten).result = .ok ∧
      (frameEncode payload payloadLen outBuf outBufCap outWritten).outWritten =
        stuffedFrameSize (slice payload 0 payloadLen)
  full : outBufCap < stuffedFrameSize (slice payload 0 payloadLen) → ∀ outBuf outWritten,
    (frameEncode payload payloadLen outBuf outBufCap outWritten).result = .errBufferTooSmall
  inside : ∀ outBuf outWritten i, outBufCap ≤ i →
    (frameEncode payload payloadLen outBuf outBufCap outWritten).outBuf i = outBuf i

/-- Written from `idx` on, each byte that starts at an index up to the capacity ends within 65535
    bytes. -/
def StaysBelowWrap (outCap idx : Nat) (l : Bytes) : Prop :=
  ∀ before b after, l = before ++ b :: after →
    idx + (frameCode.stuff before).length ≤ outCap →
    idx + (frameCode.stuff before).length + (frameCode.stuffByte b).length ≤ 65535

theorem staysBelowWrap_of_cap {outCap : Nat} (h : outCap ≤ 65533) (idx : Nat) (l : Bytes) :
    StaysBelowWrap outCap idx l := by
  intro before b after _ hidx
  have hb := frameCode.cost_le_two b
  rw [frameCode.stuffByte_length]
  omega

theorem StaysBelowWrap.tail {outCap idx : Nat} {b : UInt8} {l : Bytes}
    (h : StaysBelowWrap outCap idx (b :: l)) :
    StaysBelowWrap outCap (idx + (frameCode.stuffByte b).length) l := by
  rintro before c after rfl hidx
  have hc := h (b :: before) c after rfl
  rw [EscapeCode.stuff_cons, List.length_append, ← Nat.add_assoc] at hc
  exact hc hidx

/-! ## 2. Writing without a wrap -/

theorem stuffWriteByte_full {outCap : Nat} {w : Writer} {b : UInt8}
    (hfull : outCap < w.idx + (frameCode.stuffByte b).length)
    (hwrap : w.idx + (frameCode.stuffByte b).length ≤ 65535) : stuffWriteByte outCap w b = none := by
  have hcode : frameCode.stuffByte b =
      if b = protoFrameStart ∨ b = protoFrameEscape then
        [protoFrameEscape, b ^^^ protoFrameEscapeXor] else [b] := rfl
  unfold stuffWriteByte
  rw [hcode] at hfull hwrap
  by_cases hb : b = protoFrameStart ∨ b = protoFrameEscape
  · simp only [if_pos hb, List.length_cons, List.length_nil] at hfull hwrap ⊢
    rw [u16_of_lt (by omega), if_pos (by omega)]
  · simp only [if_neg hb, List.length_cons, List.length_nil] at hfull hwrap ⊢
    rw [u16_of_lt (by omega), if_pos (by omega)]

/-- Bytes that do not fit are refused, and what was written of them is inside. -/
theorem stuffWriteBytes_full {outCap : Nat} (l : Bytes) (w : Writer) (hcap : outCap ≤ 65535)
    (hidx : w.idx ≤ outCap) (hfull : outCap < w.idx + (frameCode.stuff l).length)
    (hwrap : StaysBelowWrap outCap w.idx l) :
    ∃ out, stuffWriteBytes outCap l w = .error out ∧ ∀ i, outCap ≤ i → out i = w.out i := by
  -- induction on the bytes: the first one fits, or it is the one that is refused
  induction l generalizing w with
  | nil =>
      rw [EscapeCode.stuff_nil, List.length_nil] at hfull
      omega
  | cons b l ih =>
      rw [EscapeCode.stuff_cons, List.length_append] at hfull
      rw [stuffWriteBytes]
      by_cases hfit : w.idx + (frameCode.stuffByte b).length ≤ outCap
      · obtain ⟨out, hout, hkept⟩ := ih
          { out := store w.out w.idx (frameCode.stuffByte b)
            idx := w.idx + (frameCode.stuffByte b).length } hfit (by dsimp only; omega) hwrap.tail
        rw [stuffWriteByte_eq w b hcap hfit]
        exact ⟨out, hout, fun i hi ↦ (hkept i hi).trans (store_of_ge _ _ (by omega))⟩
      · have hb := hwrap [] b l rfl hidx
        rw [stuffWriteByte_full (by omega) hb]
        exact ⟨w.out, rfl, fun i _ ↦ rfl⟩

/-! ## 3. Writing over the wrap -/

def writtenMem : Except Mem Writer → Mem
  | .error out => out
  | .ok w => w.out

theorem Writer.put_agree {w w' : Writer} (b : UInt8) {i : Nat} (hidx : w.idx = w'.idx)
    (hi : w.out i = w'.out i) :
    (w.put b).idx = (w'.put b).idx ∧ (w.put b).out i = (w'.put b).out i := by
  simp only [Writer.put, hidx, true_and]
  unfold store
  by_cases hoff : w'.idx ≤ i
  · rw [if_pos hoff, if_pos hoff, hi]
  · rw [if_neg hoff, if_neg hoff, hi]

/-- Memories that agree on a cell do so behind the same writes. -/
theorem stuffWriteByte_agree (outCap : Nat) {w w' : Writer} (b : UInt8) {i : Nat}
    (hidx : w.idx = w'.idx) (hi : w.out i = w'.out i) :
    (stuffWriteByte outCap w b = none ∧ stuffWriteByte outCap w' b = none) ∨
      ∃ v v', stuffWriteByte outCap w b = some v ∧ stuffWriteByte outCap w' b = some v' ∧
        v.idx = v'.idx ∧ v.out i = v'.out i := by
  unfold stuffWriteByte
  rw [hidx]
  by_cases hb : b = protoFrameStart ∨ b = protoFrameEscape
  · rw [if_pos hb, if_pos hb]
    by_cases hfull : u16 (w'.idx + 2) > outCap
    · rw [if_pos hfull, if_pos hfull]
      exact .inl ⟨rfl, rfl⟩
    · rw [if_neg hfull, if_neg hfull]
      obtain ⟨hnext, hcell⟩ := Writer.put_agree protoFrameEscape hidx hi
      exact .inr ⟨_, _, rfl, rfl, Writer.put_agree _ hnext hcell⟩
  · rw [if_neg hb, if_neg hb]
    by_cases hfull : u16 (w'.idx + 1) > outCap
    · rw [if_pos hfull, if_pos hfull]
      exact .inl ⟨rfl, rfl⟩
    · rw [if_neg hfull, if_neg hfull]
      exact .inr ⟨_, _, rfl, rfl, Writer.put_agree b hidx hi⟩

theorem stuffWriteBytes_agree (outCap : Nat) (l : Bytes) {w w' : Writer} {i : Nat}
    (hidx : w.idx = w'.idx) (hi : w.out i = w'.out i) :
    writtenMem (stuffWriteBytes outCap l w) i = writtenMem (stuffWriteBytes outCap l w') i := by
  induction l generalizing w w' with
  | nil => exact hi
  | cons b l ih =>
      rw [stuffWriteBytes, stuffWriteBytes]
      rcases stuffWriteByte_agree outCap b hidx hi with ⟨hnone, hnone'⟩ | ⟨v, v', hv, hv', hnext, hcell⟩
      · rw [hnone, hnone']
        exact hi
      · rw [hv, hv']
        exact ih hnext hcell

/-- The byte whose check wraps is written, and cell 65535 with it, whatever was there. -/
theorem stuffWriteByte_wraps {outCap idx : Nat} (b : UInt8) (hcap : outCap ≤ 65535)
    (hidx : idx ≤ outCap) (hwrap : 65535 < idx + (frameCode.stuffByte b).length) :
    ∃ next x, ∀ out, ∃ out', stuffWriteByte outCap { out, idx } b = some { out := out', idx := next } ∧
      out' 65535 = x := by
  have hcode : frameCode.stuffByte b =
      if b = protoFrameStart ∨ b = protoFrameEscape then
        [protoFrameEscape, b ^^^ protoFrameEscapeXor] else [b] := rfl
  have hlast : ∀ (m : Mem) (c : UInt8), store m 65535 [c] 65535 = c := fun m c ↦ rfl
  rw [hcode] at hwrap
  by_cases hb : b = protoFrameStart ∨ b = protoFrameEscape
  · simp only [if_pos hb, List.length_cons, List.length_nil] at hwrap
    by_cases hpair : idx = 65534
    · -- the pair takes the last two indices
      subst hpair
      refine ⟨u16 65536, b ^^^ protoFrameEscapeXor, fun out ↦
        ⟨store (store out 65534 [protoFrameEscape]) 65535 [b ^^^ protoFrameEscapeXor], ?_,
          hlast _ _⟩⟩
      rw [stuffWriteByte, if_pos hb, if_neg (show ¬ u16 (65534 + 2) > outCap by simp [u16])]
      rfl
    · -- the escape takes the last index, and the index starts again at 0
      obtain rfl : idx = 65535 := by omega
      refine ⟨1, protoFrameEscape, fun out ↦
        ⟨store (store out 65535 [protoFrameEscape]) 0 [b ^^^ protoFrameEscapeXor], ?_, ?_⟩⟩
      · rw [stuffWriteByte, if_pos hb, if_neg (show ¬ u16 (65535 + 2) > outCap by simp [u16]; omega),
          Writer.put, Writer.put]
        dsimp only
        rw [show u16 (65535 + 1) = 0 from rfl, show u16 (0 + 1) = 1 from rfl]
      · rw [store_of_ge _ _ (by simp)]
        exact hlast _ _
  · simp only [if_neg hb, List.length_cons, List.length_nil] at hwrap
    obtain rfl : idx = 65535 := by omega
    refine ⟨u16 65536, b, fun out ↦ ⟨store out 65535 [b], ?_, hlast _ _⟩⟩
    rw [stuffWriteByte, if_neg hb, if_neg (show ¬ u16 (65535 + 1) > outCap by simp [u16])]
    rfl

/-! ## 4. The frame -/

theorem stuffWriteBytes_append (outCap : Nat) (l r : Bytes) (w : Writer) :
    stuffWriteBytes outCap (l ++ r) w =
      (stuffWriteBytes outCap l w).bind (stuffWriteBytes outCap r) := by
  induction l generalizing w with
  | nil => rfl
  | cons b l ih =>
      rw [List.cons_append, stuffWriteBytes, stuffWriteBytes]
      cases stuffWriteByte outCap w b with
      | none => rfl
      | some v => exact ih v

/-- The three loops of `Frame_Encode` are one over the content of the frame. -/
theorem frameEncode_eq_content (payload : Mem) (payloadLen : Nat) (outBuf : Mem)
    {outBufCap : Nat} (outWritten : Nat) (hcap : 1 ≤ outBufCap) :
    frameEncode payload payloadLen outBuf outBufCap outWritten =
      match stuffWriteBytes outBufCap (frameContent (slice payload 0 payloadLen))
          { out := store outBuf 0 [protoFrameStart], idx := 1 } with
      | .error out => { result := .errBufferTooSmall, outBuf := out, outWritten }
      | .ok w => { result := .ok, outBuf := w.out, outWritten := w.idx } := by
  have hrest : ∀ l r, stuffWriteBytes outBufCap (l ++ r) =
      fun w ↦ (stuffWriteBytes outBufCap l w).bind (stuffWriteBytes outBufCap r) :=
    fun l r ↦ funext (stuffWriteBytes_append outBufCap l r)
  rw [frameContent, slice_length, List.append_assoc, hrest, hrest, frameEncode, if_neg (by omega)]
  rfl

theorem frameEncode_outBuf (payload : Mem) (payloadLen : Nat) (outBuf : Mem) {outBufCap : Nat}
    (outWritten : Nat) (hcap : 1 ≤ outBufCap) :
    (frameEncode payload payloadLen outBuf outBufCap outWritten).outBuf =
      writtenMem (stuffWriteBytes outBufCap (frameContent (slice payload 0 payloadLen))
        { out := store outBuf 0 [protoFrameStart], idx := 1 }) := by
  rw [frameEncode_eq_content _ _ _ _ hcap]
  cases stuffWriteBytes outBufCap (frameContent (slice payload 0 payloadLen))
      { out := store outBuf 0 [protoFrameStart], idx := 1 } with
  | error out => rfl
  | ok w => rfl

section Capacity

variable {payload : Mem} {payloadLen outBufCap : Nat}

theorem frameEncode_full (hcap : outBufCap ≤ 65535)
    (hfull : outBufCap < (frameOf (slice payload 0 payloadLen)).length)
    (hwrap : StaysBelowWrap outBufCap 1 (frameContent (slice payload 0 payloadLen)))
    (outBuf : Mem) (outWritten : Nat) :
    (frameEncode payload payloadLen outBuf outBufCap outWritten).result = .errBufferTooSmall ∧
      ∀ i, outBufCap ≤ i →
        (frameEncode payload payloadLen outBuf outBufCap outWritten).outBuf i = outBuf i := by
  by_cases hpos : 1 ≤ outBufCap
  · rw [frameOf, List.length_cons] at hfull
    obtain ⟨out, hout, hkept⟩ := stuffWriteBytes_full (frameContent (slice payload 0 payloadLen))
      { out := store outBuf 0 [protoFrameStart], idx := 1 } hcap hpos (by dsimp only; omega) hwrap
    rw [frameEncode_eq_content _ _ _ _ hpos, hout]
    refine ⟨rfl, fun i hi ↦ (hkept i hi).trans ?_⟩
    exact store_of_ge outBuf [protoFrameStart] (Nat.le_trans hpos hi)
  · rw [frameEncode, if_pos (by omega)]
    exact ⟨rfl, fun i _ ↦ rfl⟩

/-- Over the wrap, the last cell does not keep what it held. -/
theorem frameEncode_overruns (hcap : outBufCap ≤ 65535)
    (hwrap : ¬ StaysBelowWrap outBufCap 1 (frameContent (slice payload 0 payloadLen))) :
    ¬ EncodesWithinCap payload payloadLen outBufCap := by
  intro h
  simp only [StaysBelowWrap, not_forall, not_le] at hwrap
  obtain ⟨before, b, after, hcontent, hidx, hpast⟩ := hwrap
  obtain ⟨next, x, hbyte⟩ := stuffWriteByte_wraps b hcap hidx hpast
  -- whatever the buffer holds, the cell ends up the same
  have hlast : ∀ outBuf outBuf' : Mem,
      (frameEncode payload payloadLen outBuf outBufCap 0).outBuf 65535 =
        (frameEncode payload payloadLen outBuf' outBufCap 0).outBuf 65535 := by
    intro outBuf outBuf'
    have hfront := fun outBuf : Mem ↦ stuffWriteBytes_eq before
      { out := store outBuf 0 [protoFrameStart], idx := 1 } hcap hidx
    rw [frameEncode_outBuf _ _ _ _ (by omega), frameEncode_outBuf _ _ _ _ (by omega), hcontent,
      stuffWriteBytes_append, stuffWriteBytes_append, hfront, hfront, Except.bind, Except.bind,
      stuffWriteBytes, stuffWriteBytes]
    obtain ⟨out, hout, hcell⟩ := hbyte
      (store (store outBuf 0 [protoFrameStart]) 1 (frameCode.stuff before))
    obtain ⟨out', hout', hcell'⟩ := hbyte
      (store (store outBuf' 0 [protoFrameStart]) 1 (frameCode.stuff before))
    dsimp only
    rw [hout, hout']
    exact stuffWriteBytes_agree outBufCap after rfl (hcell.trans hcell'.symm)
  have hzero := h.inside (fun _ ↦ 0) 0 65535 hcap
  have hone := h.inside (fun _ ↦ 1) 0 65535 hcap
  rw [hlast (fun _ ↦ 0) fun _ ↦ 1, hone] at hzero
  exact absurd hzero (by decide)

end Capacity

/-- `Frame_Encode` respects its capacity exactly if no byte of the frame starts where the check wraps. -/
theorem frameEncode_within_cap_iff (payload : Mem) (payloadLen outBufCap : Nat)
    (hcap : outBufCap ≤ 65535) :
    EncodesWithinCap payload payloadLen outBufCap ↔
      StaysBelowWrap outBufCap 1 (frameContent (slice payload 0 payloadLen)) := by
  constructor
  · intro h
    by_contra hwrap
    exact frameEncode_overruns hcap hwrap h
  · intro hwrap
    have hfull := fun h ↦ frameEncode_full hcap h hwrap
    refine { fits := fun hfit outBuf outWritten ↦ ?_, full := fun h outBuf outWritten ↦ ?_,
             inside := fun outBuf outWritten i hi ↦ ?_ }
    · rw [stuffedFrameSize_eq] at hfit ⊢
      rw [frameEncode_eq_frameOf payload payloadLen outBuf outBufCap outWritten hcap hfit]
      exact ⟨rfl, rfl⟩
    · rw [stuffedFrameSize_eq] at h
      exact (hfull h outBuf outWritten).1
    · by_cases hfit : (frameOf (slice payload 0 payloadLen)).length ≤ outBufCap
      · rw [frameEncode_eq_frameOf payload payloadLen outBuf outBufCap outWritten hcap hfit]
        dsimp only
        rw [store_of_ge _ _ (by omega)]
      · exact (hfull (by omega) outBuf outWritten).2 i hi

-- the buffer of the bridge
theorem frameEncode_within_cap_600 : EncodesWithinCap (ofList [0x7E, 0x2A] 0) 2 600 :=
  (frameEncode_within_cap_iff _ 2 600 (by decide)).mpr (staysBelowWrap_of_cap (by decide) 1 _)

theorem stuff_zeros (n : Nat) : frameCode.stuff (List.replicate n 0) = List.replicate n 0 := by
  induction n with
  | zero => rfl
  | succ n ih => rw [List.replicate_succ, EscapeCode.stuff_cons, ih]; rfl

theorem slice_const (b : UInt8) (off n : Nat) : slice (fun _ ↦ b) off n = List.replicate n b := by
  induction n generalizing off with
  | zero => rfl
  | succ n ih => rw [slice_succ, ih, List.replicate_succ]

/-- A payload of 65535 zeros and a buffer of 65535 bytes: the last bytes of the frame go to index 65535
    and then over its front. -/
theorem frameEncode_past_cap : ¬ EncodesWithinCap (fun _ ↦ 0) 65535 65535 := by
  apply frameEncode_overruns (Nat.le_refl _)
  intro h
  have hbefore : frameCode.stuff ([0xFF, 0xFF] ++ List.replicate 65532 0) =
      [0xFF, 0xFF] ++ List.replicate 65532 0 := by
    rw [EscapeCode.stuff_append, stuff_zeros]
    rfl
  have hlen : ([0xFF, 0xFF] ++ List.replicate 65532 (0 : UInt8)).length = 65534 := by
    rw [List.length_append, List.length_replicate]
    rfl
  have hcontent : frameContent (slice (fun _ ↦ 0) 0 65535) =
      ([0xFF, 0xFF] ++ List.replicate 65532 0) ++ 0 :: (List.replicate 2 0 ++
        protocolPutU16 (frameCrc (protocolPutU16 65535) (List.replicate 65535 0)).toNat) := by
    rw [frameContent, slice_const, List.length_replicate,
      show (65535 : Nat) = 65532 + (1 + 2) by decide, List.replicate_add, List.replicate_add]
    simp only [List.append_assoc, List.replicate_one, List.cons_append, List.nil_append]
    rfl
  have hpast := h _ _ _ hcontent
  rw [hbefore, hlen] at hpast
  exact absurd (hpast (by decide)) (by decide)

end SubmarineMonitor
