import SubmarineMonitor.Protocol.FieldAccess

/-!
# TlvEncoding — the sizes `Protocol_EncodeTLV` is exact at

The total `(uint16_t)(3 + valueLen)` is what the encoder compares with the capacity and reports, and
`3 + valueLen` is what it writes.  The two agree below 65533; from there on every capacity that holds
the wrapped total is taken for large enough (`encodesExactly_iff`).
-/

open Reasoning

namespace SubmarineMonitor

/-! ## 1. Definitions -/

section Definitions

variable (tag : UInt8) (value : Mem) (valueLen outOff outBufCap : Nat)

def DecodesBack (out : EncodeOut) : Prop :=
  ∀ (suffix : Bytes) (inBuf : Mem), out.outWritten + suffix.length ≤ 65535 →
    slice inBuf 0 (out.outWritten + suffix.length) =
      slice out.outBuf outOff out.outWritten ++ suffix →
    protocolDecodeTLV inBuf (out.outWritten + suffix.length) =
        .ok { tag, valueOff := 3, valueLen, consumed := out.outWritten } ∧
      slice inBuf 3 valueLen = slice value 0 valueLen

/-- What the contract says of a call, as a function of the buffer and of `*outWritten` before it. -/
structure ExactCall (call : Mem → Nat → EncodeOut) : Prop where
  ok_iff : ∀ outBuf outWritten, (call outBuf outWritten).result = .ok ↔ 3 + valueLen ≤ outBufCap
  total : ∀ outBuf outWritten, (call outBuf outWritten).result = .ok →
    (call outBuf outWritten).outWritten = 3 + valueLen
  footprint : ∀ outBuf outWritten, (call outBuf outWritten).result = .ok →
    ∀ i, Writes (fun m ↦ (call m outWritten).outBuf) i ↔
      outOff ≤ i ∧ i < outOff + (call outBuf outWritten).outWritten
  decodes : ∀ outBuf outWritten, (call outBuf outWritten).result = .ok →
    DecodesBack tag value valueLen outOff (call outBuf outWritten)
  untouched : ∀ outBuf outWritten, (call outBuf outWritten).result = .errBufferTooSmall →
    (call outBuf outWritten).outBuf = outBuf ∧ (call outBuf outWritten).outWritten = outWritten

def EncodesExactly : Prop :=
  ExactCall tag value valueLen outOff outBufCap fun outBuf outWritten ↦
    protocolEncodeTLV tag value valueLen outBuf outOff outBufCap outWritten

end Definitions

/-! ## 2. The two outcomes -/

section Outcomes

variable {tag : UInt8} {value outBuf : Mem} {valueLen outOff outBufCap outWritten : Nat}

def encodedWord (tag : UInt8) (value : Mem) (valueLen : Nat) : Bytes :=
  tag :: (protocolPutU16 valueLen ++ slice value 0 valueLen)

theorem encodedWord_length : (encodedWord tag value valueLen).length = 3 + valueLen := by
  rw [encodedWord, List.length_cons, List.length_append, protocolPutU16_length, slice_length]
  omega

theorem protocolEncodeTLV_small (h : outBufCap < u16 (3 + valueLen)) :
    protocolEncodeTLV tag value valueLen outBuf outOff outBufCap outWritten =
      { result := .errBufferTooSmall, outBuf, outWritten } := if_pos h

theorem protocolEncodeTLV_fits (h : u16 (3 + valueLen) ≤ outBufCap) :
    protocolEncodeTLV tag value valueLen outBuf outOff outBufCap outWritten =
      { result := .ok, outBuf := store outBuf outOff (encodedWord tag value valueLen),
        outWritten := u16 (3 + valueLen) } := by
  rw [protocolEncodeTLV, if_neg (by omega)]
  dsimp only
  rw [store_tlv]
  rfl

theorem result_ok_iff :
    (protocolEncodeTLV tag value valueLen outBuf outOff outBufCap outWritten).result = .ok ↔
      u16 (3 + valueLen) ≤ outBufCap := by
  by_cases h : u16 (3 + valueLen) ≤ outBufCap
  · rw [protocolEncodeTLV_fits h]
    exact iff_of_true rfl h
  · rw [protocolEncodeTLV_small (by omega)]
    exact iff_of_false (fun hok ↦ ProtoResult.noConfusion hok) h

theorem writes_encode_iff (h : u16 (3 + valueLen) ≤ outBufCap) (i : Nat) :
    Writes (fun m ↦ (protocolEncodeTLV tag value valueLen m outOff outBufCap outWritten).outBuf) i ↔
      outOff ≤ i ∧ i < outOff + (3 + valueLen) := by
  have hbyte : Nontrivial UInt8 := ⟨0, 1, by decide⟩
  have hstore : (fun m ↦
      (protocolEncodeTLV tag value valueLen m outOff outBufCap outWritten).outBuf) =
      fun m ↦ store m outOff (encodedWord tag value valueLen) :=
    funext fun m ↦ congrArg EncodeOut.outBuf (protocolEncodeTLV_fits h)
  rw [hstore, writes_store_iff, encodedWord_length]

/-- A word whose length fits 16 bits is the word of a TLV. -/
theorem decodesBack (h : 3 + valueLen ≤ 65535) (hcap : 3 + valueLen ≤ outBufCap) :
    DecodesBack tag value valueLen outOff
      (protocolEncodeTLV tag value valueLen outBuf outOff outBufCap outWritten) := by
  have hvalue := slice_length value 0 valueLen
  let f : Tlv := { tag, value := slice value 0 valueLen, length_lt := by omega }
  have hlength : f.value.length = valueLen := hvalue
  have hb := f.bytes_length
  rw [protocolEncodeTLV_tlv f hlength.symm rfl (by omega) (by omega)]
  intro suffix inBuf _ hin
  dsimp only at hin ⊢
  rw [slice_store] at hin
  have hread := (slice_tlv hin).1
  rw [hlength] at hread
  rw [protocolDecodeTLV_tlv f hin (by omega), hlength]
  exact ⟨rfl, hread⟩

end Outcomes

/-! ## 3. Exactness -/

section Exactness

variable {tag : UInt8} {value : Mem} {valueLen outOff outBufCap : Nat}

theorem encodesExactly_of_fits (h : 3 + valueLen ≤ 65535) :
    EncodesExactly tag value valueLen outOff outBufCap := by
  have hword : u16 (3 + valueLen) = 3 + valueLen := u16_of_lt (by omega)
  refine { ok_iff := fun outBuf outWritten ↦ ?_, total := fun outBuf outWritten hok ↦ ?_,
           footprint := fun outBuf outWritten hok i ↦ ?_, decodes := fun outBuf outWritten hok ↦ ?_,
           untouched := fun outBuf outWritten hsmall ↦ ?_ }
  · rw [result_ok_iff, hword]
  · rw [protocolEncodeTLV_fits (result_ok_iff.mp hok), hword]
  · rw [writes_encode_iff (result_ok_iff.mp hok), protocolEncodeTLV_fits (result_ok_iff.mp hok),
      hword]
  · exact decodesBack h (hword ▸ result_ok_iff.mp hok)
  · have hcap : outBufCap < u16 (3 + valueLen) := by
      by_contra hfits
      rw [result_ok_iff.mpr (by omega)] at hsmall
      exact absurd hsmall (by decide)
    rw [protocolEncodeTLV_small hcap]
    exact ⟨rfl, rfl⟩

/-- A capacity under the wrapped total is refused as it should be. -/
theorem encodesExactly_of_small (hsmall : outBufCap < u16 (3 + valueLen)) :
    EncodesExactly tag value valueLen outOff outBufCap := by
  have hle : u16 (3 + valueLen) ≤ 3 + valueLen := Nat.mod_le _ _
  have hnot : ∀ outBuf outWritten,
      (protocolEncodeTLV tag value valueLen outBuf outOff outBufCap outWritten).result ≠ .ok :=
    fun _ _ hok ↦ absurd (result_ok_iff.mp hok) (by omega)
  refine { ok_iff := fun outBuf outWritten ↦ iff_of_false (hnot _ _) (by omega)
           total := fun outBuf outWritten hok ↦ absurd hok (hnot _ _)
           footprint := fun outBuf outWritten hok ↦ absurd hok (hnot _ _)
           decodes := fun outBuf outWritten hok ↦ absurd hok (hnot _ _)
           untouched := fun outBuf outWritten _ ↦ ?_ }
  rw [protocolEncodeTLV_small hsmall]
  exact ⟨rfl, rfl⟩

/-- A capacity that holds the wrapped total is taken for large enough, and no capacity is. -/
theorem not_encodesExactly_of_wrap (hcap : outBufCap ≤ 65535) (h : 65533 ≤ valueLen)
    (hfits : u16 (3 + valueLen) ≤ outBufCap) :
    ¬ EncodesExactly tag value valueLen outOff outBufCap := by
  intro hexact
  -- `PROTO_OK` for 65536 bytes and more
  have hok := (hexact.ok_iff (fun _ ↦ 0) 0).mp (result_ok_iff.mpr hfits)
  omega

theorem encodesExactly_iff (tag : UInt8) (value : Mem) (outOff : Nat) (hlen : valueLen ≤ 65535)
    (hcap : outBufCap ≤ 65535) :
    EncodesExactly tag value valueLen outOff outBufCap ↔
      3 + valueLen ≤ 65535 ∨ outBufCap + 65536 < 3 + valueLen := by
  by_cases hfits : 3 + valueLen ≤ 65535
  · exact iff_of_true (encodesExactly_of_fits hfits) (.inl hfits)
  · have hwrap := u16_wrapped (n := valueLen) (by omega) (by omega)
    by_cases hsmall : outBufCap < u16 (3 + valueLen)
    · exact iff_of_true (encodesExactly_of_small hsmall) (.inr (by omega))
    · exact iff_of_false (not_encodesExactly_of_wrap hcap (by omega) (by omega)) (by omega)

/-- `test_encode_buffer_too_small`: five bytes into three. -/
example : (protocolEncodeTLV 0x22 (ofList [0x01, 0x2C] 0) 2 (fun _ ↦ 0) 0 3 0).result =
    .errBufferTooSmall := by decide

/-- The largest value that is encoded, into the largest capacity. -/
theorem encodesExactly_largest :
    EncodesExactly 0x27 (fun _ ↦ 0xAA) 65532 0 65535 :=
  (encodesExactly_iff 0x27 (fun _ ↦ 0xAA) 0 (by decide) (by decide)).mpr (.inl (by decide))

/-- One byte more: no capacity holds the 65536 bytes, and `PROTO_OK` reports 0 of them. -/
theorem not_encodesExactly_65533 :
    ¬ ∀ (tag : UInt8) (value : Mem) (valueLen outOff outBufCap : Nat), valueLen ≤ 65535 →
      outBufCap ≤ 65535 → EncodesExactly tag value valueLen outOff outBufCap := fun h ↦
  not_encodesExactly_of_wrap (by decide) (by decide) (by decide)
    (h 0x27 (fun _ ↦ 0xAA) 65533 0 65535 (by decide) (by decide))

end Exactness

end SubmarineMonitor
