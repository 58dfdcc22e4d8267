import SubmarineMonitor.Protocol.FieldValue

/-!
# TlvSequence — TLVs encoded one after another

Encoding fields into a buffer of exactly their size succeeds at each step and writes their words; the
decoder takes the words apart again, and a search finds the first field with its tag, also in the value
of an enclosing field (`tlv_sequence_codec`).
-/

open Reasoning

namespace SubmarineMonitor

/-! ## 1. Definitions -/

def tlvsSize (fs : List Tlv) : Nat := (fs.map fun f ↦ 3 + f.value.length).sum

/-- `Protocol_EncodeTLV` for one field after another, behind what is there; `none` when a call fails. -/
def encodeTlvs (size : Nat) : List Tlv → Mem → Nat → Nat → Option (Mem × Nat)
  | [], outBuf, off, _ => some (outBuf, off)
  | f :: fs, outBuf, off, written =>
      let out := protocolEncodeTLV f.tag (ofList f.value 0) f.value.length outBuf off (size - off)
        written
      if out.result = .ok then encodeTlvs size fs out.outBuf (off + out.outWritten) out.outWritten
      else none

/-- `Protocol_DecodeTLV` from the offset on, advanced by `outConsumed` each time, until the end is
    met; `none` when a call fails or the end is passed. -/
def decodeTlvsLoop (buf : Mem) (len : Nat) : Nat → Nat → Option (List (UInt8 × Bytes))
  | 0, _ => none
  | fuel + 1, offset =>
      if offset = len then some []
      else
        match protocolDecodeTLV (advance buf offset) (len - offset) with
        | .error _ => none
        | .ok d =>
            (decodeTlvsLoop buf len fuel (offset + d.consumed)).map
              ((d.tag, slice (advance buf offset) d.valueOff d.valueLen) :: ·)

/-- Every TLV takes at least three bytes. -/
def decodeTlvs (buf : Mem) (len : Nat) : Option (List (UInt8 × Bytes)) :=
  decodeTlvsLoop buf len (len + 1) 0

def FindsFirst (buf : Mem) (len : Nat) (fs : List Tlv) (tag : UInt8) : Prop :=
  match fieldOf tag fs with
  | none => protocolFindField buf len tag = some (.error .errNotFound)
  | some v => ∃ f, protocolFindField buf len tag = some (.ok f) ∧ slice buf f.off f.len = v ∧
      f.off + f.len ≤ len

/-! ## 2. Sizes -/

theorem tlvBytes_length (fs : List Tlv) : (tlvBytes fs).length = tlvsSize fs := by
  induction fs with
  | nil => rfl
  | cons f fs ih =>
      have hb := f.bytes_length
      rw [tlvBytes_cons, List.length_append, ih, hb]
      rfl

theorem tlvsSize_cons (f : Tlv) (fs : List Tlv) :
    tlvsSize (f :: fs) = f.bytes.length + tlvsSize fs := by
  rw [← tlvBytes_length, ← tlvBytes_length, tlvBytes_cons, List.length_append]

/-! ## 3. Encoding -/

/-- Each field goes behind those before it, and the rest of the buffer is left alone. -/
theorem encodeTlvs_eq {size : Nat} (hsize : size ≤ 65535) (fs : List Tlv) (outBuf : Mem)
    {off : Nat} (written : Nat) (hfit : off + tlvsSize fs ≤ size) :
    encodeTlvs size fs outBuf off written =
      some (store outBuf off (tlvBytes fs), off + tlvsSize fs) := by
  induction fs generalizing outBuf off written with
  | nil =>
      rw [encodeTlvs, tlvBytes_nil, store_nil]
      rfl
  | cons f fs ih =>
      rw [tlvsSize_cons] at hfit
      have hone := @protocolEncodeTLV_tlv f (ofList f.value 0) outBuf f.value.length off (size - off)
        written rfl (slice_ofList f.value 0) (by omega) (by omega)
      rw [encodeTlvs, hone]
      dsimp only
      rw [if_pos rfl, ih _ _ (by omega), store_append, tlvBytes_cons, tlvsSize_cons, Nat.add_assoc]

/-! ## 4. Decoding -/

theorem decodeTlvsLoop_eq {buf : Mem} {len fuel offset : Nat} (fs : List Tlv) (hlen : len ≤ 65535)
    (hoff : offset ≤ len) (hx : slice buf offset (len - offset) = tlvBytes fs)
    (hfuel : fs.length < fuel) :
    decodeTlvsLoop buf len fuel offset = some (fs.map fun f ↦ (f.tag, f.value)) := by
  -- induction on the fields that are still to come
  induction fs generalizing fuel offset with
  | nil =>
      have hend := congrArg List.length hx
      rw [slice_length, tlvBytes_nil, List.length_nil] at hend
      cases fuel with
      | zero => omega
      | succ fuel =>
          rw [decodeTlvsLoop, if_pos (by omega)]
          rfl
  | cons f fs ih =>
      have hn := congrArg List.length hx
      have hb := f.bytes_length
      rw [slice_length, tlvBytes_cons, List.length_append] at hn
      rw [tlvBytes_cons] at hx
      have hhere : slice (advance buf offset) 0 (len - offset) = f.bytes ++ tlvBytes fs := by
        rw [slice_advance, Nat.add_zero]
        exact hx
      obtain ⟨hvalue, hrest⟩ := slice_tlv hx
      rw [Nat.sub_sub] at hrest
      rw [List.length_cons] at hfuel
      cases fuel with
      | zero => omega
      | succ fuel =>
          rw [decodeTlvsLoop, if_neg (by omega), protocolDecodeTLV_tlv f hhere (by omega)]
          dsimp only
          rw [ih (by omega) hrest (by omega), slice_advance, hvalue]
          rfl

theorem decodeTlvs_eq {buf : Mem} {len : Nat} (fs : List Tlv) (hlen : len ≤ 65535)
    (hx : slice buf 0 len = tlvBytes fs) :
    decodeTlvs buf len = some (fs.map fun f ↦ (f.tag, f.value)) := by
  have hn := congrArg List.length hx
  have hge := tlvBytes_length_ge fs
  rw [slice_length] at hn
  exact decodeTlvsLoop_eq fs hlen (Nat.zero_le _) hx (by omega)

/-! ## 5. Searching -/

theorem findsFirst_complete {buf : Mem} {len : Nat} {fs : List Tlv} (hlen : len ≤ 65535)
    (hx : slice buf 0 len = tlvBytes fs) (tag : UInt8) : FindsFirst buf len fs tag := by
  unfold FindsFirst
  cases hfield : fieldOf tag fs with
  | none => exact findField_none hlen hx hfield
  | some v =>
      obtain ⟨f, hfound, -, hvalue, hin⟩ := findField_some hlen hx hfield
      exact ⟨f, hfound, hvalue, hin⟩

theorem findsFirst_enclosed {buf : Mem} {len : Nat} {fs inner : List Tlv} {tag : UInt8}
    (hlen : len ≤ 65535) (hx : slice buf 0 len = tlvBytes fs)
    (hinner : fieldOf tag fs = some (tlvBytes inner)) :
    ∃ f, protocolFindField buf len tag = some (.ok f) ∧
      ∀ t, FindsFirst (advance buf f.off) f.len inner t := by
  obtain ⟨f, hfound, -, hvalue, hin⟩ := findField_some hlen hx hinner
  refine ⟨f, hfound, findsFirst_complete (by omega) ?_⟩
  rw [slice_advance, Nat.add_zero]
  exact hvalue

/-- **The sequence codec.** -/
theorem tlv_sequence_codec (fs : List Tlv) (hsize : tlvsSize fs ≤ 65535) (outBuf : Mem)
    (written : Nat) :
    ∃ buf, encodeTlvs (tlvsSize fs) fs outBuf 0 written = some (buf, tlvsSize fs) ∧
      decodeTlvs buf (tlvsSize fs) = some (fs.map fun f ↦ (f.tag, f.value)) ∧
      (∀ tag, FindsFirst buf (tlvsSize fs) fs tag) ∧
      ∀ tag inner, fieldOf tag fs = some (tlvBytes inner) →
        ∃ f, protocolFindField buf (tlvsSize fs) tag = some (.ok f) ∧
          ∀ t, FindsFirst (advance buf f.off) f.len inner t := by
  have hencode := @encodeTlvs_eq (tlvsSize fs) hsize fs outBuf 0 written
    (Nat.le_of_eq (Nat.zero_add _))
  rw [Nat.zero_add] at hencode
  have hx : slice (store outBuf 0 (tlvBytes fs)) 0 (tlvsSize fs) = tlvBytes fs :=
    slice_store_of_length _ _ _ (tlvBytes_length fs)
  exact ⟨_, hencode, decodeTlvs_eq fs hsize hx, findsFirst_complete hsize hx,
    fun tag inner ↦ findsFirst_enclosed hsize hx⟩

def recordBetween : List Tlv :=
  [{ tag := 0x20, value := [7], length_lt := by decide },
    { tag := 0x29, value := [0x20, 0, 0, 0x2E, 0, 1, 9], length_lt := by decide },
    { tag := 0x20, value := [], length_lt := by decide }]

theorem tlv_sequence_codec_record :
    ∃ buf, encodeTlvs 17 recordBetween (fun _ ↦ 0) 0 0 = some (buf, 17) ∧
      decodeTlvs buf 17 = some [(0x20, [7]), (0x29, [0x20, 0, 0, 0x2E, 0, 1, 9]), (0x20, [])] ∧
      FindsFirst buf 17 recordBetween 0x20 := by
  obtain ⟨buf, hencode, hdecode, hfirst, -⟩ :=
    tlv_sequence_codec recordBetween (by decide) (fun _ ↦ 0) 0
  exact ⟨buf, hencode, hdecode, hfirst 0x20⟩

end SubmarineMonitor
