import SubmarineMonitor.Protocol.FindField

/-!
# FieldAccess — writing and reading the fields of a TLV buffer

`Protocol_EncodeTLV` writes the word of a TLV (`protocolEncodeTLV_tlv`); a field looked up by its tag
is read behind its header; and the hand-written walks over sibling TLVs share one loop, which on a
complete TLV visits it (`walkLoop_tlv`).
-/

open Reasoning

namespace SubmarineMonitor

/-! ## 1. Definitions -/

/-- `if (Protocol_FindField(..) == PROTO_OK) x = read(field)`, where `x` starts as `init`. -/
def readField {α : Type} (buf : Mem) (len : Nat) (tag : UInt8) (init : α) (read : Mem → α) :
    Option α :=
  match protocolFindField buf len tag with
  | none => none
  | some (.error _) => some init
  | some (.ok f) => some (read (advance buf f.off))

def getU8 (field : Mem) : UInt8 := field 0

def getU16 (field : Mem) : UInt16 := .ofNat (protocolGetU16 field)

def getI16 (field : Mem) : Int16 := (getU16 field).toInt16

def getU32 (field : Mem) : UInt32 := .ofNat (protocolGetU32 field)

/-- `while ((uint16_t)(offset + 3) <= valueLen)` with the step `offset = (uint16_t)(offset + 3 + fLen)`:
    the tag and the field of each header the walk meets. -/
def walkLoop (value : Mem) (valueLen : Nat) : Nat → Nat → Option (List (UInt8 × Field))
  | 0, _ => none
  | fuel + 1, offset =>
      if u16 (offset + 3) ≤ valueLen then
        let fLen := protocolGetU16 (advance value (offset + 1))
        match walkLoop value valueLen fuel (u16 (offset + 3 + fLen)) with
        | none => none
        | some visited => some ((value offset, { off := offset + 3, len := fLen }) :: visited)
      else some []

/-- A terminating walk meets each 16-bit offset at most once. -/
def walkTlv (value : Mem) (valueLen : Nat) : Option (List (UInt8 × Field)) :=
  walkLoop value valueLen 65536 0

/-! ## 2. Writing -/

theorem store_tlv (m : Mem) (off : Nat) (tag : UInt8) (n : Nat) (v : Bytes) :
    store (store (store m off [tag]) (off + 1) (protocolPutU16 n)) (off + 3) v =
      store m off (tag :: (protocolPutU16 n ++ v)) := by
  rw [show off + 1 = off + [tag].length from rfl, store_append,
    show off + 3 = off + ([tag] ++ protocolPutU16 n).length from rfl, store_append]
  rfl

theorem protocolEncodeTLV_tlv (f : Tlv) {value outBuf : Mem} {valueLen outOff cap outWritten : Nat}
    (hlen : valueLen = f.value.length) (hvalue : slice value 0 valueLen = f.value)
    (hcap : f.bytes.length ≤ cap) (hword : f.bytes.length < 65536) :
    protocolEncodeTLV f.tag value valueLen outBuf outOff cap outWritten =
      { result := .ok, outBuf := store outBuf outOff f.bytes, outWritten := f.bytes.length } := by
  have hb := f.bytes_length
  have htotal : u16 (3 + valueLen) = f.bytes.length := by rw [u16_of_lt (by omega), hlen, hb]
  have hstore : store (store (store outBuf outOff [f.tag]) (outOff + 1) (protocolPutU16 valueLen))
      (outOff + 3) f.value = store outBuf outOff f.bytes := by
    rw [store_tlv, hlen]
    rfl
  rw [protocolEncodeTLV, htotal, if_neg (by omega), hvalue]
  exact congrArg (fun m ↦ EncodeOut.mk .ok m f.bytes.length) hstore

/-- What it writes is what `Protocol_DecodeTLV` takes apart. -/
theorem protocolDecodeTLV_tlv (f : Tlv) {inBuf : Mem} {inLen : Nat} {s : Bytes}
    (h : slice inBuf 0 inLen = f.bytes ++ s) (hword : f.bytes.length < 65536) :
    protocolDecodeTLV inBuf inLen =
      .ok { tag := f.tag, valueOff := 3, valueLen := f.value.length
            consumed := f.bytes.length } := by
  have hn := congrArg List.length h
  have hb := f.bytes_length
  rw [slice_length, List.length_append] at hn
  rw [f.bytes_eq] at h
  have htotal : u16 (3 + f.value.length) = f.bytes.length := by rw [u16_of_lt (by omega), hb]
  rw [decodeTLV_header h, bigEndian16_put f.length_lt, htotal, if_neg (by omega)]

theorem getU8_of_slice {field : Mem} {b : UInt8} (h : slice field 0 1 = [b]) : getU8 field = b :=
  (List.cons.inj h).1

theorem getU16_of_slice {field : Mem} {n : UInt16}
    (h : slice field 0 2 = protocolPutU16 n.toNat) : getU16 field = n := by
  rw [getU16, protocolGetU16_of_slice n.toNat_lt h, UInt16.ofNat_toNat]

/-- The sign survives the cast to `uint16_t` and back. -/
theorem getI16_of_slice {field : Mem} {n : Int16}
    (h : slice field 0 2 = protocolPutU16 n.toUInt16.toNat) : getI16 field = n := by
  rw [getI16, getU16_of_slice h, Int16.toInt16_toUInt16]

theorem getU32_of_slice {field : Mem} {n : UInt32}
    (h : slice field 0 4 = protocolPutU32 n.toNat) : getU32 field = n := by
  rw [getU32, protocolGetU32_of_slice n.toNat_lt h, UInt32.ofNat_toNat]

/-! ## 3. Looking a field up -/

section Lookup

variable {buf : Mem} {len : Nat} {tag : UInt8} {pre : List Tlv} {α : Type} {init : α}
  {read : Mem → α}

theorem findField_missing (hlen : len ≤ 65535) (hx : slice buf 0 len = tlvBytes pre)
    (hpre : ∀ g ∈ pre, g.tag ≠ tag) : protocolFindField buf len tag = some (.error .errNotFound) := by
  obtain ⟨r, hr, -, hmissing, -⟩ := followsGrammar_end hlen hx hpre
  rw [hr, hmissing.mpr ⟨pre, hpre, hx⟩]

theorem readField_found {f : Tlv} {rest : Bytes} {v : α} (hlen : len ≤ 65535)
    (hx : slice buf 0 len = tlvBytes pre ++ (f.bytes ++ rest)) (hpre : ∀ g ∈ pre, g.tag ≠ f.tag)
    (hread : ∀ field, slice field 0 f.value.length = f.value → read field = v) :
    readField buf len f.tag init read = some v := by
  have hfound := findField_found hlen hx hpre rfl
  have hv := hread (advance buf ((tlvBytes pre).length + 3)) (by
    rw [slice_advance]
    exact hfound.2.1)
  rw [readField, hfound.1]
  exact congrArg some hv

/-- Among fields with different tags each one is the first with its tag, in whatever order they
    stand. -/
theorem first_of_mem {fs : List Tlv} {f : Tlv} (htags : (fs.map Tlv.tag).Nodup) (hf : f ∈ fs) :
    ∃ before after, tlvBytes fs = tlvBytes before ++ (f.bytes ++ tlvBytes after) ∧
      ∀ g ∈ before, g.tag ≠ f.tag := by
  obtain ⟨before, after, rfl⟩ := List.append_of_mem hf
  rw [List.map_append, List.map_cons, List.nodup_append] at htags
  refine ⟨before, after, by rw [tlvBytes_append, tlvBytes_cons], fun g hg ↦ ?_⟩
  exact htags.2.2 g.tag (List.mem_map_of_mem hg) f.tag List.mem_cons_self

theorem findField_mem {fs : List Tlv} {f : Tlv} (hlen : len ≤ 65535)
    (hx : slice buf 0 len = tlvBytes fs) (htags : (fs.map Tlv.tag).Nodup) (hf : f ∈ fs) :
    ∃ field, protocolFindField buf len f.tag = some (.ok field) ∧
      field.len = f.value.length ∧ slice buf field.off field.len = f.value := by
  obtain ⟨before, after, hfs, hbefore⟩ := first_of_mem htags hf
  have hfound := findField_found hlen (hx.trans hfs) hbefore rfl
  exact ⟨_, hfound.1, rfl, hfound.2.1⟩

theorem readField_mem {fs : List Tlv} {f : Tlv} {v : α} (hlen : len ≤ 65535)
    (hx : slice buf 0 len = tlvBytes fs) (htags : (fs.map Tlv.tag).Nodup) (hf : f ∈ fs)
    (hread : ∀ field, slice field 0 f.value.length = f.value → read field = v) :
    readField buf len f.tag init read = some v := by
  obtain ⟨before, after, hfs, hbefore⟩ := first_of_mem htags hf
  exact readField_found hlen (hx.trans hfs) hbefore hread

end Lookup

/-! ## 4. Walking -/

section Walk

variable {value : Mem} {valueLen : Nat}

theorem walkLoop_tlv {offset : Nat} {f : Tlv} {s : Bytes} (fuel : Nat) (hlen : valueLen ≤ 65535)
    (h : slice value offset (valueLen - offset) = f.bytes ++ s) :
    walkLoop value valueLen (fuel + 1) offset =
      (walkLoop value valueLen fuel (offset + f.bytes.length)).map
        ((f.tag, { off := offset + 3, len := f.value.length }) :: ·) := by
  have hn := congrArg List.length h
  have hb := f.bytes_length
  rw [slice_length, List.length_append] at hn
  obtain ⟨k, hk⟩ : ∃ k, valueLen - offset = k + 3 := ⟨valueLen - offset - 3, by omega⟩
  rw [hk, f.bytes_eq] at h
  simp only [slice_succ, List.cons_append, List.cons.injEq] at h
  have hfLen : protocolGetU16 (advance value (offset + 1)) = f.value.length := by
    rw [protocolGetU16_eq, advance_apply, advance_apply, Nat.add_zero, h.2.1, h.2.2.1,
      bigEndian16_put f.length_lt]
  -- up to the end of a TLV in the buffer no 16-bit sum wraps
  have hnext : u16 (offset + 3 + f.value.length) = offset + f.bytes.length := by
    rw [u16_of_lt (by omega)]
    omega
  rw [walkLoop, u16_of_lt (by omega), if_pos (by omega), hfLen, h.1]
  dsimp only
  rw [hnext]
  cases walkLoop value valueLen fuel (offset + f.bytes.length) with
  | none => rfl
  | some visited => rfl

end Walk

theorem tlvBytes_length_ge (fs : List Tlv) : 3 * fs.length ≤ (tlvBytes fs).length := by
  induction fs with
  | nil => exact Nat.zero_le _
  | cons f fs ih =>
      have hb := f.bytes_length
      rw [tlvBytes_cons, List.length_append, List.length_cons]
      omega

end SubmarineMonitor
