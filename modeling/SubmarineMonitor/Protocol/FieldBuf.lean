import SubmarineMonitor.Protocol.FieldAccess

/-!
# FieldBuf — buffers that are filled field by field

The pattern of every message builder: a fixed buffer, its fill, a scratch `valueBuf`, and calls of
`Protocol_EncodeTLV` whose result is ignored.  While the fields fit, the buffer holds their words
one behind the other (`FieldBuf.Holds`).
-/

open Reasoning

namespace SubmarineMonitor

/-! ## 1. Definitions -/

/-- A `uint8_t buf[size]` that is filled field by field, with its fill, the scratch `valueBuf` and
    `written`.  `ok` is no variable of the code: every encoding so far returned `PROTO_OK`. -/
structure FieldBuf where
  buf : Mem
  len : Nat := 0
  valueBuf : Mem
  written : Nat
  ok : Bool := true

/-- `Protocol_EncodeTLV(tag, value, valueLen, buf + len, (uint16_t)(sizeof(buf) - len), &written)`
    and `len = (uint16_t)(len + written)`.  The difference of `size_t` values is taken modulo
    `2 ^ 64`. -/
def FieldBuf.encodeNext (size : Nat) (tag : UInt8) (value : Mem) (valueLen : Nat) (b : FieldBuf) :
    FieldBuf :=
  let out := protocolEncodeTLV tag value valueLen b.buf b.len (u16 (2 ^ 64 + size - b.len)) b.written
  { b with
    buf := out.outBuf
    len := u16 (b.len + out.outWritten)
    written := out.outWritten
    ok := b.ok && decide (out.result = .ok) }

def FieldBuf.encodeField (size : Nat) (tag : UInt8) (bytes : Bytes) (b : FieldBuf) : FieldBuf :=
  let valueBuf := store b.valueBuf 0 bytes
  FieldBuf.encodeNext size tag valueBuf bytes.length { b with valueBuf }

def u8Tlv (tag : UInt8) (b : UInt8) : Tlv :=
  { tag, value := [b], length_lt := by rw [List.length_singleton]; decide }

def u16Tlv (tag : UInt8) (n : UInt16) : Tlv :=
  { tag, value := protocolPutU16 n.toNat, length_lt := by rw [protocolPutU16_length]; decide }

def u32Tlv (tag : UInt8) (n : UInt32) : Tlv :=
  { tag, value := protocolPutU32 n.toNat, length_lt := by rw [protocolPutU32_length]; decide }

/-! ## 2. Fields that fit -/

theorem FieldBuf.encodeNext_fits {size : Nat} (b : FieldBuf) (f : Tlv) {value : Mem} {valueLen : Nat}
    (hlen : valueLen = f.value.length) (hvalue : slice value 0 valueLen = f.value)
    (hfit : b.len + f.bytes.length ≤ size) (hsize : size < 65536) :
    b.encodeNext size f.tag value valueLen =
      { b with buf := store b.buf b.len f.bytes, len := b.len + f.bytes.length,
               written := f.bytes.length } := by
  -- the room that is left is what the code computes
  have hcap : u16 (2 ^ 64 + size - b.len) = size - b.len := by
    unfold u16
    omega
  have hnext : u16 (b.len + f.bytes.length) = b.len + f.bytes.length := u16_of_lt (by omega)
  rw [FieldBuf.encodeNext, hcap, protocolEncodeTLV_tlv f hlen hvalue (by omega) (by omega)]
  dsimp only
  rw [hnext, decide_eq_true rfl, Bool.and_true]

theorem FieldBuf.encodeField_fits {size : Nat} (b : FieldBuf) (f : Tlv)
    (hfit : b.len + f.bytes.length ≤ size) (hsize : size < 65536) :
    (b.encodeField size f.tag f.value).len = b.len + f.bytes.length ∧
      slice (b.encodeField size f.tag f.value).buf 0 (b.len + f.bytes.length) =
        slice b.buf 0 b.len ++ f.bytes := by
  have hbytes := slice_store_append b.buf 0 b.len f.bytes
  rw [Nat.zero_add] at hbytes
  have hnext := FieldBuf.encodeNext_fits { b with valueBuf := store b.valueBuf 0 f.value } f rfl
    (slice_store b.valueBuf 0 f.value) hfit hsize
  rw [FieldBuf.encodeField, hnext]
  exact ⟨rfl, hbytes⟩

/-- Whether or not a field fits, `written` is added to the fill: where it does not, this is what the
    field before it left there. -/
theorem FieldBuf.encodeNext_len (size : Nat) (tag : UInt8) (value : Mem) (valueLen : Nat)
    (b : FieldBuf) :
    (b.encodeNext size tag value valueLen).written =
        (if u16 (2 ^ 64 + size - b.len) < u16 (3 + valueLen) then b.written
          else u16 (3 + valueLen)) ∧
      (b.encodeNext size tag value valueLen).len =
        u16 (b.len + (b.encodeNext size tag value valueLen).written) := by
  refine ⟨?_, rfl⟩
  rw [FieldBuf.encodeNext, protocolEncodeTLV]
  dsimp only
  by_cases hfull : u16 (2 ^ 64 + size - b.len) < u16 (3 + valueLen)
  · rw [if_pos hfull, if_pos hfull]
  · rw [if_neg hfull, if_neg hfull]

theorem FieldBuf.encodeField_len (size : Nat) (tag : UInt8) (bytes : Bytes) (b : FieldBuf) :
    (b.encodeField size tag bytes).written =
        (if u16 (2 ^ 64 + size - b.len) < u16 (3 + bytes.length) then b.written
          else u16 (3 + bytes.length)) ∧
      (b.encodeField size tag bytes).len =
        u16 (b.len + (b.encodeField size tag bytes).written) :=
  FieldBuf.encodeNext_len size tag _ bytes.length { b with valueBuf := store b.valueBuf 0 bytes }

structure FieldBuf.Holds (b : FieldBuf) (fs : List Tlv) : Prop where
  len_eq : b.len = (tlvBytes fs).length
  bytes : slice b.buf 0 b.len = tlvBytes fs
  ok : b.ok = true

section Build

variable {b : FieldBuf} {fs : List Tlv} {size : Nat}

theorem FieldBuf.Holds.encodeNext (h : b.Holds fs) (f : Tlv) {value : Mem} {valueLen : Nat}
    (hlen : valueLen = f.value.length) (hvalue : slice value 0 valueLen = f.value)
    (hfit : (tlvBytes fs).length + f.bytes.length ≤ size) (hsize : size < 65536) :
    (b.encodeNext size f.tag value valueLen).Holds (fs ++ [f]) := by
  have hblen := h.len_eq
  have hlast : tlvBytes (fs ++ [f]) = tlvBytes fs ++ f.bytes := by
    rw [tlvBytes_append, tlvBytes_cons, tlvBytes_nil, List.append_nil]
  have hbytes := slice_store_append b.buf 0 b.len f.bytes
  rw [Nat.zero_add, h.bytes, ← hlast] at hbytes
  rw [b.encodeNext_fits f hlen hvalue (by omega) hsize]
  exact { len_eq := by rw [hlast, List.length_append, ← hblen], bytes := hbytes, ok := h.ok }

theorem FieldBuf.Holds.encodeField (h : b.Holds fs) (f : Tlv)
    (hfit : (tlvBytes fs).length + f.bytes.length ≤ size) (hsize : size < 65536) :
    (b.encodeField size f.tag f.value).Holds (fs ++ [f]) := by
  have hb : FieldBuf.Holds { b with valueBuf := store b.valueBuf 0 f.value } fs :=
    { len_eq := h.len_eq, bytes := h.bytes, ok := h.ok }
  exact hb.encodeNext f rfl (slice_store _ _ _) hfit hsize

theorem FieldBuf.Holds.encodeFields (h : b.Holds fs) (gs : List Tlv)
    (hfit : (tlvBytes fs).length + (tlvBytes gs).length ≤ size) (hsize : size < 65536) :
    (gs.foldl (fun b f ↦ b.encodeField size f.tag f.value) b).Holds (fs ++ gs) := by
  induction gs generalizing b fs with
  | nil =>
      rw [List.append_nil]
      exact h
  | cons f gs ih =>
      rw [tlvBytes_cons, List.length_append] at hfit
      have hnext : (b.encodeField size f.tag f.value).Holds (fs ++ [f]) :=
        h.encodeField f (by omega) hsize
      have hlen : (tlvBytes (fs ++ [f])).length = (tlvBytes fs).length + f.bytes.length := by
        rw [tlvBytes_append, tlvBytes_cons, tlvBytes_nil, List.append_nil, List.length_append]
      have hall := ih hnext (by omega)
      rw [List.append_assoc] at hall
      exact hall

end Build

end SubmarineMonitor
