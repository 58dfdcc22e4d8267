import SubmarineMonitor.Protocol.Frame

/-!
# Tlv — the TLV codec of `common/protocol.c`

`Protocol_EncodeTLV`, `Protocol_DecodeTLV` and `Protocol_FindField`.  A pointer into a buffer is
its offset.  The scan of `Protocol_FindField` need not terminate, so its loop takes fuel and
`none` says that the fuel ran out.
-/

open Reasoning

namespace SubmarineMonitor

/-- Writes one TLV at `outBuf + outOff`. -/
def protocolEncodeTLV (tag : UInt8) (value : Mem) (valueLen : Nat)
    (outBuf : Mem) (outOff outBufCap outWritten : Nat) : EncodeOut :=
  -- `(uint16_t)(3 + valueLen)`
  let total := u16 (3 + valueLen)
  if outBufCap < total then { result := .errBufferTooSmall, outBuf, outWritten }
  else
    let outBuf := store outBuf outOff [tag]
    let outBuf := store outBuf (outOff + 1) (protocolPutU16 valueLen)
    let outBuf := store outBuf (outOff + 3) (slice value 0 valueLen)
    { result := .ok, outBuf, outWritten := total }

/-- `*outTag`, `*outValue - inBuf`, `*outValueLen` and `*outConsumed`. -/
structure DecodedTLV where
  tag : UInt8
  valueOff : Nat
  valueLen : Nat
  consumed : Nat
  deriving DecidableEq, Repr

def protocolDecodeTLV (inBuf : Mem) (inLen : Nat) : Except ProtoResult DecodedTLV :=
  if inLen < 3 then .error .errIncomplete
  else
    let valueLen := protocolGetU16 (advance inBuf 1)
    -- a length of 65533 and more wraps to a total of 0, 1 or 2
    if inLen < u16 (3 + valueLen) then .error .errIncomplete
    else .ok { tag := inBuf 0, valueOff := 3, valueLen, consumed := u16 (3 + valueLen) }

/-- A field found in a buffer: `*outValue - buf` and `*outValueLen`. -/
structure Field where
  off : Nat
  len : Nat
  deriving DecidableEq, Repr

def findFieldLoop (buf : Mem) (len : Nat) (tag : UInt8) :
    Nat → Nat → Option (Except ProtoResult Field)
  | 0, _ => none
  | fuel + 1, offset =>
      if offset < len then
        match protocolDecodeTLV (advance buf offset) (u16 (len - offset)) with
        | .error _ => some (.error .errMalformed)
        | .ok cur =>
            if cur.tag = tag then
              some (.ok { off := offset + cur.valueOff, len := cur.valueLen })
            else findFieldLoop buf len tag fuel (u16 (offset + cur.consumed))
      else some (.error .errNotFound)

/-- A terminating scan tests its loop condition at most once per offset, so `none` here says that
    the call does not return (`protocolFindField_eq_none_iff`). -/
def protocolFindField (buf : Mem) (len : Nat) (tag : UInt8) : Option (Except ProtoResult Field) :=
  findFieldLoop buf len tag 65536 0

end SubmarineMonitor
