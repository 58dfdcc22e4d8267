import SubmarineMonitor.Protocol.Words

/-!
# Frame — the frame envelope of `common/protocol.c`

`Frame_Encode` and `Frame_Decode` with their helpers, index by index.  An output buffer is the
memory behind `outBuf`, so that a write past the capacity is a change of a cell past it.
-/

open Reasoning

namespace SubmarineMonitor

/-! ## 1. CRC-16/CCITT-FALSE -/

def crc16Bit (crc : UInt16) : UInt16 :=
  if crc &&& 0x8000 ≠ 0 then (crc <<< 1) ^^^ 0x1021 else crc <<< 1

def crc16Byte (crc : UInt16) (b : UInt8) : UInt16 :=
  crc16Bit^[8] (crc ^^^ (b.toUInt16 <<< 8))

def crc16Update (crc : UInt16) (data : Bytes) : UInt16 := data.foldl crc16Byte crc

def protocolCrc16 (data : Bytes) : UInt16 := crc16Update 0xFFFF data

/-! ## 2. Byte stuffing -/

/-- An output buffer with the index `*outIdx` of the next byte. -/
structure Writer where
  out : Mem
  idx : Nat

/-- `out[(*outIdx)++] = b`. -/
def Writer.put (w : Writer) (b : UInt8) : Writer :=
  { out := store w.out w.idx [b], idx := u16 (w.idx + 1) }

def stuffWriteByte (outCap : Nat) (w : Writer) (b : UInt8) : Option Writer :=
  if b = protoFrameStart ∨ b = protoFrameEscape then
    if u16 (w.idx + 2) > outCap then none
    else some ((w.put protoFrameEscape).put (b ^^^ protoFrameEscapeXor))
  else
    if u16 (w.idx + 1) > outCap then none
    else some (w.put b)

/-- A loop of `stuff_write_byte` calls; a failed call leaves what was written before it. -/
def stuffWriteBytes (outCap : Nat) : Bytes → Writer → Except Mem Writer
  | [], w => .ok w
  | b :: bs, w =>
      match stuffWriteByte outCap w b with
      | none => .error w.out
      | some w => stuffWriteBytes outCap bs w

def destuffReadByte (inBuf : Mem) (inLen inIdx : Nat) : Option (UInt8 × Nat) :=
  if inIdx ≥ inLen then none
  else
    let b := inBuf inIdx
    if b = protoFrameEscape then
      if u16 (inIdx + 1) ≥ inLen then none
      else some (inBuf (inIdx + 1) ^^^ protoFrameEscapeXor, u16 (inIdx + 2))
    else some (b, u16 (inIdx + 1))

def destuffReadBytes (inBuf : Mem) (inLen : Nat) : Nat → Nat → Option (Bytes × Nat)
  | 0, inIdx => some ([], inIdx)
  | n + 1, inIdx =>
      match destuffReadByte inBuf inLen inIdx with
      | none => none
      | some (b, inIdx) =>
          (destuffReadBytes inBuf inLen n inIdx).map fun p ↦ (b :: p.1, p.2)

/-! ## 3. Encoding and decoding -/

/-- What an encoder returns: its result code, the output buffer and `*outWritten`, which keeps its
    old value when the call fails. -/
structure EncodeOut where
  result : ProtoResult
  outBuf : Mem
  outWritten : Nat

/-- The CRC over LENGTH and the payload, taken in two calls. -/
def frameCrc (lenBytes payload : Bytes) : UInt16 :=
  crc16Update (crc16Update 0xFFFF lenBytes) payload

def frameEncode (payload : Mem) (payloadLen : Nat) (outBuf : Mem) (outBufCap outWritten : Nat) :
    EncodeOut :=
  let lenBytes := protocolPutU16 payloadLen
  let crcBytes := protocolPutU16 (frameCrc lenBytes (slice payload 0 payloadLen)).toNat
  if outBufCap < 1 then { result := .errBufferTooSmall, outBuf, outWritten }
  else
    let w := Writer.put { out := outBuf, idx := 0 } protoFrameStart
    let written : Except Mem Writer := do
      let w ← stuffWriteBytes outBufCap lenBytes w
      let w ← stuffWriteBytes outBufCap (slice payload 0 payloadLen) w
      stuffWriteBytes outBufCap crcBytes w
    match written with
    | .error out => { result := .errBufferTooSmall, outBuf := out, outWritten }
    | .ok w => { result := .ok, outBuf := w.out, outWritten := w.idx }

/-- What `Frame_Decode` returns: `*outConsumed` is there on `PROTO_OK` and `PROTO_ERR_MALFORMED`
    only, the payload on `PROTO_OK` only. -/
inductive FrameDecodeResult
  | ok (outPayload : Bytes) (outConsumed : Nat)
  | malformed (outConsumed : Nat)
  | incomplete
  | bufferTooSmall
  deriving DecidableEq, Repr

/-- The scan for START.  `fuel` bounds the number of loop tests. -/
def frameScanStart (inBuf : Mem) (inLen : Nat) : Nat → Nat → Nat
  | 0, startIdx => startIdx
  | fuel + 1, startIdx =>
      if startIdx < inLen ∧ inBuf startIdx ≠ protoFrameStart then
        frameScanStart inBuf inLen fuel (u16 (startIdx + 1))
      else startIdx

def frameDecode (inBuf : Mem) (inLen outPayloadCap : Nat) : FrameDecodeResult :=
  let startIdx := frameScanStart inBuf inLen inLen 0
  -- no START: nothing is consumed, not even the noise
  if startIdx ≥ inLen then .incomplete
  else
    match destuffReadBytes inBuf inLen 2 (u16 (startIdx + 1)) with
    | none => .incomplete
    | some (lenBytes, idx) =>
        let payloadLen := protocolGetU16 (ofList lenBytes 0)
        -- decided before the payload is there
        if payloadLen > outPayloadCap then .bufferTooSmall
        else
          match destuffReadBytes inBuf inLen payloadLen idx with
          | none => .incomplete
          | some (outPayload, idx) =>
              match destuffReadBytes inBuf inLen 2 idx with
              | none => .incomplete
              | some (crcBytes, idx) =>
                  let receivedCrc := protocolGetU16 (ofList crcBytes 0)
                  -- a START inside the frame has been read on as data
                  if (frameCrc lenBytes outPayload).toNat ≠ receivedCrc then .malformed idx
                  else .ok outPayload idx

end SubmarineMonitor
