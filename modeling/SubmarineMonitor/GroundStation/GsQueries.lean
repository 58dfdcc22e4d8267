import SubmarineMonitor.Protocol.PrintedRecord

/-!
# GsQueries — requests and their responses in `gs_queries.cpp`

A socket is the byte string the peer sends before it closes: `recv` with `MSG_WAITALL` waits for all
the bytes it asks for and comes back short only at the end of the stream.
-/

open Reasoning

namespace SubmarineMonitor

/-! ## 1. Sending -/

/-- What the uninitialised variables of a request and of `GsSend` hold. -/
structure RequestFrame where
  payload : Mem
  valueBuf : Mem
  written : Nat
  message : Mem
  messageLen : Nat

def gsSend (message : Mem) (messageLen : Nat) (tag : UInt8) (value : Mem) (valueLen : Nat) : Bytes :=
  let out := protocolEncodeTLV tag value valueLen message 0 128 messageLen
  protocolPutU32 out.outWritten ++ slice out.outBuf 0 out.outWritten

/-- The `payload[80]` of a request; the size of the string is cast to 16 bits. -/
def requestPayload (frame : RequestFrame) (submarineId : Bytes) (start stop : UInt32) : FieldBuf :=
  let b : FieldBuf :=
    { buf := frame.payload, valueBuf := frame.valueBuf, written := frame.written }
  let b := b.encodeNext 80 protoFieldSubmarineId (ofList submarineId 0) (u16 submarineId.length)
  let b := b.encodeField 80 protoFieldTimeRangeStart (protocolPutU32 start.toNat)
  b.encodeField 80 protoFieldTimeRangeEnd (protocolPutU32 stop.toNat)

def sendRequest (reqTag : UInt8) (frame : RequestFrame) (submarineId : Bytes)
    (start stop : UInt32) : Bytes :=
  let b := requestPayload frame submarineId start stop
  gsSend frame.message frame.messageLen reqTag b.buf b.len

def gsRequestLogSends : RequestFrame → Bytes → UInt32 → UInt32 → Bytes :=
  sendRequest protoTagGsGetLogReq

def gsRequestEventsSends : RequestFrame → Bytes → UInt32 → UInt32 → Bytes :=
  sendRequest protoTagGsGetEventsReq

/-! ## 2. Receiving -/

/-- `*outTag`, `*outValue` and `*outValueLen`. -/
structure GsMessage where
  tag : UInt8
  value : Mem
  valueLen : Nat

/-- The message and the rest of the stream.  `storage` is resized to the message; `heap` is what
    lies where it is allocated. -/
def gsRecvMessage (heap : Mem) (stream : Bytes) : Option (GsMessage × Bytes) :=
  if stream.length < 4 then none
  else
    let msgLen := protocolGetU32 (ofList (stream.take 4) 0)
    let rest := stream.drop 4
    if msgLen = 0 then none
    else if rest.length < msgLen then none
    else
      -- the length is cast to 16 bits for the decoder, not for `recv`
      let storage := store heap 0 (rest.take msgLen)
      match protocolDecodeTLV storage (u16 msgLen) with
      | .error _ => none
      | .ok d =>
          some ({ tag := d.tag, value := advance storage d.valueOff, valueLen := d.valueLen },
            rest.drop msgLen)

/-! ## 3. Responses -/

def printMeasurementRecord : Mem → Nat → Option PrintedMeasurement := readMeasurementRecord

inductive GsOutcome (α : Type)
  | notReceived
  | unexpectedTag (tag : UInt8)
  | noDataFound
  | status (status : UInt8)
  | records (printed : List α)
  deriving DecidableEq, Repr

/-- The part of a request behind `GsSend`; `none` when a lookup or the walk does not return. -/
def gsReadResponse {α : Type} (respTag recordTag : UInt8) (print : Mem → Nat → Option α)
    (heap : Mem) (stream : Bytes) : Option (GsOutcome α) :=
  match gsRecvMessage heap stream with
  | none => some .notReceived
  | some (m, _) =>
      if m.tag ≠ respTag then some (.unexpectedTag m.tag)
      else do
        -- a response without STATUS counts as SUCCESS, which is 0
        let status ← readField m.value m.valueLen protoFieldStatus 0 getU8
        if status = protoStatusNoDataFound then return .noDataFound
        else if status ≠ protoStatusSuccess then return .status status
        else
          let visited ← walkTlv m.value m.valueLen
          let printed ← (visited.filter fun p ↦ p.1 = recordTag).mapM fun p ↦
            print (advance m.value p.2.off) p.2.len
          return .records printed

def gsRequestLog : Mem → Bytes → Option (GsOutcome PrintedMeasurement) :=
  gsReadResponse protoTagGsGetLogResp protoFieldMeasurementRecord printMeasurementRecord

def gsRequestEvents : Mem → Bytes → Option (GsOutcome PrintedEvent) :=
  gsReadResponse protoTagGsGetEventsResp protoFieldEventRecord readEventRecord

end SubmarineMonitor
