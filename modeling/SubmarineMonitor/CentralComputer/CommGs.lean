import SubmarineMonitor.Protocol.FieldBuf
import SubmarineMonitor.Storage.DataCollection

/-!
# CommGs — the Ground Station link of `comm_gs.cpp`

`GsRecvMessage`, and the builders of `CC_GsLink_HandleGetLog` and `CC_GsLink_HandleGetEvents`.  The code never looks at
what `Protocol_EncodeTLV` returns; the model records it in a flag.  What the stack holds when a function
starts is a parameter.
-/

open Reasoning

namespace SubmarineMonitor

/-! ## 1. Fields -/

/-- The six fields of a measurement, in a `measurement[40]`. -/
def encodeMeasurementFields (m : DcaMeasurement) (b : FieldBuf) : FieldBuf :=
  let b := b.encodeField 40 protoFieldTimestamp (protocolPutU32 m.timestamp.toNat)
  let b := b.encodeField 40 protoFieldTemperature (protocolPutU16 m.temperature.toUInt16.toNat)
  let b := b.encodeField 40 protoFieldHumidity [m.humidity]
  let b := b.encodeField 40 protoFieldLight (protocolPutU16 m.light.toNat)
  let b := b.encodeField 40 protoFieldBatteryVoltage (protocolPutU16 m.batteryVoltage.toNat)
  b.encodeField 40 protoFieldMode [m.mode]

/-! ## 2. Records -/

structure StackFrame where
  measurement : Mem
  eventBuf : Mem
  recordBuf : Mem
  valueBuf : Mem
  statusField : Mem
  written : Nat
  mwritten : Nat
  recordLen : Nat
  statusFieldLen : Nat

def appendMeasurementRecord (stack : StackFrame) (out : Bytes) (m : DcaMeasurement) :
    Bytes × Bool :=
  let b := encodeMeasurementFields m
    { buf := stack.measurement, valueBuf := stack.valueBuf, written := stack.written }
  let record := protocolEncodeTLV protoFieldMeasurementRecord b.buf b.len stack.recordBuf 0 48
    stack.recordLen
  (out ++ slice record.outBuf 0 record.outWritten, b.ok && decide (record.result = .ok))

/-- The fields of an event, in an `eventBuf[80]`; the nested measurement has its own buffer. -/
def encodeEventFields (stack : StackFrame) (e : DcaEvent) (b : FieldBuf) : FieldBuf :=
  let b := b.encodeField 80 protoFieldTimestamp (protocolPutU32 e.timestamp.toNat)
  let b := b.encodeField 80 protoFieldEventType [e.eventType]
  let b := b.encodeField 80 protoFieldEventSource [e.eventSource]
  if e.hasMeasurement then
    let m := encodeMeasurementFields e.measurement
      { buf := stack.measurement, valueBuf := b.valueBuf, written := stack.mwritten }
    FieldBuf.encodeNext 80 protoFieldMeasurementRecord m.buf m.len
      { b with valueBuf := m.valueBuf, ok := b.ok && m.ok }
  else b

def appendEventRecord (stack : StackFrame) (out : Bytes) (e : DcaEvent) : Bytes × Bool :=
  let b := encodeEventFields stack e
    { buf := stack.eventBuf, valueBuf := stack.valueBuf, written := stack.written }
  let record := protocolEncodeTLV protoFieldEventRecord b.buf b.len stack.recordBuf 0 96
    stack.recordLen
  (out ++ slice record.outBuf 0 record.outWritten, b.ok && decide (record.result = .ok))

/-! ## 3. Requests -/

/-- `*outTag`, `*outValue` and `*outValueLen`. -/
structure RequestMessage where
  tag : UInt8
  value : Mem
  valueLen : Nat

/-- The message and the rest of the stream, which is what the peer sends before it closes. -/
def commGsRecvMessage (storage : Mem) (storageCap : Nat) (stream : Bytes) :
    Option (RequestMessage × Bytes) :=
  if stream.length < 4 then none
  else
    let msgLen := protocolGetU32 (ofList (stream.take 4) 0)
    let rest := stream.drop 4
    if msgLen = 0 ∨ storageCap < msgLen then none
    else if rest.length < msgLen then none
    else
      let storage := store storage 0 (rest.take msgLen)
      match protocolDecodeTLV storage (u16 msgLen) with
      | .error _ => none
      | .ok d =>
          some ({ tag := d.tag, value := advance storage d.valueOff, valueLen := d.valueLen },
            rest.drop msgLen)

/-! ## 4. Responses -/

def gsRespMaxPayload : Nat := 60000

/-- The loop over the records; call number `i` of the builder finds `stack i`. -/
def appendRecords {ρ : Type} (append : StackFrame → Bytes → ρ → Bytes × Bool)
    (stack : Nat → StackFrame) (payload : Bytes) : List ρ → Bytes × Bool
  | [] => (payload, true)
  | r :: records =>
      -- the cap is tested before a record is appended, so the last one may pass it
      if payload.length > gsRespMaxPayload then (payload, true)
      else
        let one := append (stack 0) payload r
        let all := appendRecords append (fun i ↦ stack (i + 1)) one.1 records
        (all.1, one.2 && all.2)

def statusPayload (stack : StackFrame) (status : UInt8) : Bytes × Bool :=
  let out := protocolEncodeTLV protoFieldStatus (ofList [status] 0) 1 stack.statusField 0 4
    stack.statusFieldLen
  (slice out.outBuf 0 out.outWritten, decide (out.result = .ok))

def wrapMessage (tag : UInt8) (payload : Bytes) : Bytes :=
  tag :: (protocolPutU16 (u16 payload.length) ++ payload)

def gsSendRaw (message : Bytes) : Bytes := protocolPutU32 (u32 message.length) ++ message

structure RangeRequest where
  submarineId : Bytes
  start : UInt32
  stop : UInt32
  deriving DecidableEq, Repr

/-- A `TIME_RANGE_START` or `TIME_RANGE_END` field; `some none` is the return `false`. -/
def findTime (value : Mem) (valueLen : Nat) (tag : UInt8) : Option (Option UInt32) :=
  match protocolFindField value valueLen tag with
  | none => none
  | some (.error _) => some none
  | some (.ok f) => some (if f.len < 4 then none else some (getU32 (advance value f.off)))

/-- `none` when a lookup does not return, `some none` when the function returns `false`. -/
def parseGsRangeRequest (value : Mem) (valueLen : Nat) : Option (Option RangeRequest) :=
  match protocolFindField value valueLen protoFieldSubmarineId with
  | none => none
  | some (.error _) => some none
  | some (.ok f) =>
      match findTime value valueLen protoFieldTimeRangeStart with
      | none => none
      | some none => some none
      | some (some start) =>
          match findTime value valueLen protoFieldTimeRangeEnd with
          | none => none
          | some none => some none
          | some (some stop) =>
              some (some { submarineId := slice value f.off f.len, start, stop })

/-- The message a handler gives to `GsSendRaw`, and whether every encoding in it succeeded. -/
structure GsReply where
  message : Bytes
  ok : Bool
  deriving DecidableEq, Repr

/-- Both handlers: frame 0 is the handler's own, frame `i + 1` that of its `i`-th record. -/
def handleRangeRequest {ρ : Type} (respTag : UInt8) (append : StackFrame → Bytes → ρ → Bytes × Bool)
    (query : Bytes → UInt32 → UInt32 → List ρ) (stack : Nat → StackFrame) (value : Mem)
    (valueLen : Nat) : Option GsReply :=
  match parseGsRangeRequest value valueLen with
  | none => none
  -- the request lacks a field
  | some none =>
      let status := statusPayload (stack 0) protoStatusInternalError
      some { message := wrapMessage respTag status.1, ok := status.2 }
  | some (some request) =>
      let records := query request.submarineId request.start request.stop
      let status := statusPayload (stack 0)
        (if records.isEmpty then protoStatusNoDataFound else protoStatusSuccess)
      let payload := appendRecords append (fun i ↦ stack (i + 1)) status.1 records
      some { message := wrapMessage respTag payload.1, ok := status.2 && payload.2 }

def ccGsLinkHandleGetLog : (Bytes → UInt32 → UInt32 → List DcaMeasurement) → (Nat → StackFrame) →
    Mem → Nat → Option GsReply :=
  handleRangeRequest protoTagGsGetLogResp appendMeasurementRecord

def ccGsLinkHandleGetEvents : (Bytes → UInt32 → UInt32 → List DcaEvent) → (Nat → StackFrame) →
    Mem → Nat → Option GsReply :=
  handleRangeRequest protoTagGsGetEventsResp appendEventRecord

end SubmarineMonitor
