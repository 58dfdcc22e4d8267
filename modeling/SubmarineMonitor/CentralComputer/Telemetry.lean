import SubmarineMonitor.CentralComputer.LncLinkClient
import SubmarineMonitor.Protocol.FieldValue
import SubmarineMonitor.Protocol.TcpMessage

/-!
# Telemetry — what the core makes of the messages on its LNC link

A message is rejected, or telemetry, or a reply.  Telemetry with a complete value makes the store
calls its bytes determine (`messageStores`); a call of `CcCore_LncRecvMessage` handles the telemetry
in front of the first reply and leaves what comes behind it (`ccCoreLncRecvMessage_receives`).
-/

open Reasoning

namespace SubmarineMonitor

/-! ## 1. Messages -/

/-- What `Protocol_DecodeTLV` accepts: the tag, the length that is declared, and the bytes behind the
    header. -/
structure DecodedMessage where
  tag : UInt8
  len : Nat
  rest : Bytes
  deriving DecidableEq, Repr

def decodeMessage : Bytes → Option DecodedMessage
  | t :: hi :: lo :: rest =>
      if rest.length + 3 < u16 (3 + bigEndian16 hi lo) then none
      else some { tag := t, len := bigEndian16 hi lo, rest }
  | _ => none

def DecodedMessage.IsTelemetry (d : DecodedMessage) : Prop :=
  d.tag = protoTagKeepAlive ∨ d.tag = protoTagEventReport

/-- The value, which a wrapped length cuts off at the end of the message. -/
def DecodedMessage.value (d : DecodedMessage) : Bytes := d.rest.take d.len

instance (d : DecodedMessage) : Decidable d.IsTelemetry :=
  inferInstanceAs (Decidable (d.tag = protoTagKeepAlive ∨ d.tag = protoTagEventReport))

def WellFormedMessage (m : Bytes) : Prop :=
  ∀ d, decodeMessage m = some d → d.IsTelemetry → d.len ≤ d.rest.length ∧
    ∃ fs, d.value = tlvBytes fs ∧ CompleteValue protoFieldMeasurementRecord fs

def IsReply (m : Bytes) : Prop := ∃ d, decodeMessage m = some d ∧ ¬ d.IsTelemetry

def keepAliveStores (fs : List Tlv) : List DcaStore :=
  match fieldOf protoFieldMeasurementRecord fs with
  | none => []
  | some record =>
      let reading := readingOf (siblings record)
      [.measurement
        { timestamp := fieldValue fs protoFieldTimestamp 0 getU32
          temperature := reading.temperature, humidity := reading.humidity
          light := reading.light, batteryVoltage := reading.battery
          mode := fieldValue fs protoFieldMode 0 getU8 }]

def eventReportStore (fs : List Tlv) : StoreEventArgs :=
  let timestamp := fieldValue fs protoFieldTimestamp 0 getU32
  let eventType := fieldValue fs protoFieldEventType 0 getU8
  let eventSource := fieldValue fs protoFieldEventSource 0 getU8
  match fieldOf protoFieldMeasurementRecord fs with
  | none =>
      { timestamp, eventType, eventSource, hasMeasurement := false, temperature := 0, humidity := 0
        light := 0, batteryVoltage := 0, mode := 0 }
  | some record =>
      let reading := readingOf (siblings record)
      { timestamp, eventType, eventSource, hasMeasurement := true
        temperature := reading.temperature, humidity := reading.humidity, light := reading.light
        batteryVoltage := reading.battery, mode := reading.mode }

def handlerCalls (m : Bytes) : List HandlerCall :=
  match decodeMessage m with
  | none => []
  | some d => if d.IsTelemetry then [{ tag := d.tag, value := d.value }] else []

def messageStores (m : Bytes) : List DcaStore :=
  match decodeMessage m with
  | none => []
  | some d =>
      if d.tag = protoTagKeepAlive then keepAliveStores (siblings d.value)
      else if d.tag = protoTagEventReport then [.event (eventReportStore (siblings d.value))]
      else []

/-! ## 2. The handlers -/

section Handlers

variable {value : Mem} {len : Nat} {fs : List Tlv}

theorem readRecord_complete {β : Type} (hlen : len ≤ 65535) (hx : slice value 0 len = tlvBytes fs)
    (hwidth : FullWidth fs) (f : Int16 → UInt8 → UInt16 → UInt16 → Option β) :
    ((readField value len protoFieldTemperature 0 getI16).bind fun temperature ↦
        (readField value len protoFieldHumidity 0 getU8).bind fun humidity ↦
          (readField value len protoFieldLight 0 getU16).bind fun light ↦
            (readField value len protoFieldBatteryVoltage 0 getU16).bind fun battery ↦
              f temperature humidity light battery) =
      f (readingOf fs).temperature (readingOf fs).humidity (readingOf fs).light
        (readingOf fs).battery := by
  rw [readField_complete hlen hx hwidth getI16_reads, readField_complete hlen hx hwidth getU8_reads,
    readField_complete hlen hx hwidth getU16_reads, readField_complete hlen hx hwidth getU16_reads]
  rfl

theorem ccCorePrintKeepAlive_complete (hlen : len ≤ 65535) (hx : slice value 0 len = tlvBytes fs)
    (hvalue : CompleteValue protoFieldMeasurementRecord fs) :
    ccCorePrintKeepAlive value len = some (keepAliveStores fs) := by
  rw [ccCorePrintKeepAlive, readField_complete hlen hx hvalue.width getU32_reads,
    readField_complete hlen hx hvalue.width getU8_reads, keepAliveStores]
  cases hrecord : fieldOf protoFieldMeasurementRecord fs with
  | none =>
      rw [findField_none hlen hx hrecord]
      rfl
  | some v =>
      obtain ⟨f, hfound, hflen, hslice, hwidth⟩ := findField_record hlen hx hvalue hrecord
      rw [hfound]
      simp only [Option.bind_eq_bind, Option.bind_some, readRecord_complete hflen hslice hwidth]
      rfl

theorem ccCorePrintEventReport_complete (hlen : len ≤ 65535)
    (hx : slice value 0 len = tlvBytes fs)
    (hvalue : CompleteValue protoFieldMeasurementRecord fs) :
    ccCorePrintEventReport value len = some [.event (eventReportStore fs)] := by
  have hwd : ∃ r, protocolFindField value len protoFieldWdResetFlag = some r := by
    cases hfield : fieldOf protoFieldWdResetFlag fs with
    | none => exact ⟨_, findField_none hlen hx hfield⟩
    | some v =>
        obtain ⟨f, hfound, -⟩ := findField_some hlen hx hfield
        exact ⟨_, hfound⟩
  obtain ⟨r, hr⟩ := hwd
  rw [ccCorePrintEventReport, readField_complete hlen hx hvalue.width getU32_reads,
    readField_complete hlen hx hvalue.width getU8_reads,
    readField_complete hlen hx hvalue.width getU8_reads, hr, eventReportStore]
  cases hrecord : fieldOf protoFieldMeasurementRecord fs with
  | none =>
      rw [findField_none hlen hx hrecord]
      rfl
  | some v =>
      obtain ⟨f, hfound, hflen, hslice, hwidth⟩ := findField_record hlen hx hvalue hrecord
      rw [hfound]
      simp only [Option.bind_eq_bind, Option.bind_some, readRecord_complete hflen hslice hwidth]
      rw [readField_complete hflen hslice hwidth getU8_reads]
      rfl

end Handlers

section Decode

variable {storage : Mem} {m : Bytes}

theorem protocolDecodeTLV_rejects (h : slice storage 0 m.length = m) (hm : decodeMessage m = none) :
    protocolDecodeTLV storage m.length = .error .errIncomplete := by
  rcases bytes_cases m with rfl | ⟨-, hlt⟩ | ⟨t, hi, lo, rest, rfl⟩
  · exact decodeTLV_short (by decide)
  · exact decodeTLV_short hlt
  · rw [decodeMessage, ite_eq_left_iff] at hm
    rw [decodeTLV_header h]
    apply if_pos
    by_contra hcut
    exact absurd (hm hcut) (by simp)

theorem decodeMessage_short (h : m.length < 3) : decodeMessage m = none := by
  rw [decodeMessage]
  rintro t hi lo rest rfl
  simp only [List.length_cons] at h
  omega

theorem protocolDecodeTLV_accepts {d : DecodedMessage} (h : slice storage 0 m.length = m)
    (hm : decodeMessage m = some d) :
    protocolDecodeTLV storage m.length =
        .ok { tag := d.tag, valueOff := 3, valueLen := d.len, consumed := u16 (3 + d.len) } ∧
      slice (advance storage 3) 0 d.rest.length = d.rest ∧ d.len ≤ 65535 ∧
      m.length = d.rest.length + 3 := by
  rcases bytes_cases m with rfl | ⟨-, hlt⟩ | ⟨t, hi, lo, rest, rfl⟩
  · exact absurd (hm.symm.trans (decodeMessage_short (by decide))) (by simp)
  · exact absurd (hm.symm.trans (decodeMessage_short hlt)) (by simp)
  · have hL := bigEndian16_lt hi lo
    rw [decodeMessage] at hm
    by_cases hcut : rest.length + 3 < u16 (3 + bigEndian16 hi lo)
    · rw [if_pos hcut] at hm
      exact absurd hm (by simp)
    · rw [if_neg hcut] at hm
      cases hm
      have hrest := congrArg (List.drop 3) h
      rw [slice_drop _ _ (by simp)] at hrest
      refine ⟨by rw [decodeTLV_header h]; exact if_neg hcut, ?_, by dsimp only; omega, rfl⟩
      rw [slice_advance, Nat.add_zero]
      exact hrest

theorem telemetryHandler_reply {d : DecodedMessage} {value : Mem} {len : Nat}
    (h : ¬ d.IsTelemetry) : telemetryHandler d.tag value len = some none := by
  rw [DecodedMessage.IsTelemetry, not_or] at h
  rw [telemetryHandler, if_neg h.1, if_neg h.2]

theorem telemetryHandler_telemetry {d : DecodedMessage} (h : slice storage 0 m.length = m)
    (hwell : WellFormedMessage m) (hm : decodeMessage m = some d) (ht : d.IsTelemetry) :
    telemetryHandler d.tag (advance storage 3) d.len = some (some (messageStores m)) ∧
      handlerCalls m = [{ tag := d.tag, value := slice (advance storage 3) 0 d.len }] := by
  obtain ⟨-, hrest, hlen, -⟩ := protocolDecodeTLV_accepts h hm
  obtain ⟨hin, fs, hfs, hvalue⟩ := hwell d hm ht
  have hvalueBytes : slice (advance storage 3) 0 d.len = d.value := by
    rw [DecodedMessage.value, ← hrest, slice_take _ _ hin]
  have hx : slice (advance storage 3) 0 d.len = tlvBytes fs := hvalueBytes.trans hfs
  refine ⟨?_, by rw [handlerCalls, hm, hvalueBytes]; exact if_pos ht⟩
  rw [telemetryHandler, messageStores, hm]
  dsimp only
  rw [hfs, siblings_complete]
  rcases ht with hkeep | hevent
  · rw [if_pos hkeep, if_pos hkeep, ccCorePrintKeepAlive_complete hlen hx hvalue]
    rfl
  · have hother : ¬ d.tag = protoTagKeepAlive := by
      rw [hevent]
      decide
    rw [if_neg hother, if_pos hevent, if_neg hother, if_pos hevent,
      ccCorePrintEventReport_complete hlen hx hvalue]
    rfl

end Decode

end SubmarineMonitor
