import SubmarineMonitor.Protocol.FieldAccess
import SubmarineMonitor.Storage.DataCollection

/-!
# Log — the telemetry handlers of `log.cpp`

What a handler does for the rest of the program is the DCA store call it makes.  `none` says that a
lookup in it does not return.
-/

open Reasoning

namespace SubmarineMonitor

inductive DcaStore
  | measurement (m : DcaMeasurement)
  | event (e : StoreEventArgs)
  deriving DecidableEq, Repr

/-- A call of `CcCore_PrintKeepAlive` or `CcCore_PrintEventReport`: the tag of the message and the
    value that is handed over. -/
structure HandlerCall where
  tag : UInt8
  value : Bytes
  deriving DecidableEq, Repr

/-- The mode comes from the outer value, the rest from the nested record. -/
def ccCorePrintKeepAlive (value : Mem) (len : Nat) : Option (List DcaStore) := do
  let timestamp ← readField value len protoFieldTimestamp 0 getU32
  let mode ← readField value len protoFieldMode 0 getU8
  let nested ← protocolFindField value len protoFieldMeasurementRecord
  match nested with
  -- without a measurement nothing is stored
  | .error _ => return []
  | .ok f =>
      let record := advance value f.off
      let temperature ← readField record f.len protoFieldTemperature 0 getI16
      let humidity ← readField record f.len protoFieldHumidity 0 getU8
      let light ← readField record f.len protoFieldLight 0 getU16
      let battery ← readField record f.len protoFieldBatteryVoltage 0 getU16
      return [.measurement
        { timestamp, temperature, humidity, light, batteryVoltage := battery, mode }]

/-- The watchdog flag is only printed. -/
def ccCorePrintEventReport (value : Mem) (len : Nat) : Option (List DcaStore) := do
  let timestamp ← readField value len protoFieldTimestamp 0 getU32
  let eventType ← readField value len protoFieldEventType 0 getU8
  let eventSource ← readField value len protoFieldEventSource 0 getU8
  let _ ← protocolFindField value len protoFieldWdResetFlag
  let nested ← protocolFindField value len protoFieldMeasurementRecord
  match nested with
  -- without a measurement the event is stored alone
  | .error _ =>
      return [.event
        { timestamp, eventType, eventSource, hasMeasurement := false, temperature := 0,
          humidity := 0, light := 0, batteryVoltage := 0, mode := 0 }]
  | .ok f =>
      let record := advance value f.off
      let temperature ← readField record f.len protoFieldTemperature 0 getI16
      let humidity ← readField record f.len protoFieldHumidity 0 getU8
      let light ← readField record f.len protoFieldLight 0 getU16
      let battery ← readField record f.len protoFieldBatteryVoltage 0 getU16
      let mode ← readField record f.len protoFieldMode 0 getU8
      return [.event
        { timestamp, eventType, eventSource, hasMeasurement := true, temperature, humidity, light,
          batteryVoltage := battery, mode }]

/-- The handler for a tag; `some none` for a message that is no telemetry. -/
def telemetryHandler (tag : UInt8) (value : Mem) (len : Nat) : Option (Option (List DcaStore)) :=
  if tag = protoTagKeepAlive then (ccCorePrintKeepAlive value len).map some
  else if tag = protoTagEventReport then (ccCorePrintEventReport value len).map some
  else some none

end SubmarineMonitor
