import SubmarineMonitor.Protocol.FieldBuf

/-!
# PrintedRecord — reading a record field by field

`central_computer` and the Ground Station take a measurement or event record apart in the same way:
each field is looked up by its tag, and a variable keeps its initial value when its field is missing.
A printed record is the values that go into its `printf`.
-/

open Reasoning

namespace SubmarineMonitor

/-! ## 1. Definitions -/

structure PrintedReading where
  temperature : Int16
  humidity : UInt8
  light : UInt16
  battery : UInt16
  mode : UInt8
  deriving DecidableEq, Repr

def readReading (record : Mem) (recordLen : Nat) : Option PrintedReading := do
  let temperature ← readField record recordLen protoFieldTemperature 0 getI16
  let humidity ← readField record recordLen protoFieldHumidity 0 getU8
  let light ← readField record recordLen protoFieldLight 0 getU16
  let battery ← readField record recordLen protoFieldBatteryVoltage 0 getU16
  let mode ← readField record recordLen protoFieldMode 0 getU8
  return { temperature, humidity, light, battery, mode }

structure PrintedMeasurement where
  timestamp : UInt32
  reading : PrintedReading
  deriving DecidableEq, Repr

def readMeasurementRecord (record : Mem) (recordLen : Nat) : Option PrintedMeasurement := do
  let timestamp ← readField record recordLen protoFieldTimestamp 0 getU32
  let reading ← readReading record recordLen
  return { timestamp, reading }

/-- The timestamp of the nested measurement is not looked up. -/
structure PrintedEvent where
  timestamp : UInt32
  eventType : UInt8
  eventSource : UInt8
  measurement : Option PrintedReading
  deriving DecidableEq, Repr

def readEventRecord (fValue : Mem) (fLen : Nat) : Option PrintedEvent := do
  let timestamp ← readField fValue fLen protoFieldTimestamp 0 getU32
  let eventType ← readField fValue fLen protoFieldEventType 0 getU8
  let eventSource ← readField fValue fLen protoFieldEventSource 0 getU8
  let nested ← protocolFindField fValue fLen protoFieldMeasurementRecord
  match nested with
  | .error _ => return { timestamp, eventType, eventSource, measurement := none }
  | .ok f =>
      let reading ← readReading (advance fValue f.off) f.len
      return { timestamp, eventType, eventSource, measurement := some reading }

/-! ## 2. Reading a field of its full width -/

section Read

variable {record : Mem} {recordLen : Nat} {fs : List Tlv} {tag : UInt8}

theorem readField_u8 {b init : UInt8} (hlen : recordLen ≤ 65535)
    (hx : slice record 0 recordLen = tlvBytes fs) (htags : (fs.map Tlv.tag).Nodup)
    (hf : u8Tlv tag b ∈ fs) : readField record recordLen tag init getU8 = some b :=
  readField_mem hlen hx htags hf fun _ h ↦ getU8_of_slice h

theorem readField_u16 {n init : UInt16} (hlen : recordLen ≤ 65535)
    (hx : slice record 0 recordLen = tlvBytes fs) (htags : (fs.map Tlv.tag).Nodup)
    (hf : u16Tlv tag n ∈ fs) : readField record recordLen tag init getU16 = some n :=
  readField_mem hlen hx htags hf fun _ h ↦ getU16_of_slice h

theorem readField_u32 {n init : UInt32} (hlen : recordLen ≤ 65535)
    (hx : slice record 0 recordLen = tlvBytes fs) (htags : (fs.map Tlv.tag).Nodup)
    (hf : u32Tlv tag n ∈ fs) : readField record recordLen tag init getU32 = some n :=
  readField_mem hlen hx htags hf fun _ h ↦ getU32_of_slice h

theorem readField_i16 {n init : Int16} (hlen : recordLen ≤ 65535)
    (hx : slice record 0 recordLen = tlvBytes fs) (htags : (fs.map Tlv.tag).Nodup)
    (hf : u16Tlv tag n.toUInt16 ∈ fs) :
    readField record recordLen tag init getI16 = some n :=
  readField_mem hlen hx htags hf fun _ h ↦ getI16_of_slice h

end Read

end SubmarineMonitor
