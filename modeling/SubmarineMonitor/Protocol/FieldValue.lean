import SubmarineMonitor.Protocol.PrintedRecord
import SubmarineMonitor.Protocol.TlvWalk

/-!
# FieldValue — what is read of complete TLVs

A value that is a sequence of complete TLVs determines what a lookup reads: the first field with the
tag, or the initial value where there is none.  With fields of their full width nothing behind a
field is read, so records are functions of their TLVs.
-/

open Reasoning

namespace SubmarineMonitor

/-! ## 1. Definitions -/

def fieldOf (tag : UInt8) (fs : List Tlv) : Option Bytes :=
  (fs.find? fun f ↦ f.tag = tag).map Tlv.value

def fieldValue {α : Type} (fs : List Tlv) (tag : UInt8) (init : α) (read : Mem → α) : α :=
  match fieldOf tag fs with
  | none => init
  | some v => read (ofList v 0)

def ReadsWidth {α : Type} (read : Mem → α) (width : Nat) : Prop :=
  ∀ m m' : Mem, slice m 0 width = slice m' 0 width → read m = read m'

def fieldWidth (tag : UInt8) : Nat :=
  if tag ∈ [protoFieldTimestamp, protoFieldCursorDay, protoFieldCursorOffset] then 4
  else if tag ∈ [protoFieldTemperature, protoFieldLight, protoFieldBatteryVoltage] then 2
  else if tag ∈ [protoFieldStatus, protoFieldHumidity, protoFieldMode, protoFieldEventType,
    protoFieldEventSource, protoFieldWdResetFlag] then 1
  else 0

def FullWidth (fs : List Tlv) : Prop := ∀ f ∈ fs, fieldWidth f.tag ≤ f.value.length

/-- A value is complete TLVs of full width, and so is each record of the tag in it. -/
structure CompleteValue (recordTag : UInt8) (fs : List Tlv) : Prop where
  width : FullWidth fs
  records : ∀ f ∈ fs, f.tag = recordTag → ∃ rs, f.value = tlvBytes rs ∧ FullWidth rs

def readingOf (fs : List Tlv) : PrintedReading where
  temperature := fieldValue fs protoFieldTemperature 0 getI16
  humidity := fieldValue fs protoFieldHumidity 0 getU8
  light := fieldValue fs protoFieldLight 0 getU16
  battery := fieldValue fs protoFieldBatteryVoltage 0 getU16
  mode := fieldValue fs protoFieldMode 0 getU8

def measurementOf (fs : List Tlv) : PrintedMeasurement where
  timestamp := fieldValue fs protoFieldTimestamp 0 getU32
  reading := readingOf fs

def eventOf (fs : List Tlv) : PrintedEvent where
  timestamp := fieldValue fs protoFieldTimestamp 0 getU32
  eventType := fieldValue fs protoFieldEventType 0 getU8
  eventSource := fieldValue fs protoFieldEventSource 0 getU8
  measurement := (fieldOf protoFieldMeasurementRecord fs).map fun record ↦
    readingOf (siblings record)

/-! ## 2. Readers -/

theorem getU8_reads : ReadsWidth getU8 1 := fun _ _ h ↦ (List.cons.inj h).1

theorem getU16_reads : ReadsWidth getU16 2 := by
  intro m m' h
  simp only [slice_succ, slice_zero, List.cons.injEq, and_true, Nat.zero_add] at h
  rw [getU16, getU16, protocolGetU16_eq, protocolGetU16_eq, h.1, h.2]

theorem getI16_reads : ReadsWidth getI16 2 := by
  intro m m' h
  rw [getI16, getI16, getU16_reads m m' h]

theorem getU32_reads : ReadsWidth getU32 4 := by
  intro m m' h
  simp only [slice_succ, slice_zero, List.cons.injEq, and_true, Nat.zero_add] at h
  rw [getU32, getU32, protocolGetU32_eq, protocolGetU32_eq, h.1, h.2.1, h.2.2.1, h.2.2.2]

theorem ReadsWidth.of_slice {α : Type} {read : Mem → α} {width : Nat} (hread : ReadsWidth read width)
    {m : Mem} {v : Bytes} (h : slice m 0 v.length = v) (hwidth : width ≤ v.length) :
    read m = read (ofList v 0) := by
  apply hread
  rw [← slice_take m 0 hwidth, ← slice_take (ofList v 0) 0 hwidth, h, slice_ofList]

/-! ## 3. Lookups -/

section Lookup

variable {buf : Mem} {len : Nat} {tag : UInt8} {fs : List Tlv}

theorem fieldOf_none (h : fieldOf tag fs = none) : ∀ f ∈ fs, f.tag ≠ tag := by
  rw [fieldOf, Option.map_eq_none_iff, List.find?_eq_none] at h
  exact fun f hf htag ↦ h f hf (decide_eq_true htag)

theorem fieldOf_some {v : Bytes} (h : fieldOf tag fs = some v) :
    ∃ before f after, fs = before ++ f :: after ∧ f.tag = tag ∧ f.value = v ∧
      ∀ g ∈ before, g.tag ≠ tag := by
  rw [fieldOf, Option.map_eq_some_iff] at h
  obtain ⟨f, hfind, hv⟩ := h
  obtain ⟨htag, before, after, hfs, hbefore⟩ := List.find?_eq_some_iff_append.mp hfind
  refine ⟨before, f, after, hfs, of_decide_eq_true htag, hv, fun g hg hgtag ↦ ?_⟩
  have hnot := hbefore g hg
  rw [decide_eq_true hgtag] at hnot
  exact absurd hnot (by decide)

theorem findField_none (hlen : len ≤ 65535) (hx : slice buf 0 len = tlvBytes fs)
    (h : fieldOf tag fs = none) : protocolFindField buf len tag = some (.error .errNotFound) :=
  findField_missing hlen hx (fieldOf_none h)

theorem findField_some {v : Bytes} (hlen : len ≤ 65535) (hx : slice buf 0 len = tlvBytes fs)
    (h : fieldOf tag fs = some v) :
    ∃ f, protocolFindField buf len tag = some (.ok f) ∧ f.len = v.length ∧
      slice buf f.off f.len = v ∧ f.off + f.len ≤ len := by
  obtain ⟨before, f, after, rfl, htag, rfl, hbefore⟩ := fieldOf_some h
  rw [tlvBytes_append, tlvBytes_cons] at hx
  obtain ⟨hfound, hvalue, hin⟩ := findField_found hlen hx hbefore htag
  exact ⟨_, hfound, rfl, hvalue, hin⟩

/-- A field that is there, with at least the bytes that are read. -/
theorem readField_some {α : Type} {init : α} {read : Mem → α} {width : Nat} {v : Bytes}
    (hlen : len ≤ 65535) (hx : slice buf 0 len = tlvBytes fs) (hfield : fieldOf tag fs = some v)
    (hread : ReadsWidth read width) (hwidth : width ≤ v.length) :
    readField buf len tag init read = some (read (ofList v 0)) := by
  obtain ⟨f, hfound, hflen, hvalue, -⟩ := findField_some hlen hx hfield
  rw [hflen] at hvalue
  rw [readField, hfound]
  dsimp only
  rw [hread.of_slice (by rw [slice_advance, Nat.add_zero]; exact hvalue) hwidth]

theorem readField_complete {α : Type} {init : α} {read : Mem → α} (hlen : len ≤ 65535)
    (hx : slice buf 0 len = tlvBytes fs) (hwidth : FullWidth fs)
    (hread : ReadsWidth read (fieldWidth tag)) :
    readField buf len tag init read = some (fieldValue fs tag init read) := by
  rw [fieldValue]
  cases hfield : fieldOf tag fs with
  | none => rw [readField, findField_none hlen hx hfield]
  | some v =>
      obtain ⟨before, g, after, hfs, htag, hv, -⟩ := fieldOf_some hfield
      have hg := hwidth g (hfs ▸ List.mem_append_right _ List.mem_cons_self)
      rw [htag, hv] at hg
      exact readField_some hlen hx hfield hread hg

theorem findField_record {v : Bytes} (hlen : len ≤ 65535) (hx : slice buf 0 len = tlvBytes fs)
    (hvalue : CompleteValue tag fs) (h : fieldOf tag fs = some v) :
    ∃ f, protocolFindField buf len tag = some (.ok f) ∧ f.len ≤ 65535 ∧
      slice (advance buf f.off) 0 f.len = tlvBytes (siblings v) ∧ FullWidth (siblings v) := by
  obtain ⟨f, hfound, hflen, hslice, hin⟩ := findField_some hlen hx h
  obtain ⟨before, g, after, rfl, htag, rfl, -⟩ := fieldOf_some h
  obtain ⟨rs, hrs, hwidth⟩ := hvalue.records g (List.mem_append_right _ List.mem_cons_self) htag
  refine ⟨f, hfound, by omega, ?_, by rw [hrs, siblings_complete]; exact hwidth⟩
  rw [slice_advance, Nat.add_zero, hslice, hrs, siblings_complete]

end Lookup

/-! ## 4. Records -/

section Record

variable {record : Mem} {recordLen : Nat} {fs : List Tlv}

theorem readReading_complete (hlen : recordLen ≤ 65535)
    (hx : slice record 0 recordLen = tlvBytes fs) (hwidth : FullWidth fs) :
    readReading record recordLen = some (readingOf fs) := by
  rw [readReading, readField_complete hlen hx hwidth getI16_reads,
    readField_complete hlen hx hwidth getU8_reads, readField_complete hlen hx hwidth getU16_reads,
    readField_complete hlen hx hwidth getU16_reads, readField_complete hlen hx hwidth getU8_reads]
  rfl

theorem readMeasurementRecord_complete (hlen : recordLen ≤ 65535)
    (hx : slice record 0 recordLen = tlvBytes fs) (hwidth : FullWidth fs) :
    readMeasurementRecord record recordLen = some (measurementOf fs) := by
  rw [readMeasurementRecord, readField_complete hlen hx hwidth getU32_reads,
    readReading_complete hlen hx hwidth]
  rfl

theorem readEventRecord_complete (hlen : recordLen ≤ 65535)
    (hx : slice record 0 recordLen = tlvBytes fs)
    (hvalue : CompleteValue protoFieldMeasurementRecord fs) :
    readEventRecord record recordLen = some (eventOf fs) := by
  rw [readEventRecord, readField_complete hlen hx hvalue.width getU32_reads,
    readField_complete hlen hx hvalue.width getU8_reads,
    readField_complete hlen hx hvalue.width getU8_reads, eventOf]
  cases hrecord : fieldOf protoFieldMeasurementRecord fs with
  | none =>
      rw [findField_none hlen hx hrecord]
      rfl
  | some v =>
      obtain ⟨f, hfound, hflen, hslice, hwidth⟩ := findField_record hlen hx hvalue hrecord
      rw [hfound]
      simp only [Option.bind_eq_bind, Option.bind_some, readReading_complete hflen hslice hwidth]
      rfl

end Record

end SubmarineMonitor
