import SubmarineMonitor.CentralComputer.Telemetry
import SubmarineMonitor.Fleet.CentralComputer

/-!
# Snapshot — the cached telemetry and the stored measurement

A telemetry message is decoded twice: by its handler, which stores a measurement, and by
`CacheMeasurementFields`, which updates the snapshot the fleet displays.  The handler takes 0 for a
field that is missing and the mode of a KEEP_ALIVE from its outer value; the cache keeps its old value
and always looks for the mode in the nested record.  The two agree on a message exactly if these
differences do not show (`snapshot_agrees_iff`).
-/

open Reasoning

namespace SubmarineMonitor

/-! ## 1. Definitions -/

def DcaStore.measurement? : DcaStore → Option DcaMeasurement
  | .measurement m => some m
  | .event e =>
      if e.hasMeasurement then
        some { timestamp := e.timestamp, temperature := e.temperature, humidity := e.humidity
               light := e.light, batteryVoltage := e.batteryVoltage, mode := e.mode }
      else none

structure Arrives (a : PollArrival) (cc : CentralComputer) (m later : Bytes) : Prop where
  incoming : cc.link.incoming = tcpMessage m ++ later
  header : 4 ≤ a.arrived
  payload : m.length ≤ a.payloadArrived

/-- Behind an iteration that takes the message, and behind a poll of nothing else, the snapshot is the
    measurement that was stored. -/
structure SnapshotAgrees (m : Bytes) (latest : DcaMeasurement) : Prop where
  iteration : ∀ i arrivals cc later, cc.latest = latest → Arrives (arrivals 0) cc m later →
    ∃ next read stores, next.link.incoming = later ∧ next.haveLatest = true ∧
      stores.filterMap DcaStore.measurement? = [next.latest] ∧
      pollLoop (i + 1) arrivals cc =
        (pollLoop i (fun i ↦ arrivals (i + 1)) next).after read stores
  poll : ∀ arrivals cc, cc.connected = true → cc.latest = latest → Arrives (arrivals 0) cc m [] →
    let out := cc.pollLatestTelemetry arrivals
    out.returned = true ∧ out.stores.filterMap DcaStore.measurement? = [out.cc.latest]

/-- Each sensor field is in the record, or its cached value is the 0 that is stored; and the mode the
    cache finds, or keeps, is the one the handler finds, or 0. -/
structure SnapshotFresh (tag : UInt8) (fs rs : List Tlv) (latest : DcaMeasurement) : Prop where
  temperature : (fieldOf protoFieldTemperature rs).isSome ∨ latest.temperature = 0
  humidity : (fieldOf protoFieldHumidity rs).isSome ∨ latest.humidity = 0
  light : (fieldOf protoFieldLight rs).isSome ∨ latest.light = 0
  battery : (fieldOf protoFieldBatteryVoltage rs).isSome ∨ latest.batteryVoltage = 0
  keepAliveMode : tag = protoTagKeepAlive →
    fieldValue rs protoFieldMode latest.mode getU8 = fieldValue fs protoFieldMode 0 getU8
  eventMode : tag ≠ protoTagKeepAlive →
    (fieldOf protoFieldMode rs).isSome ∨ latest.mode = 0

def cachedMeasurement (latest : DcaMeasurement) (fs rs : List Tlv) : DcaMeasurement where
  timestamp := fieldValue fs protoFieldTimestamp 0 getU32
  temperature := fieldValue rs protoFieldTemperature latest.temperature getI16
  humidity := fieldValue rs protoFieldHumidity latest.humidity getU8
  light := fieldValue rs protoFieldLight latest.light getU16
  batteryVoltage := fieldValue rs protoFieldBatteryVoltage latest.batteryVoltage getU16
  mode := fieldValue rs protoFieldMode latest.mode getU8

def storedMeasurement (tag : UInt8) (fs rs : List Tlv) : DcaMeasurement where
  timestamp := fieldValue fs protoFieldTimestamp 0 getU32
  temperature := (readingOf rs).temperature
  humidity := (readingOf rs).humidity
  light := (readingOf rs).light
  batteryVoltage := (readingOf rs).battery
  mode := if tag = protoTagKeepAlive then fieldValue fs protoFieldMode 0 getU8
    else (readingOf rs).mode

/-! ## 2. When the two agree -/

theorem fieldValue_eq_iff {α : Type} {fs : List Tlv} {tag : UInt8} {init init' : α}
    {read : Mem → α} :
    fieldValue fs tag init read = fieldValue fs tag init' read ↔
      (fieldOf tag fs).isSome ∨ init = init' := by
  unfold fieldValue
  cases fieldOf tag fs with
  | none => simp
  | some v => simp

theorem cachedMeasurement_eq_iff {tag : UInt8} {fs rs : List Tlv} {latest : DcaMeasurement} :
    cachedMeasurement latest fs rs = storedMeasurement tag fs rs ↔
      SnapshotFresh tag fs rs latest := by
  constructor
  · intro h
    simp only [cachedMeasurement, storedMeasurement, readingOf, DcaMeasurement.mk.injEq] at h
    obtain ⟨-, htemperature, hhumidity, hlight, hbattery, hmode⟩ := h
    refine { temperature := fieldValue_eq_iff.mp htemperature
             humidity := fieldValue_eq_iff.mp hhumidity, light := fieldValue_eq_iff.mp hlight
             battery := fieldValue_eq_iff.mp hbattery, keepAliveMode := fun ht ↦ ?_
             eventMode := fun ht ↦ ?_ }
    · rwa [if_pos ht] at hmode
    · rw [if_neg ht] at hmode
      exact fieldValue_eq_iff.mp hmode
  · intro h
    rw [cachedMeasurement, storedMeasurement, readingOf, fieldValue_eq_iff.mpr h.temperature,
      fieldValue_eq_iff.mpr h.humidity, fieldValue_eq_iff.mpr h.light,
      fieldValue_eq_iff.mpr h.battery]
    congr 1
    by_cases ht : tag = protoTagKeepAlive
    · rw [if_pos ht, h.keepAliveMode ht]
    · rw [if_neg ht, fieldValue_eq_iff.mpr (h.eventMode ht)]

/-! ## 3. One message -/

section Message

variable {tag : UInt8} {fs : List Tlv} {record : Bytes} {value : Mem} {len : Nat}

theorem cacheMeasurementFields_complete (cc : CentralComputer) (hlen : len ≤ 65535)
    (hx : slice value 0 len = tlvBytes fs) (hvalue : CompleteValue protoFieldMeasurementRecord fs)
    (hrecord : fieldOf protoFieldMeasurementRecord fs = some record) :
    cc.cacheMeasurementFields value len =
      some { cc with haveLatest := true
                     latest := cachedMeasurement cc.latest fs (siblings record) } := by
  obtain ⟨f, hfound, hflen, hslice, hwidth⟩ := findField_record hlen hx hvalue hrecord
  rw [CentralComputer.cacheMeasurementFields,
    readField_complete hlen hx hvalue.width getU32_reads, hfound]
  simp only [Option.bind_eq_bind, Option.bind_some]
  rw [readField_complete hflen hslice hwidth getI16_reads,
    readField_complete hflen hslice hwidth getU8_reads,
    readField_complete hflen hslice hwidth getU16_reads,
    readField_complete hflen hslice hwidth getU16_reads,
    readField_complete hflen hslice hwidth getU8_reads]
  rfl

theorem telemetryHandler_measurement (htag : tag = protoTagKeepAlive ∨ tag = protoTagEventReport)
    (hlen : len ≤ 65535) (hx : slice value 0 len = tlvBytes fs)
    (hvalue : CompleteValue protoFieldMeasurementRecord fs)
    (hrecord : fieldOf protoFieldMeasurementRecord fs = some record) :
    ∃ stores, telemetryHandler tag value len = some (some stores) ∧
      stores.filterMap DcaStore.measurement? = [storedMeasurement tag fs (siblings record)] := by
  rcases htag with rfl | rfl
  · rw [telemetryHandler, if_pos rfl, ccCorePrintKeepAlive_complete hlen hx hvalue]
    refine ⟨_, rfl, ?_⟩
    rw [keepAliveStores, hrecord]
    rfl
  · rw [telemetryHandler, if_neg (by decide), if_pos rfl,
      ccCorePrintEventReport_complete hlen hx hvalue]
    refine ⟨_, rfl, ?_⟩
    rw [eventReportStore, hrecord]
    rfl

theorem takeTelemetry_measurement (htag : tag = protoTagKeepAlive ∨ tag = protoTagEventReport)
    (hlen : len ≤ 65535) (hx : slice value 0 len = tlvBytes fs)
    (hvalue : CompleteValue protoFieldMeasurementRecord fs)
    (hrecord : fieldOf protoFieldMeasurementRecord fs = some record) :
    ∃ stores, stores.filterMap DcaStore.measurement? =
        [storedMeasurement tag fs (siblings record)] ∧
      ∀ cc : CentralComputer, cc.takeTelemetry tag value len =
        some ({ cc with haveLatest := true
                        latest := cachedMeasurement cc.latest fs (siblings record) }, stores) := by
  obtain ⟨stores, hhandler, hstores⟩ :=
    telemetryHandler_measurement htag hlen hx hvalue hrecord
  refine ⟨stores, hstores, fun cc ↦ ?_⟩
  rw [CentralComputer.takeTelemetry, hhandler]
  simp only [Option.bind_eq_bind, Option.bind_some]
  rw [cacheMeasurementFields_complete cc hlen hx hvalue hrecord]
  rfl

end Message

/-! ## 4. The poll -/

section Poll

variable {tag : UInt8} {fs : List Tlv} {record : Bytes}

/-- An iteration of the poll on a telemetry message with a measurement. -/
theorem pollLoop_telemetry (htag : tag = protoTagKeepAlive ∨ tag = protoTagEventReport)
    (hvalue : CompleteValue protoFieldMeasurementRecord fs)
    (hrecord : fieldOf protoFieldMeasurementRecord fs = some record)
    (hlen : (tlvBytes fs).length ≤ 253) {arrivals : Nat → PollArrival} {cc : CentralComputer}
    {later : Bytes} (h : Arrives (arrivals 0) cc (tlvMessage tag (tlvBytes fs)) later) :
    ∃ next read stores, next.link.incoming = later ∧ next.haveLatest = true ∧
      next.latest = cachedMeasurement cc.latest fs (siblings record) ∧
      stores.filterMap DcaStore.measurement? = [storedMeasurement tag fs (siblings record)] ∧
      ∀ i, pollLoop (i + 1) arrivals cc =
        (pollLoop i (fun i ↦ arrivals (i + 1)) next).after read stores := by
  let f : Tlv := { tag, value := tlvBytes fs, length_lt := by omega }
  have hmessage : tlvMessage tag (tlvBytes fs) = f.bytes := rfl
  have hlength : f.bytes.length = 3 + (tlvBytes fs).length := f.bytes_length
  obtain ⟨hincoming, hheader, hpayload⟩ := h
  rw [hmessage] at hincoming hpayload
  have hprefix : protocolGetU32 (ofList (cc.link.recv 4).1 0) = f.bytes.length := by
    rw [LncLink.recv, hincoming]
    exact protocolGetU32_message (by omega) later
  have hgot : (cc.link.recv 4).1.length = 4 := by
    rw [LncLink.recv, hincoming, tcpMessage, List.append_assoc]
    rfl
  have hbody : (cc.link.recv 4).2.incoming = f.bytes ++ later := by
    rw [LncLink.recv, hincoming, tcpMessage, List.append_assoc]
    rfl
  have hdata : ((cc.link.recv 4).2.recv f.bytes.length).1 = f.bytes := by
    rw [LncLink.recv, hbody, List.take_left]
  have hleft : ((cc.link.recv 4).2.recv f.bytes.length).2.incoming = later := by
    rw [LncLink.recv, hbody, List.drop_left]
  have hstorage : slice (store (arrivals 0).storage 0 f.bytes) 0 f.bytes.length = f.bytes ++ [] := by
    rw [slice_store, List.append_nil]
  have hdecode := protocolDecodeTLV_tlv f hstorage (by omega)
  have hx : slice (advance (store (arrivals 0).storage 0 f.bytes) 3) 0 (tlvBytes fs).length =
      tlvBytes fs := by
    rw [slice_advance]
    exact (slice_tlv hstorage).1
  obtain ⟨stores, hstores, htaken⟩ :=
    takeTelemetry_measurement htag (by omega) hx hvalue hrecord
  let next : CentralComputer :=
    { cc with link := ((cc.link.recv 4).2.recv f.bytes.length).2
              haveLatest := true
              latest := cachedMeasurement cc.latest fs (siblings record) }
  let read : PrefixRead :=
    { pos := cc.link.taken, got := (cc.link.recv 4).1.length, len := f.bytes.length, cap := 256 }
  refine ⟨next, read, stores, hleft, rfl, rfl, hstores, fun i ↦ ?_⟩
  -- four bytes of length, the message, and its handler
  rw [pollLoop, pollOnce]
  dsimp only
  rw [Nat.min_eq_left hheader, if_neg (by omega), if_neg (by omega), hprefix, if_neg (by omega),
    Nat.min_eq_left hpayload, hdata, if_neg fun hne ↦ hne rfl, u16_of_lt (by omega), hdecode]
  dsimp only
  rw [htaken]

theorem pollLoop_ended {cc : CentralComputer} (h : cc.link.incoming = []) (i : Nat)
    (arrivals : Nat → PollArrival) :
    (pollLoop i arrivals cc).returned = true ∧ (pollLoop i arrivals cc).stores = [] ∧
      (pollLoop i arrivals cc).cc.latest = cc.latest := by
  cases i with
  | zero => exact ⟨rfl, rfl, rfl⟩
  | succ i =>
      have hnone : (cc.link.recv (min 4 (arrivals 0).arrived)).1.length = 0 := by
        rw [LncLink.recv, h, List.take_nil, List.length_nil]
      rw [pollLoop, pollOnce]
      dsimp only
      rw [if_pos hnone]
      by_cases hclosed : (arrivals 0).closed = true ∧
          (cc.link.recv (min 4 (arrivals 0).arrived)).2.incoming = []
      · rw [if_pos hclosed]
        exact ⟨rfl, rfl, rfl⟩
      · rw [if_neg hclosed]
        exact ⟨rfl, rfl, rfl⟩

/-- On a connection with nothing but the message, the last iteration of a poll shows both. -/
theorem SnapshotAgrees.cached_eq {latest : DcaMeasurement}
    (h : SnapshotAgrees (tlvMessage tag (tlvBytes fs)) latest)
    (htag : tag = protoTagKeepAlive ∨ tag = protoTagEventReport)
    (hvalue : CompleteValue protoFieldMeasurementRecord fs)
    (hrecord : fieldOf protoFieldMeasurementRecord fs = some record)
    (hlen : (tlvBytes fs).length ≤ 253) :
    cachedMeasurement latest fs (siblings record) = storedMeasurement tag fs (siblings record) := by
  let m := tlvMessage tag (tlvBytes fs)
  let cc : CentralComputer :=
    { connected := true, link := { incoming := tcpMessage m, taken := 0 }, haveLatest := true, latest }
  let arrivals : Nat → PollArrival := fun _ ↦
    { arrived := 4, closed := false, payloadArrived := m.length, storage := ofList [] 0 }
  have harrives : Arrives (arrivals 0) cc m [] :=
    { incoming := (List.append_nil _).symm, header := Nat.le_refl 4, payload := Nat.le_refl m.length }
  obtain ⟨next, read, stores, -, -, hlatest, hstores, hpoll⟩ :=
    pollLoop_telemetry htag hvalue hrecord hlen harrives
  obtain ⟨next', read', stores', -, -, hagree, hpoll'⟩ := h.iteration 0 arrivals cc [] rfl harrives
  have hsame := (hpoll 0).symm.trans hpoll'
  rw [pollLoop, pollLoop, CallOut.after, CallOut.after] at hsame
  simp only [CallOut.mk.injEq, List.append_nil, and_true] at hsame
  obtain ⟨rfl, -, rfl⟩ := hsame
  rw [hstores, hlatest] at hagree
  exact (List.cons.inj hagree).1.symm

theorem snapshotAgrees_of_eq {latest : DcaMeasurement}
    (htag : tag = protoTagKeepAlive ∨ tag = protoTagEventReport)
    (hvalue : CompleteValue protoFieldMeasurementRecord fs)
    (hrecord : fieldOf protoFieldMeasurementRecord fs = some record)
    (hlen : (tlvBytes fs).length ≤ 253)
    (heq : cachedMeasurement latest fs (siblings record) =
      storedMeasurement tag fs (siblings record)) :
    SnapshotAgrees (tlvMessage tag (tlvBytes fs)) latest := by
  refine { iteration := fun i arrivals cc later hcc harrives ↦ ?_
           poll := fun arrivals cc hconnected hcc harrives ↦ ?_ }
  · obtain ⟨next, read, stores, hleft, hhave, hlatest, hstores, hpoll⟩ :=
      pollLoop_telemetry htag hvalue hrecord hlen harrives
    rw [hcc, heq] at hlatest
    exact ⟨next, read, stores, hleft, hhave, by rw [hstores, hlatest], hpoll i⟩
  · obtain ⟨next, read, stores, hleft, -, hlatest, hstores, hpoll⟩ :=
      pollLoop_telemetry htag hvalue hrecord hlen harrives
    obtain ⟨hreturned, hnone, hkept⟩ := pollLoop_ended hleft 4 fun i ↦ arrivals (i + 1)
    rw [hcc, heq] at hlatest
    rw [CentralComputer.pollLatestTelemetry, if_pos hconnected, hpoll 4, CallOut.after]
    dsimp only
    rw [hnone, List.append_nil, hstores, hkept, hlatest]
    exact ⟨hreturned, rfl⟩

end Poll

/-- The snapshot is what was stored exactly if no missing field was cached before and the mode is the
    same at both levels. -/
theorem snapshot_agrees_iff (tag : UInt8) (fs : List Tlv) (record : Bytes) (latest : DcaMeasurement)
    (htag : tag = protoTagKeepAlive ∨ tag = protoTagEventReport)
    (hvalue : CompleteValue protoFieldMeasurementRecord fs)
    (hrecord : fieldOf protoFieldMeasurementRecord fs = some record)
    (hlen : (tlvBytes fs).length ≤ 253) :
    SnapshotAgrees (tlvMessage tag (tlvBytes fs)) latest ↔
      SnapshotFresh tag fs (siblings record) latest := by
  rw [← cachedMeasurement_eq_iff]
  exact ⟨fun h ↦ h.cached_eq htag hvalue hrecord hlen,
    snapshotAgrees_of_eq htag hvalue hrecord hlen⟩

/-! ## 5. A mode in front of a record -/

def sensorTlvs : List Tlv :=
  [u16Tlv protoFieldTemperature 215, u8Tlv protoFieldHumidity 40, u16Tlv protoFieldLight 1000,
    u16Tlv protoFieldBatteryVoltage 3000]

def warningTlvs : List Tlv :=
  [u8Tlv protoFieldMode 1,
    { tag := protoFieldMeasurementRecord, value := tlvBytes sensorTlvs, length_lt := by decide }]

theorem sensorTlvs_width : FullWidth sensorTlvs :=
  show ∀ f ∈ sensorTlvs, fieldWidth f.tag ≤ f.value.length by decide

theorem warningTlvs_complete : CompleteValue protoFieldMeasurementRecord warningTlvs where
  width := show ∀ f ∈ warningTlvs, fieldWidth f.tag ≤ f.value.length by decide
  records := by
    rw [warningTlvs, List.forall_mem_cons, List.forall_mem_singleton]
    exact ⟨fun h ↦ absurd h (by decide), fun _ ↦ ⟨sensorTlvs, rfl, sensorTlvs_width⟩⟩

theorem warningTlvs_record :
    fieldOf protoFieldMeasurementRecord warningTlvs = some (tlvBytes sensorTlvs) := rfl

theorem snapshot_agrees_warning :
    SnapshotAgrees (tlvMessage protoTagKeepAlive (tlvBytes warningTlvs)) { mode := 1 } := by
  apply (snapshot_agrees_iff protoTagKeepAlive warningTlvs (tlvBytes sensorTlvs) { mode := 1 }
    (.inl rfl) warningTlvs_complete warningTlvs_record (by decide)).mpr
  rw [siblings_complete]
  exact { temperature := by decide, humidity := by decide, light := by decide, battery := by decide
          keepAliveMode := fun _ ↦ rfl, eventMode := fun h ↦ absurd rfl h }

/-- A submarine that goes over to the warning mode: the mode in the snapshot is still the one before. -/
theorem snapshot_keeps_mode :
    ¬ SnapshotAgrees (tlvMessage protoTagKeepAlive (tlvBytes warningTlvs)) { mode := 0 } := by
  intro h
  have heq := h.cached_eq (.inl rfl) warningTlvs_complete warningTlvs_record (by decide)
  rw [siblings_complete] at heq
  exact absurd (congrArg DcaMeasurement.mode heq) (by decide)

end SubmarineMonitor
