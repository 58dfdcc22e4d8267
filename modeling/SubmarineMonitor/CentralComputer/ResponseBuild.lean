import SubmarineMonitor.CentralComputer.CommGs

/-!
# ResponseBuild — what the response builders build

Each record is one TLV whose value is the sequence of its fields, and a payload is a sequence of
TLVs: the status, then the records the soft cap lets in.
-/

open Reasoning

namespace SubmarineMonitor

/-! ## 1. Records as TLVs -/

def measurementTlvs (m : DcaMeasurement) : List Tlv :=
  [u32Tlv protoFieldTimestamp m.timestamp, u16Tlv protoFieldTemperature m.temperature.toUInt16,
    u8Tlv protoFieldHumidity m.humidity, u16Tlv protoFieldLight m.light,
    u16Tlv protoFieldBatteryVoltage m.batteryVoltage, u8Tlv protoFieldMode m.mode]

theorem measurementTlvs_length (m : DcaMeasurement) : (tlvBytes (measurementTlvs m)).length = 30 :=
  rfl

def measurementRecordTlv (m : DcaMeasurement) : Tlv :=
  { tag := protoFieldMeasurementRecord, value := tlvBytes (measurementTlvs m)
    length_lt := by rw [measurementTlvs_length]; decide }

theorem measurementRecordTlv_length (m : DcaMeasurement) :
    (measurementRecordTlv m).bytes.length = 33 := by
  rw [Tlv.bytes_length]
  exact congrArg (3 + ·) (measurementTlvs_length m)

def eventTlvs (e : DcaEvent) : List Tlv :=
  [u32Tlv protoFieldTimestamp e.timestamp, u8Tlv protoFieldEventType e.eventType,
    u8Tlv protoFieldEventSource e.eventSource] ++
    if e.hasMeasurement then [measurementRecordTlv e.measurement] else []

theorem eventTlvs_length (e : DcaEvent) :
    (tlvBytes (eventTlvs e)).length = if e.hasMeasurement then 48 else 15 := by
  unfold eventTlvs
  by_cases h : e.hasMeasurement
  · rw [if_pos h, if_pos h]
    rfl
  · rw [if_neg h, if_neg h]
    rfl

def eventRecordTlv (e : DcaEvent) : Tlv :=
  { tag := protoFieldEventRecord, value := tlvBytes (eventTlvs e)
    length_lt := by rw [eventTlvs_length]; split <;> decide }

theorem eventRecordTlv_length_le (e : DcaEvent) : (eventRecordTlv e).bytes.length ≤ 51 := by
  have h := eventTlvs_length e
  rw [Tlv.bytes_length, show (eventRecordTlv e).value = tlvBytes (eventTlvs e) from rfl, h]
  split <;> omega

def statusTlv (status : UInt8) : Tlv := u8Tlv protoFieldStatus status

theorem statusTlv_length (status : UInt8) : (statusTlv status).bytes.length = 4 := rfl

/-! ## 2. Building a record -/

theorem encodeMeasurementFields_holds (m : DcaMeasurement) (buf valueBuf : Mem) (written : Nat) :
    (encodeMeasurementFields m { buf, valueBuf, written }).Holds (measurementTlvs m) := by
  have hstart : FieldBuf.Holds { buf, valueBuf, written } [] := ⟨rfl, rfl, rfl⟩
  exact hstart.encodeFields (measurementTlvs m)
    (show 0 + (tlvBytes (measurementTlvs m)).length ≤ 40 by rw [measurementTlvs_length]; decide)
    (by decide)

/-- The measurement nested in an event is built in a buffer `n` of its own. -/
theorem FieldBuf.Holds.encodeNested {b n : FieldBuf} {fs : List Tlv} {m : DcaMeasurement}
    {size : Nat} (h : b.Holds fs) (hn : n.Holds (measurementTlvs m))
    (hfit : (tlvBytes fs).length + 33 ≤ size) (hsize : size < 65536) :
    (FieldBuf.encodeNext size protoFieldMeasurementRecord n.buf n.len
      { b with valueBuf := n.valueBuf, ok := b.ok && n.ok }).Holds
        (fs ++ [measurementRecordTlv m]) := by
  have hb : FieldBuf.Holds { b with valueBuf := n.valueBuf, ok := b.ok && n.ok } fs :=
    { len_eq := h.len_eq, bytes := h.bytes, ok := (Bool.and_eq_true _ _).mpr ⟨h.ok, hn.ok⟩ }
  have hlen := measurementRecordTlv_length m
  exact hb.encodeNext (measurementRecordTlv m) hn.len_eq hn.bytes (by omega) hsize

theorem encodeEventFields_holds (stack : StackFrame) (e : DcaEvent) (buf valueBuf : Mem)
    (written : Nat) :
    (encodeEventFields stack e { buf, valueBuf, written }).Holds (eventTlvs e) := by
  have hstart : FieldBuf.Holds { buf, valueBuf, written } [] := ⟨rfl, rfl, rfl⟩
  have hown := hstart.encodeFields [u32Tlv protoFieldTimestamp e.timestamp,
    u8Tlv protoFieldEventType e.eventType, u8Tlv protoFieldEventSource e.eventSource]
    (show 0 + 15 ≤ 80 by decide) (by decide)
  unfold encodeEventFields eventTlvs
  by_cases he : e.hasMeasurement
  · rw [if_pos he, if_pos he]
    exact hown.encodeNested (encodeMeasurementFields_holds e.measurement _ _ _)
      (show 15 + 33 ≤ 80 by decide) (by decide)
  · rw [if_neg he, if_neg he]
    exact hown

theorem appendMeasurementRecord_eq (stack : StackFrame) (out : Bytes) (m : DcaMeasurement) :
    appendMeasurementRecord stack out m = (out ++ (measurementRecordTlv m).bytes, true) := by
  have hlen := measurementRecordTlv_length m
  have h := encodeMeasurementFields_holds m stack.measurement stack.valueBuf stack.written
  have hout : protocolEncodeTLV protoFieldMeasurementRecord _ _ stack.recordBuf 0 48
      stack.recordLen = _ :=
    protocolEncodeTLV_tlv (measurementRecordTlv m) h.len_eq h.bytes (by omega) (by omega)
  rw [appendMeasurementRecord, hout, slice_store, h.ok, decide_eq_true rfl, Bool.and_true]

theorem appendEventRecord_eq (stack : StackFrame) (out : Bytes) (e : DcaEvent) :
    appendEventRecord stack out e = (out ++ (eventRecordTlv e).bytes, true) := by
  have hlen := eventRecordTlv_length_le e
  have h := encodeEventFields_holds stack e stack.eventBuf stack.valueBuf stack.written
  have hout : protocolEncodeTLV protoFieldEventRecord _ _ stack.recordBuf 0 96
      stack.recordLen = _ :=
    protocolEncodeTLV_tlv (eventRecordTlv e) h.len_eq h.bytes (by omega) (by omega)
  rw [appendEventRecord, hout, slice_store, h.ok, decide_eq_true rfl, Bool.and_true]

theorem statusPayload_eq (stack : StackFrame) (status : UInt8) :
    statusPayload stack status = ((statusTlv status).bytes, true) := by
  have hout : protocolEncodeTLV protoFieldStatus (ofList [status] 0) 1 stack.statusField 0 4
      stack.statusFieldLen = _ :=
    protocolEncodeTLV_tlv (statusTlv status) rfl rfl (show 4 ≤ 4 by decide) (show 4 < 65536 by decide)
  rw [statusPayload, hout, slice_store, decide_eq_true rfl]

/-! ## 3. The soft cap -/

/-- Of records with these sizes the first `n` are appended to a payload of `base` bytes: each of them
    while the payload so far is at most 60000 bytes, and no further one. -/
structure SoftCapped (base : Nat) (sizes : List Nat) (n : Nat) : Prop where
  le : n ≤ sizes.length
  under : ∀ i < n, base + (sizes.take i).sum ≤ 60000
  beyond : n < sizes.length → 60000 < base + (sizes.take n).sum

theorem SoftCapped.cons {base size n : Nat} {sizes : List Nat} (hbase : base ≤ 60000)
    (h : SoftCapped (base + size) sizes n) : SoftCapped base (size :: sizes) (n + 1) where
  le := Nat.succ_le_succ h.le
  under i hi := by
    cases i with
    | zero => exact hbase
    | succ i =>
        have hunder := h.under i (Nat.lt_of_succ_lt_succ hi)
        rw [List.take_succ_cons, List.sum_cons]
        omega
  beyond hn := by
    have hbeyond := h.beyond (Nat.lt_of_succ_lt_succ hn)
    rw [List.take_succ_cons, List.sum_cons]
    omega

/-- The cap is passed by less than one record. -/
theorem SoftCapped.total_le {base k n : Nat} {sizes : List Nat} (h : SoftCapped base sizes n)
    (hbase : base ≤ 60000) (hmax : ∀ size ∈ sizes, size ≤ k) :
    base + (sizes.take n).sum ≤ 60000 + k := by
  cases n with
  | zero =>
      rw [List.take_zero, List.sum_nil]
      omega
  -- before the last record was appended the payload was still under the cap
  | succ n =>
      have hn : n < sizes.length := h.le
      have hunder := h.under n (Nat.lt_succ_self n)
      have hlast := hmax _ (List.getElem_mem hn)
      rw [List.take_succ_eq_append_getElem hn, List.sum_append, List.sum_singleton]
      omega

section Response

variable {ρ : Type} {append : StackFrame → Bytes → ρ → Bytes × Bool} {recordTlv : ρ → Tlv}

def recordSizes (recordTlv : ρ → Tlv) (records : List ρ) : List Nat :=
  records.map fun r ↦ (recordTlv r).bytes.length

theorem tlvBytes_records_length (records : List ρ) :
    (tlvBytes (records.map recordTlv)).length = (recordSizes recordTlv records).sum := by
  induction records with
  | nil => rfl
  | cons r records ih =>
      rw [List.map_cons, tlvBytes_cons, List.length_append, ih]
      rfl

/-- The loop appends whole records up to the cap, and every encoding in it succeeds. -/
theorem appendRecords_eq
    (happend : ∀ stack out r, append stack out r = (out ++ (recordTlv r).bytes, true))
    (stack : Nat → StackFrame) (payload : Bytes) (records : List ρ) :
    ∃ n, SoftCapped payload.length (recordSizes recordTlv records) n ∧
      appendRecords append stack payload records =
        (payload ++ tlvBytes ((records.take n).map recordTlv), true) := by
  -- induction on the records, with the payload so far
  induction records generalizing stack payload with
  | nil =>
      refine ⟨0, ⟨Nat.le_refl _, fun i hi ↦ absurd hi (Nat.not_lt_zero i),
        fun h ↦ absurd h (Nat.lt_irrefl 0)⟩, ?_⟩
      rw [appendRecords, List.take_nil, List.map_nil, tlvBytes_nil, List.append_nil]
  | cons r records ih =>
      by_cases hcap : payload.length > gsRespMaxPayload
      · refine ⟨0, ⟨Nat.zero_le _, fun i hi ↦ absurd hi (Nat.not_lt_zero i), fun _ ↦ hcap⟩, ?_⟩
        rw [appendRecords, if_pos hcap, List.take_zero, List.map_nil, tlvBytes_nil,
          List.append_nil]
      · obtain ⟨n, hn, hall⟩ := ih (fun i ↦ stack (i + 1)) (payload ++ (recordTlv r).bytes)
        rw [List.length_append] at hn
        refine ⟨n + 1, SoftCapped.cons (Nat.le_of_not_lt hcap) hn, ?_⟩
        rw [appendRecords, if_neg hcap, happend]
        dsimp only
        rw [hall, List.take_succ_cons, List.map_cons, tlvBytes_cons, List.append_assoc,
          Bool.and_true]

def responseTlvs (recordTlv : ρ → Tlv) (records : List ρ) (n : Nat) : List Tlv :=
  statusTlv (if records.isEmpty then protoStatusNoDataFound else protoStatusSuccess) ::
    (records.take n).map recordTlv

theorem responseTlvs_length (records : List ρ) (n : Nat) :
    (tlvBytes (responseTlvs recordTlv records n)).length =
      4 + ((recordSizes recordTlv records).take n).sum := by
  rw [responseTlvs, tlvBytes_cons, List.length_append, statusTlv_length, tlvBytes_records_length,
    recordSizes, recordSizes, List.map_take]

theorem handleRangeRequest_eq (respTag : UInt8) (query : Bytes → UInt32 → UInt32 → List ρ)
    (stack : Nat → StackFrame) {value : Mem} {valueLen : Nat} {request : RangeRequest}
    (happend : ∀ stack out r, append stack out r = (out ++ (recordTlv r).bytes, true))
    (hrequest : parseGsRangeRequest value valueLen = some (some request)) :
    let records := query request.submarineId request.start request.stop
    ∃ n, SoftCapped 4 (recordSizes recordTlv records) n ∧
      handleRangeRequest respTag append query stack value valueLen =
        some { message := wrapMessage respTag (tlvBytes (responseTlvs recordTlv records n))
               ok := true } := by
  intro records
  obtain ⟨n, hn, hall⟩ := appendRecords_eq happend (fun i ↦ stack (i + 1))
    (statusTlv (if records.isEmpty then protoStatusNoDataFound else protoStatusSuccess)).bytes
    records
  refine ⟨n, hn, ?_⟩
  rw [handleRangeRequest, hrequest]
  dsimp only
  rw [statusPayload_eq]
  dsimp only
  rw [hall]
  rfl

end Response

end SubmarineMonitor
