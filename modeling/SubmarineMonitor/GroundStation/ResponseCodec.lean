import SubmarineMonitor.CentralComputer.ResponseBuild
import SubmarineMonitor.GroundStation.GsQueries
import SubmarineMonitor.Protocol.TlvWalk

/-!
# ResponseCodec — a response from end to end

`central_computer` builds a response and the Ground Station takes it apart: the message is
received, its status is the one that was set, and the walk prints the records that were appended.
-/

open Reasoning

namespace SubmarineMonitor

/-! ## 1. Receiving -/

/-- `GsRecvMessage` takes the message `GsSendRaw` sent and leaves what is behind it. -/
theorem gsRecvMessage_send (heap : Mem) (f : Tlv) (later : Bytes) (hword : f.bytes.length < 65536) :
    ∃ m, gsRecvMessage heap (gsSendRaw f.bytes ++ later) = some (m, later) ∧ m.tag = f.tag ∧
      m.valueLen = f.value.length ∧ slice m.value 0 m.valueLen = f.value := by
  have hb := f.bytes_length
  let lenBytes := protocolPutU32 (u32 f.bytes.length)
  have hstream : gsSendRaw f.bytes ++ later = lenBytes ++ (f.bytes ++ later) :=
    List.append_assoc _ _ _
  have hlen : (gsSendRaw f.bytes ++ later).length = 4 + (f.bytes.length + later.length) := by
    rw [hstream, List.length_append, List.length_append]
    rfl
  have htake : (gsSendRaw f.bytes ++ later).take 4 = lenBytes := by rw [hstream]; rfl
  have hdrop : (gsSendRaw f.bytes ++ later).drop 4 = f.bytes ++ later := by rw [hstream]; rfl
  have hmsgLen : protocolGetU32 (ofList lenBytes 0) = f.bytes.length := by
    rw [← u32_of_lt (show f.bytes.length < 4294967296 by omega)]
    exact protocolGetU32_of_slice (u32_lt _) (slice_ofList lenBytes 0)
  have hstorage : slice (store heap 0 f.bytes) 0 f.bytes.length = f.bytes ++ [] := by
    rw [slice_store, List.append_nil]
  have hdecode := protocolDecodeTLV_tlv f hstorage hword
  have hvalue : slice (advance (store heap 0 f.bytes) 3) 0 f.value.length = f.value := by
    rw [slice_advance]
    exact (slice_tlv hstorage).1
  refine ⟨{ tag := f.tag, value := advance (store heap 0 f.bytes) 3, valueLen := f.value.length },
    ?_, rfl, rfl, hvalue⟩
  -- four bytes of length, then exactly the message, which is one TLV
  rw [gsRecvMessage, if_neg (by omega), htake, hdrop]
  dsimp only
  rw [hmsgLen, if_neg (by omega), if_neg (by rw [List.length_append]; omega), List.take_left,
    u16_of_lt hword, hdecode, List.drop_left]

/-! ## 2. Printing -/

def shownReading (m : DcaMeasurement) : PrintedReading :=
  { temperature := m.temperature, humidity := m.humidity, light := m.light
    battery := m.batteryVoltage, mode := m.mode }

def shownMeasurement (m : DcaMeasurement) : PrintedMeasurement :=
  { timestamp := m.timestamp, reading := shownReading m }

def shownEvent (e : DcaEvent) : PrintedEvent :=
  { timestamp := e.timestamp, eventType := e.eventType, eventSource := e.eventSource
    measurement := if e.hasMeasurement then some (shownReading e.measurement) else none }

theorem measurementTlvs_tags (m : DcaMeasurement) : ((measurementTlvs m).map Tlv.tag).Nodup :=
  show [protoFieldTimestamp, protoFieldTemperature, protoFieldHumidity, protoFieldLight,
    protoFieldBatteryVoltage, protoFieldMode].Nodup by decide

theorem eventTlvs_tags (e : DcaEvent) : ((eventTlvs e).map Tlv.tag).Nodup := by
  unfold eventTlvs
  by_cases h : e.hasMeasurement
  · rw [if_pos h]
    exact show [protoFieldTimestamp, protoFieldEventType, protoFieldEventSource,
      protoFieldMeasurementRecord].Nodup by decide
  · rw [if_neg h]
    exact show [protoFieldTimestamp, protoFieldEventType, protoFieldEventSource].Nodup by decide

section Print

variable {record : Mem} {recordLen : Nat}

theorem readReading_eq {m : DcaMeasurement} (hlen : recordLen ≤ 65535)
    (hx : slice record 0 recordLen = tlvBytes (measurementTlvs m)) :
    readReading record recordLen = some (shownReading m) := by
  have htags := measurementTlvs_tags m
  have htemperature : readField record recordLen protoFieldTemperature 0 getI16 =
      some m.temperature :=
    readField_i16 hlen hx htags (by simp [measurementTlvs])
  have hhumidity : readField record recordLen protoFieldHumidity 0 getU8 = some m.humidity :=
    readField_u8 hlen hx htags (by simp [measurementTlvs])
  have hlight : readField record recordLen protoFieldLight 0 getU16 = some m.light :=
    readField_u16 hlen hx htags (by simp [measurementTlvs])
  have hbattery : readField record recordLen protoFieldBatteryVoltage 0 getU16 =
      some m.batteryVoltage := readField_u16 hlen hx htags (by simp [measurementTlvs])
  have hmode : readField record recordLen protoFieldMode 0 getU8 = some m.mode :=
    readField_u8 hlen hx htags (by simp [measurementTlvs])
  rw [readReading, htemperature, hhumidity, hlight, hbattery, hmode]
  rfl

theorem readMeasurementRecord_eq {m : DcaMeasurement} (hlen : recordLen ≤ 65535)
    (hx : slice record 0 recordLen = tlvBytes (measurementTlvs m)) :
    readMeasurementRecord record recordLen = some (shownMeasurement m) := by
  have htimestamp : readField record recordLen protoFieldTimestamp 0 getU32 = some m.timestamp :=
    readField_u32 hlen hx (measurementTlvs_tags m) (by simp [measurementTlvs])
  rw [readMeasurementRecord, htimestamp, readReading_eq hlen hx]
  rfl

theorem readEventRecord_eq {e : DcaEvent} (hlen : recordLen ≤ 65535)
    (hx : slice record 0 recordLen = tlvBytes (eventTlvs e)) :
    readEventRecord record recordLen = some (shownEvent e) := by
  have htags := eventTlvs_tags e
  have htimestamp : readField record recordLen protoFieldTimestamp 0 getU32 = some e.timestamp :=
    readField_u32 hlen hx htags (by simp [eventTlvs])
  have htype : readField record recordLen protoFieldEventType 0 getU8 = some e.eventType :=
    readField_u8 hlen hx htags (by simp [eventTlvs])
  have hsource : readField record recordLen protoFieldEventSource 0 getU8 = some e.eventSource :=
    readField_u8 hlen hx htags (by simp [eventTlvs])
  rw [readEventRecord, htimestamp, htype, hsource]
  by_cases h : e.hasMeasurement
  · -- the nested record is itself a sequence of fields
    have hmem : measurementRecordTlv e.measurement ∈ eventTlvs e := by simp [eventTlvs, h]
    obtain ⟨field, hfound, hflen, hvalue⟩ := findField_mem hlen hx htags hmem
    have hreading : readReading (advance record field.off) field.len =
        some (shownReading e.measurement) := by
      apply readReading_eq
      · rw [hflen]
        exact Nat.le_of_lt_succ (measurementRecordTlv e.measurement).length_lt
      · rw [slice_advance]
        exact hvalue
    have hnested : protocolFindField record recordLen protoFieldMeasurementRecord =
      some (.ok field) := hfound
    simp only [hnested, hreading, Option.bind_eq_bind, Option.bind_some, shownEvent, if_pos h]
    rfl
  · have hother : protoFieldMeasurementRecord ∉ (eventTlvs e).map Tlv.tag := by
      rw [eventTlvs, if_neg h]
      exact show protoFieldMeasurementRecord ∉
        [protoFieldTimestamp, protoFieldEventType, protoFieldEventSource] by decide
    have hnested : protocolFindField record recordLen protoFieldMeasurementRecord =
        some (.error .errNotFound) :=
      findField_missing hlen hx fun g hg htag ↦ hother (htag ▸ List.mem_map_of_mem hg)
    simp only [hnested, shownEvent, if_neg h]
    rfl

end Print

/-! ## 3. The walk over a response -/

section Response

variable {ρ α : Type} {recordTlv : ρ → Tlv} {shown : ρ → α} {recordTag : UInt8}
  {print : Mem → Nat → Option α}

theorem print_response {value : Mem} {off n : Nat} {records : List ρ} {status : Tlv}
    (htag : ∀ r, (recordTlv r).tag = recordTag) (hstatus : status.tag ≠ recordTag)
    (hprint : ∀ p r, slice p 0 (recordTlv r).value.length = (recordTlv r).value →
      print p (recordTlv r).value.length = some (shown r))
    (h : slice value off n = tlvBytes (status :: records.map recordTlv)) :
    ((placed off (status :: records.map recordTlv)).filter fun p ↦ p.1 = recordTag).mapM (fun p ↦
        print (advance value p.2.off) p.2.len) = some (records.map shown) := by
  rw [tlvBytes_cons] at h
  have htail := (slice_tlv h).2
  rw [← List.append_nil (tlvBytes _)] at htail
  have hall : records.filter (fun r ↦ (recordTlv r).tag = recordTag) = records :=
    List.filter_eq_self.mpr fun r _ ↦ decide_eq_true (htag r)
  have hprinted := mapM_placed htail recordTag fun r _ _ record hr ↦ hprint record r hr
  rw [hall] at hprinted
  have hother : ¬ decide (status.tag = recordTag) = true := mt of_decide_eq_true hstatus
  rw [placed, List.filter_cons, if_neg hother]
  exact hprinted

theorem status_read {value : Mem} {valueLen n : Nat} {records : List ρ} (hlen : valueLen ≤ 65532)
    (hx : slice value 0 valueLen = tlvBytes (responseTlvs recordTlv records n)) :
    readField value valueLen protoFieldStatus 0 getU8 =
      some (if records.isEmpty then protoStatusNoDataFound else protoStatusSuccess) := by
  rw [responseTlvs, tlvBytes_cons, ← List.nil_append (Tlv.bytes _ ++ _), ← tlvBytes_nil] at hx
  exact readField_found (by omega) hx (fun g hg ↦ absurd hg List.not_mem_nil)
    fun _ h ↦ getU8_of_slice h

theorem gsReadResponse_eq {respTag : UInt8} {heap : Mem} {stream later : Bytes} {m : GsMessage}
    {records : List ρ} {n : Nat} (htag : ∀ r, (recordTlv r).tag = recordTag)
    (hstatus : recordTag ≠ protoFieldStatus)
    (hprint : ∀ p r, slice p 0 (recordTlv r).value.length = (recordTlv r).value →
      print p (recordTlv r).value.length = some (shown r))
    (hrecv : gsRecvMessage heap stream = some (m, later)) (hm : m.tag = respTag)
    (hlen : m.valueLen ≤ 65532)
    (hx : slice m.value 0 m.valueLen = tlvBytes (responseTlvs recordTlv records n)) :
    gsReadResponse respTag recordTag print heap stream =
      some (if records.isEmpty then .noDataFound
            else .records ((records.take n).map shown)) := by
  rw [gsReadResponse, hrecv]
  dsimp only
  rw [if_neg (not_not_intro hm), status_read hlen hx]
  by_cases hempty : records.isEmpty
  · rw [if_pos hempty, if_pos hempty]
    rfl
  · rw [if_neg hempty, if_neg hempty]
    have hsuccess : ¬ protoStatusSuccess = protoStatusNoDataFound := by decide
    have hsame : ¬ protoStatusSuccess ≠ protoStatusSuccess := not_not_intro rfl
    simp only [Option.bind_eq_bind, Option.bind_some, if_neg hsuccess, if_neg hsame,
      walkTlv_complete hlen hx]
    rw [responseTlvs, print_response htag hstatus.symm hprint hx]
    rfl

/-! ## 4. End to end -/

/-- The reply is well built and reads as the answer `records`, cut by the soft cap: the payload is
    whole TLVs, its length fits the outer header, and both the receiver's message and what it
    prints are determined. -/
def ExactResponse (respTag : UInt8) (recordTlv : ρ → Tlv) (shown : ρ → α)
    (request : Mem → Bytes → Option (GsOutcome α)) (records : List ρ) (reply : GsReply) : Prop :=
  ∃ n, SoftCapped 4 (recordSizes recordTlv records) n ∧
    let payload := tlvBytes (responseTlvs recordTlv records n)
    reply.ok = true ∧ payload.length < 65536 ∧
    reply.message = respTag :: (protocolPutU16 payload.length ++ payload) ∧
    ∀ heap later,
      (∃ m, gsRecvMessage heap (gsSendRaw reply.message ++ later) = some (m, later) ∧
        m.tag = respTag ∧ slice m.value 0 m.valueLen = payload ∧
        readField m.value m.valueLen protoFieldStatus 0 getU8 =
          some (if records.isEmpty then protoStatusNoDataFound else protoStatusSuccess)) ∧
      request heap (gsSendRaw reply.message ++ later) =
        some (if records.isEmpty then .noDataFound
              else .records ((records.take n).map shown))

theorem handleRangeRequest_exact {append : StackFrame → Bytes → ρ → Bytes × Bool}
    {respTag : UInt8} {query : Bytes → UInt32 → UInt32 → List ρ} {stack : Nat → StackFrame}
    {value : Mem} {valueLen : Nat} {request : RangeRequest}
    (happend : ∀ stack out r, append stack out r = (out ++ (recordTlv r).bytes, true))
    (hsize : ∀ r, (recordTlv r).bytes.length ≤ 51) (htag : ∀ r, (recordTlv r).tag = recordTag)
    (hstatus : recordTag ≠ protoFieldStatus)
    (hprint : ∀ p r, slice p 0 (recordTlv r).value.length = (recordTlv r).value →
      print p (recordTlv r).value.length = some (shown r))
    (hrequest : parseGsRangeRequest value valueLen = some (some request)) :
    ∃ reply, handleRangeRequest respTag append query stack value valueLen = some reply ∧
      ExactResponse respTag recordTlv shown (gsReadResponse respTag recordTag print)
        (query request.submarineId request.start request.stop) reply := by
  obtain ⟨n, hn, hreply⟩ := handleRangeRequest_eq respTag query stack happend hrequest
  generalize query request.submarineId request.start request.stop = records at hn hreply
  -- the soft cap is passed by at most one record, far below 65533
  have hlen : (tlvBytes (responseTlvs recordTlv records n)).length ≤ 60000 + 51 := by
    rw [responseTlvs_length]
    apply hn.total_le (by decide)
    intro size hmem
    obtain ⟨r, -, rfl⟩ := List.mem_map.mp hmem
    exact hsize r
  let outer : Tlv :=
    { tag := respTag, value := tlvBytes (responseTlvs recordTlv records n)
      length_lt := by omega }
  have hmessage : wrapMessage respTag outer.value = outer.bytes := by
    rw [wrapMessage, u16_of_lt outer.length_lt]
    rfl
  refine ⟨_, hreply, n, hn, rfl, outer.length_lt, hmessage, fun heap later ↦ ?_⟩
  have houter : outer.bytes.length < 65536 := by
    have hvalue : outer.value.length ≤ 60000 + 51 := hlen
    rw [outer.bytes_length]
    omega
  have hrecv := gsRecvMessage_send heap outer later houter
  rw [← hmessage] at hrecv
  obtain ⟨m, hrecv, hm, hmlen, hx⟩ := hrecv
  have hvalueLen : m.valueLen ≤ 65532 := by
    rw [hmlen]
    exact Nat.le_trans hlen (by decide)
  exact ⟨⟨m, hrecv, hm, hx, status_read hvalueLen hx⟩,
    gsReadResponse_eq htag hstatus hprint hrecv hm hvalueLen hx⟩

end Response

/-- Both responses, for every content of the store. -/
theorem gs_response_exact (stack : Nat → StackFrame) (value : Mem) (valueLen : Nat)
    (request : RangeRequest) (hrequest : parseGsRangeRequest value valueLen = some (some request)) :
    (∀ query, ∃ reply, ccGsLinkHandleGetLog query stack value valueLen = some reply ∧
      ExactResponse protoTagGsGetLogResp measurementRecordTlv shownMeasurement gsRequestLog
        (query request.submarineId request.start request.stop) reply) ∧
    (∀ query, ∃ reply, ccGsLinkHandleGetEvents query stack value valueLen = some reply ∧
      ExactResponse protoTagGsGetEventsResp eventRecordTlv shownEvent gsRequestEvents
        (query request.submarineId request.start request.stop) reply) := by
  constructor
  · intro query
    have hsize : ∀ m, (measurementRecordTlv m).bytes.length ≤ 51 := fun m ↦ by
      rw [measurementRecordTlv_length]
      decide
    exact handleRangeRequest_exact appendMeasurementRecord_eq hsize (fun _ ↦ rfl) (by decide)
      (fun p m h ↦ readMeasurementRecord_eq (Nat.le_of_lt_succ (measurementRecordTlv m).length_lt)
        h) hrequest
  · intro query
    exact handleRangeRequest_exact appendEventRecord_eq eventRecordTlv_length_le (fun _ ↦ rfl)
      (by decide)
      (fun p e h ↦ readEventRecord_eq (Nat.le_of_lt_succ (eventRecordTlv e).length_lt) h)
      hrequest

/-- The request for submarine `S` from 1 to 9, answered with two measurements below zero, and with
    an event that carries one. -/
theorem gs_response_exact_belowZero :
    let value := ofList [0x32, 0, 1, 0x53, 0x27, 0, 4, 0, 0, 0, 1, 0x28, 0, 4, 0, 0, 0, 9] 0
    let stack : Nat → StackFrame := fun i ↦ ⟨fun _ ↦ 0xAA, fun _ ↦ 0xBB, fun j ↦ .ofNat (i + j),
      fun _ ↦ 0xCC, fun _ ↦ 0xDD, 7, 8, 9, 10⟩
    let cold : DcaMeasurement := { timestamp := 3, temperature := -42, batteryVoltage := 3300 }
    let colder : DcaMeasurement := { timestamp := 5, temperature := -32768, humidity := 255 }
    let event : DcaEvent := { timestamp := 5, eventType := 2, hasMeasurement := true
                              measurement := colder }
    (∃ reply, ccGsLinkHandleGetLog (fun _ _ _ ↦ [cold, colder]) stack value 18 = some reply ∧
      ExactResponse protoTagGsGetLogResp measurementRecordTlv shownMeasurement gsRequestLog
        [cold, colder] reply) ∧
    (∃ reply, ccGsLinkHandleGetEvents (fun _ _ _ ↦ [event]) stack value 18 = some reply ∧
      ExactResponse protoTagGsGetEventsResp eventRecordTlv shownEvent gsRequestEvents
        [event] reply) := by
  intro value stack cold colder event
  have hrequest : parseGsRangeRequest value 18 = some (some ⟨[0x53], 1, 9⟩) := by decide
  have h := gs_response_exact stack value 18 ⟨[0x53], 1, 9⟩ hrequest
  exact ⟨h.1 fun _ _ _ ↦ [cold, colder], h.2 fun _ _ _ ↦ [event]⟩

end SubmarineMonitor
