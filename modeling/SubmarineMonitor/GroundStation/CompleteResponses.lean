import SubmarineMonitor.Fleet.SubmarineDirectories
import SubmarineMonitor.GroundStation.ResponseCodec
import SubmarineMonitor.Storage.StoreQuery

/-!
# CompleteResponses — when SUCCESS means the whole answer

The status of a response is set before its records are appended, and the loop over them ends with the
record that passes the soft cap.  The Ground Station reads no more than the status, so a response is
shown as the whole answer exactly when all records but the last stay within the cap
(`gs_success_complete_iff`): up to 1819 measurements, or events by their two sizes.
-/

open Reasoning

namespace SubmarineMonitor

/-! ## 1. Definitions -/

def storedMeasurements (dataDir : Text) (disk : Disk) (submarineId : Bytes) :
    UInt32 → UInt32 → List DcaMeasurement :=
  dcaQueryMeasurementsOf dataDir disk (idText submarineId)

def storedEvents (dataDir : Text) (disk : Disk) (submarineId : Bytes) :
    UInt32 → UInt32 → List DcaEvent :=
  dcaQueryEventsOf dataDir disk (idText submarineId)

/-- What a request shows behind a STATUS of SUCCESS is all that the query for it returned, in order. -/
def SuccessIsComplete {ρ α : Type} (shown : ρ → α) (request : Mem → Bytes → Option (GsOutcome α))
    (query : Bytes → UInt32 → UInt32 → List ρ) (value : Mem) (valueLen : Nat)
    (response : Option GsReply) : Prop :=
  ∀ reply, response = some reply → ∀ heap later printed,
    request heap (gsSendRaw reply.message ++ later) = some (.records printed) →
      ∃ r, parseGsRangeRequest value valueLen = some (some r) ∧
        printed = (query r.submarineId r.start r.stop).map shown

/-- The records that the loop must have appended before the last one stay within the soft cap. -/
def WithinCap (sizes : List Nat) : Prop := 4 + sizes.dropLast.sum ≤ 60000

instance (sizes : List Nat) : Decidable (WithinCap sizes) :=
  inferInstanceAs (Decidable (4 + sizes.dropLast.sum ≤ 60000))

def eventSize (e : DcaEvent) : Nat := if e.hasMeasurement then 51 else 18

/-! ## 2. The soft cap -/

theorem SoftCapped.eq_length_iff {sizes : List Nat} {n : Nat} (h : SoftCapped 4 sizes n) :
    n = sizes.length ↔ WithinCap sizes := by
  rw [WithinCap, List.dropLast_eq_take]
  constructor
  · intro hn
    by_cases hempty : sizes.length = 0
    · rw [hempty, List.take_zero]
      decide
    · exact h.under (sizes.length - 1) (by omega)
  · intro hcap
    by_contra hne
    have hlt : n < sizes.length := Nat.lt_of_le_of_ne h.le hne
    have hbeyond := h.beyond hlt
    rw [show sizes.length - 1 = n + (sizes.length - 1 - n) by omega, List.take_add,
      List.sum_append] at hcap
    omega

theorem withinCap_replicate (k size : Nat) :
    WithinCap (List.replicate k size) ↔ 4 + (k - 1) * size ≤ 60000 := by
  rw [WithinCap, List.dropLast_replicate, List.sum_replicate_nat]

theorem recordSizes_measurements (records : List DcaMeasurement) :
    recordSizes measurementRecordTlv records = List.replicate records.length 33 := by
  rw [recordSizes, List.map_congr_left fun m _ ↦ measurementRecordTlv_length m, List.map_const']

theorem eventRecordTlv_length (e : DcaEvent) : (eventRecordTlv e).bytes.length = eventSize e := by
  have h := eventTlvs_length e
  rw [Tlv.bytes_length, show (eventRecordTlv e).value = tlvBytes (eventTlvs e) from rfl, h, eventSize]
  split <;> rfl

theorem recordSizes_events (records : List DcaEvent) :
    recordSizes eventRecordTlv records = records.map eventSize :=
  List.map_congr_left fun e _ ↦ eventRecordTlv_length e

/-! ## 3. A response and its reading -/

section Response

variable {ρ α : Type} {recordTlv : ρ → Tlv} {shown : ρ → α} {respTag recordTag : UInt8}
  {print : Mem → Nat → Option α} {append : StackFrame → Bytes → ρ → Bytes × Bool}
  {query : Bytes → UInt32 → UInt32 → List ρ} {stack : Nat → StackFrame} {value : Mem}
  {valueLen : Nat}

theorem gsReadResponse_internalError (frame : StackFrame) (heap : Mem) (later : Bytes) :
    gsReadResponse respTag recordTag print heap
      (gsSendRaw (wrapMessage respTag (statusPayload frame protoStatusInternalError).1) ++ later) =
        some (.status protoStatusInternalError) := by
  let outer : Tlv :=
    { tag := respTag, value := (statusTlv protoStatusInternalError).bytes, length_lt := by decide }
  have hmessage : wrapMessage respTag (statusPayload frame protoStatusInternalError).1 =
      outer.bytes := by
    rw [statusPayload_eq, wrapMessage, u16_of_lt outer.length_lt]
    rfl
  obtain ⟨m, hrecv, hm, hmlen, hx⟩ := gsRecvMessage_send heap outer later
    (show 7 < 65536 by decide)
  have hlen : m.valueLen ≤ 65535 := hmlen.trans_le (show 4 ≤ 65535 by decide)
  have hvalue : slice m.value 0 m.valueLen =
      tlvBytes [] ++ ((statusTlv protoStatusInternalError).bytes ++ []) := by
    rw [hx, List.append_nil]
    rfl
  have hstatus : readField m.value m.valueLen protoFieldStatus 0 getU8 =
      some protoStatusInternalError :=
    readField_found hlen hvalue (fun g hg ↦ absurd hg List.not_mem_nil)
      fun _ h ↦ getU8_of_slice h
  rw [hmessage, gsReadResponse, hrecv]
  dsimp only
  rw [if_neg (not_not_intro hm), hstatus]
  rfl

/-- A response is shown as the whole answer exactly when no record was left out of it. -/
theorem complete_iff {request : Mem → Bytes → Option (GsOutcome α)} {response : Option GsReply}
    {reply : GsReply} {range : RangeRequest} {n : Nat} (hreply : response = some reply)
    (hparse : parseGsRangeRequest value valueLen = some (some range))
    (hle : n ≤ (query range.submarineId range.start range.stop).length)
    (hread : ∀ heap later, request heap (gsSendRaw reply.message ++ later) =
      some (if (query range.submarineId range.start range.stop).isEmpty then .noDataFound
        else .records (((query range.submarineId range.start range.stop).take n).map shown))) :
    SuccessIsComplete shown request query value valueLen response ↔
      n = (query range.submarineId range.start range.stop).length := by
  constructor
  · intro hcomplete
    by_cases hempty : (query range.submarineId range.start range.stop).isEmpty
    · rw [List.isEmpty_iff.mp hempty] at hle ⊢
      exact Nat.le_zero.mp hle
    · have hshown := hread (ofList [] 0) []
      rw [if_neg hempty] at hshown
      obtain ⟨r, hr, hall⟩ := hcomplete reply hreply _ _ _ hshown
      have hsame : range = r := Option.some.inj (Option.some.inj (hparse.symm.trans hr))
      have hlength := congrArg List.length hall
      rw [← hsame, List.length_map, List.length_map, List.length_take_of_le hle] at hlength
      exact hlength
  · intro hn reply' hreply' heap later printed hprinted
    have hsame : reply = reply' := Option.some.inj (hreply.symm.trans hreply')
    rw [← hsame, hread] at hprinted
    by_cases hempty : (query range.submarineId range.start range.stop).isEmpty
    · rw [if_pos hempty] at hprinted
      cases hprinted
    · rw [if_neg hempty, hn, List.take_length] at hprinted
      exact ⟨range, hparse, (GsOutcome.records.inj (Option.some.inj hprinted)).symm⟩

theorem handleRangeRequest_complete_iff
    (happend : ∀ stack out r, append stack out r = (out ++ (recordTlv r).bytes, true))
    (hsize : ∀ r, (recordTlv r).bytes.length ≤ 51) (htag : ∀ r, (recordTlv r).tag = recordTag)
    (hstatus : recordTag ≠ protoFieldStatus)
    (hprint : ∀ p r, slice p 0 (recordTlv r).value.length = (recordTlv r).value →
      print p (recordTlv r).value.length = some (shown r)) :
    SuccessIsComplete shown (gsReadResponse respTag recordTag print) query value valueLen
        (handleRangeRequest respTag append query stack value valueLen) ↔
      ∀ r, parseGsRangeRequest value valueLen = some (some r) →
        WithinCap (recordSizes recordTlv (query r.submarineId r.start r.stop)) := by
  cases hparse : parseGsRangeRequest value valueLen with
  -- a lookup does not return, and there is no response
  | none =>
      refine iff_of_true (fun reply hreply ↦ ?_) (fun r hr ↦ by cases hr)
      rw [handleRangeRequest, hparse] at hreply
      cases hreply
  | some parsed =>
      cases parsed with
      -- a response without records, whose status is not SUCCESS
      | none =>
          refine iff_of_true (fun reply hreply heap later printed hprinted ↦ ?_)
            (fun r hr ↦ by cases hr)
          rw [handleRangeRequest, hparse] at hreply
          cases hreply
          rw [gsReadResponse_internalError] at hprinted
          cases hprinted
      | some request =>
          obtain ⟨reply, hreply, n, hn, -, -, -, hread⟩ :=
            @handleRangeRequest_exact ρ α recordTlv shown recordTag print append respTag query stack
              value valueLen request happend hsize htag hstatus hprint hparse
          have hlength : (recordSizes recordTlv (query request.submarineId request.start
              request.stop)).length = _ := List.length_map _
          have hfull := hn.eq_length_iff
          rw [hlength] at hfull
          rw [complete_iff hreply hparse (hlength ▸ hn.le) fun heap later ↦ (hread heap later).2,
            hfull]
          exact ⟨fun h r hr ↦ by cases hr; exact h, fun h ↦ h request rfl⟩

end Response

/-! ## 4. The two requests -/

section Requests

variable (dataDir : Text) (disk : Disk) (stack : Nat → StackFrame) (value : Mem) (valueLen : Nat)

def LogComplete : Prop :=
  SuccessIsComplete shownMeasurement gsRequestLog (storedMeasurements dataDir disk) value valueLen
    (ccGsLinkHandleGetLog (storedMeasurements dataDir disk) stack value valueLen)

def EventsComplete : Prop :=
  SuccessIsComplete shownEvent gsRequestEvents (storedEvents dataDir disk) value valueLen
    (ccGsLinkHandleGetEvents (storedEvents dataDir disk) stack value valueLen)

theorem logComplete_iff :
    LogComplete dataDir disk stack value valueLen ↔
      ∀ r, parseGsRangeRequest value valueLen = some (some r) →
        (storedMeasurements dataDir disk r.submarineId r.start r.stop).length ≤ 1819 := by
  have hsize : ∀ m, (measurementRecordTlv m).bytes.length ≤ 51 := fun m ↦ by
    rw [measurementRecordTlv_length]
    decide
  have h : LogComplete dataDir disk stack value valueLen ↔ _ :=
    handleRangeRequest_complete_iff appendMeasurementRecord_eq hsize (fun _ ↦ rfl) (by decide)
      fun _ m hm ↦ readMeasurementRecord_eq (Nat.le_of_lt_succ (measurementRecordTlv m).length_lt) hm
  rw [h]
  refine forall₂_congr fun r _ ↦ ?_
  rw [recordSizes_measurements, withinCap_replicate]
  omega

theorem eventsComplete_iff :
    EventsComplete dataDir disk stack value valueLen ↔
      ∀ r, parseGsRangeRequest value valueLen = some (some r) →
        WithinCap ((storedEvents dataDir disk r.submarineId r.start r.stop).map eventSize) := by
  have h : EventsComplete dataDir disk stack value valueLen ↔ _ :=
    handleRangeRequest_complete_iff appendEventRecord_eq eventRecordTlv_length_le (fun _ ↦ rfl)
      (by decide)
      fun _ e he ↦ readEventRecord_eq (Nat.le_of_lt_succ (eventRecordTlv e).length_lt) he
  rw [h]
  refine forall₂_congr fun r _ ↦ ?_
  rw [recordSizes_events]

/-- For every disk and every request the Ground Station may have made. -/
theorem gs_success_complete_iff :
    (LogComplete dataDir disk stack value valueLen ↔
      ∀ r, parseGsRangeRequest value valueLen = some (some r) →
        (storedMeasurements dataDir disk r.submarineId r.start r.stop).length ≤ 1819) ∧
    (EventsComplete dataDir disk stack value valueLen ↔
      ∀ r, parseGsRangeRequest value valueLen = some (some r) →
        WithinCap ((storedEvents dataDir disk r.submarineId r.start r.stop).map eventSize)) :=
  ⟨logComplete_iff dataDir disk stack value valueLen,
    eventsComplete_iff dataDir disk stack value valueLen⟩

end Requests

/-! ## 5. A long day -/

def longDay (k : Nat) (m : DcaMeasurement) : List (DcaCall DcaMeasurement) :=
  List.replicate k (.store firstOfMarch m)

theorem stored_longDay (k : Nat) (m : DcaMeasurement) :
    stored (longDay k m) = List.replicate k (firstOfMarch, m) :=
  List.filterMap_replicate_of_some rfl

theorem query_longDay {k : Nat} {m : DcaMeasurement} {start stop : UInt32} (hpos : 0 < k)
    (hstart : start ≤ m.timestamp) (hstop : m.timestamp ≤ stop) :
    dcaQueryMeasurements (runState measurementCall emptyDirectory (longDay k m)) start stop =
      List.replicate k m := by
  let dir := runState measurementCall emptyDirectory (longDay k m)
  have hsorted : ((stored (longDay k m)).map (·.1)).Pairwise (· ≤ ·) := by
    rw [stored_longDay, List.map_replicate]
    exact List.pairwise_replicate.mpr (.inr (le_refl _))
  have hkeep : ∀ dir start stop, (measurementCall dir (.query start stop)).1 = dir := fun _ _ _ ↦ rfl
  have hrun : AnswersInOrder dcaQueryMeasurements (fun m ↦ m) (·.timestamp) (stored (longDay k m))
        dir ∧ KeepsRecentDays measurementLine (stored (longDay k m)) dir :=
    store_query_run (fun _ _ _ ↦ rfl) hkeep measurementLine_clean scanMeasurement_line rfl hsorted
      List.prefix_rfl
  obtain ⟨hanswers, hrecent⟩ := hrun
  -- one day of records is never rotated away
  have hdates : datesOf (stored (longDay k m)) = {firstOfMarch} := by
    rw [stored_longDay, datesOf, List.map_replicate, List.toFinset_replicate_of_ne_zero (by omega)]
  rw [KeepsRecentDays, hdates] at hrecent
  have hpresent := (hrecent firstOfMarch (Finset.mem_singleton_self _) (by
    rw [Finset.filter_singleton, if_neg (lt_irrefl _)]
    decide)).1
  rw [hanswers start stop, stored_longDay, List.filter_replicate,
    if_pos (decide_eq_true ⟨hpresent, hstart, hstop⟩), List.map_replicate]

/-- The request for submarine `S` from 1 to 9 on a disk with 1820 measurements of one day. -/
theorem gs_success_incomplete :
    ¬ ∀ (dataDir : Text) (disk : Disk) (stack : Nat → StackFrame) (value : Mem) (valueLen : Nat),
      LogComplete dataDir disk stack value valueLen ∧
        EventsComplete dataDir disk stack value valueLen := by
  intro h
  let value : Mem := ofList [0x32, 0, 1, 0x53, 0x27, 0, 4, 0, 0, 0, 1, 0x28, 0, 4, 0, 0, 0, 9] 0
  let stack : Nat → StackFrame := fun _ ↦ ⟨fun _ ↦ 0, fun _ ↦ 0, fun _ ↦ 0, fun _ ↦ 0, fun _ ↦ 0, 0,
    0, 0, 0⟩
  let dir := runState measurementCall emptyDirectory (longDay 1820 { timestamp := 5 })
  let disk := ((emptyDisk.put ⟨.above 0, [['d', 'a', 't', 'a']]⟩ emptyDirectory).put
    ⟨.above 0, [['d', 'a', 't', 'a'], ['S']]⟩ emptyDirectory).put
    ⟨.above 0, [['d', 'a', 't', 'a'], ['S'], Category.measurements.name]⟩ dir
  have hrequest : parseGsRangeRequest value 18 = some (some ⟨[0x53], 1, 9⟩) := by decide
  have hshort := (logComplete_iff ['d', 'a', 't', 'a'] disk stack value 18).mp
    (h ['d', 'a', 't', 'a'] disk stack value 18).1 ⟨[0x53], 1, 9⟩ hrequest
  have hway : wayOf (submarineDir ['d', 'a', 't', 'a'] ['S'] .measurements) =
      [⟨.above 0, [['d', 'a', 't', 'a']]⟩, ⟨.above 0, [['d', 'a', 't', 'a'], ['S']]⟩,
        ⟨.above 0, [['d', 'a', 't', 'a'], ['S'], Category.measurements.name]⟩] := by decide
  have hfolders : ∀ q ∈ wayOf (submarineDir ['d', 'a', 't', 'a'] ['S'] .measurements),
      disk.isFolder q := by
    rw [hway]
    simp [disk, Folders.isFolder_put]
  have hdir : directoryAt disk (submarineDir ['d', 'a', 't', 'a'] ['S'] .measurements) = dir := by
    rw [directoryAt_eq (by decide) hfolders]
    exact Folders.content_put_self dir
  have hlong : storedMeasurements ['d', 'a', 't', 'a'] disk [0x53] 1 9 =
      List.replicate 1820 { timestamp := 5 } := by
    rw [storedMeasurements, dcaQueryMeasurementsOf, show idText [0x53] = ['S'] from by decide, hdir]
    exact query_longDay (by decide) (by decide) (by decide)
  rw [hlong, List.length_replicate] at hshort
  omega

end SubmarineMonitor
