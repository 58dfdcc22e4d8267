import SubmarineMonitor.GroundStation.GsMain
import SubmarineMonitor.GroundStation.RequestCodec

/-!
# GsSession — the Ground Station and the Central Computer on one connection

The two programs take their steps in any order, byte by byte, through socket buffers of any size, while the
thread of the LNC link stores records.  Every run is bounded, never leaves bytes behind in a closed socket,
and comes to the one end that both programs are written for: the handshake has matched, and each of the two
requests has been answered with the records of one moment (`gs_session`).
-/

open Reasoning

namespace SubmarineMonitor

/-! ## 1. Definitions -/

def gsSession (dataDir : Text) (disk : Disk) (linkMemory : GsLinkMemory) (memory : GsMemory)
    (range : GsRange) (leftRoom rightRoom : Nat) :
    Programs GsState GsLinkState UInt8 (List StoreCall) where
  left := groundStation memory range
  right := ccGsLink dataDir disk linkMemory
  leftRoom := leftRoom + 1
  rightRoom := rightRoom + 1

def gsSessionStart : Network GsState GsLinkState UInt8 (List StoreCall) :=
  .between { phase := .greetingLength } .greetingLength [] []

/-- The answer to a query that found `records`: all of them, up to the soft cap of a response. -/
def AnswerOf {ρ α : Type} (recordTlv : ρ → Tlv) (shown : ρ → α) (records : List ρ)
    (outcome : GsOutcome α) : Prop :=
  ∃ n, SoftCapped 4 (recordSizes recordTlv records) n ∧
    outcome = if records.isEmpty then .noDataFound else .records ((records.take n).map shown)

/-- Both sockets are closed, and both requests have been answered: the first one from the stores in
    `first`, the other one from those in `second`. -/
def SessionEnd (dataDir : Text) (disk : Disk) (range : GsRange) (first second : List StoreCall)
    (net : Network GsState GsLinkState UInt8 (List StoreCall)) : Prop :=
  ∃ log events,
    net = .ended { phase := .exited 0, log := some log, events := some events } .accept []
      [first, second] ∧
    AnswerOf measurementRecordTlv shownMeasurement
      (storedMeasurements dataDir (diskBehind dataDir disk first) range.submarineId range.rangeStart
        range.rangeEnd) log ∧
    AnswerOf eventRecordTlv shownEvent
      (storedEvents dataDir (diskBehind dataDir disk second) range.submarineId range.rangeStart
        range.rangeEnd) events

def GsQuery.reqTag : GsQuery → UInt8
  | .log => protoTagGsGetLogReq
  | .events => protoTagGsGetEventsReq

/-! ## 2. Messages in step -/

section Session

variable {dataDir : Text} {disk : Disk} {linkMemory : GsLinkMemory} {memory : GsMemory}
  {range : GsRange} {leftRoom rightRoom : Nat} {answer : Party → Nat → List StoreCall}

theorem handshake_leads :
    Leads (Network.act (gsSession dataDir disk linkMemory memory range leftRoom rightRoom) answer) 64
      gsSessionStart (.between { phase := .requestLength .log } (.dispatch 0) [] []) := by
  let P := gsSession dataDir disk linkMemory memory range leftRoom rightRoom
  have hlength := leads_send_right P answer [] [] { phase := .greetingLength } .greetingLength
    (Nat.succ_pos _) rfl rfl
  have hgreeting := leads_send_right P answer [] [] { phase := .greeting } (.greeting 8)
    (Nat.succ_pos _) rfl rfl
  have hlength' := leads_send_left P answer [] [] { phase := .replyLength } (.replyLength true)
    (Nat.succ_pos _) rfl rfl
  have hreply := leads_send_left P answer [] [] { phase := .reply 12 } (.reply true)
    (Nat.succ_pos _) rfl rfl
  exact ((hlength.trans hgreeting).trans hlength').trans hreply

theorem request_arrives {q : GsQuery} {s : GsState} {k : Nat} {asked : List (List StoreCall)}
    {p rest : Bytes} {m : RequestMessage} (hsends : gsRequestSends memory range q = tcpMessage p)
    (hpos : 0 < p.length) (hfits : p.length ≤ 512)
    (hrecv : commGsRecvMessage (linkMemory.storage k) 512 (tcpMessage p) = some (m, rest))
    (htag : m.tag = q.reqTag) :
    Leads (Network.act (gsSession dataDir disk linkMemory memory range leftRoom rightRoom) answer)
      (2 * p.length + 12) (.between { s with phase := .requestLength q } (.dispatch k) [] asked)
      (.between { s with phase := .responseLength q } (.handle k m) [] asked) := by
  let P := gsSession dataDir disk linkMemory memory range leftRoom rightRoom
  have htake : (gsRequestSends memory range q).take 4 = protocolPutU32 p.length := by
    rw [hsends]
    rfl
  have hdrop : (gsRequestSends memory range q).drop 4 = p := by
    rw [hsends]
    rfl
  have hlen : protocolGetU32 (ofList (protocolPutU32 p.length) 0) = p.length :=
    protocolGetU32_of_slice (by omega) (slice_ofList (protocolPutU32 p.length) 0)
  have hfirst : Leads (Network.act P answer) 10
      (.between { s with phase := .requestLength q } (.dispatch k) [] asked)
      (.between { s with phase := .request q } (.message k (protocolPutU32 p.length)) [] asked) := by
    have hsend : P.left { s with phase := .requestLength q } =
        .send (protocolPutU32 p.length) { s with phase := .request q } := by
      rw [← htake]
      rfl
    have h := leads_send_right P answer [] asked _ (.dispatch k) (Nat.succ_pos _) hsend rfl
    rw [if_neg (not_not_intro (protocolPutU32_length p.length)), hlen, if_neg (by omega)] at h
    exact h
  have hnext : P.right (.message k (protocolPutU32 p.length)) = .recv p.length fun body ↦
      .received k (commGsRecvMessage (linkMemory.storage k) 512
        (protocolPutU32 p.length ++ body)) := by
    show Action.recv (protocolGetU32 (ofList (protocolPutU32 p.length) 0)) _ = _
    rw [hlen]
  have hsend : P.left { s with phase := .request q } =
      .send p { s with phase := .responseLength q } := by
    rw [← hdrop]
    rfl
  have hsecond := leads_send_right P answer [] asked _ _ (Nat.succ_pos _) hsend hnext
  have hhandle : GsLinkState.received k (commGsRecvMessage (linkMemory.storage k) 512
      (protocolPutU32 p.length ++ p)) = .handle k m := by
    rw [← tcpMessage, hrecv, GsLinkState.received, if_pos]
    cases q with
    | log => exact .inl htag
    | events => exact .inr htag
  rw [hhandle] at hsecond
  rw [show 2 * p.length + 12 = 10 + (2 * p.length + 2) by omega]
  exact hfirst.trans hsecond

/-- The length of a response, the response, and what the Ground Station makes of it. -/
theorem response_arrives {q : GsQuery} {s : GsState} {k : Nat} {asked : List (List StoreCall)}
    {message : Bytes} (hpos : 0 < message.length) (hword : message.length < 4294967296) :
    Leads (Network.act (gsSession dataDir disk linkMemory memory range leftRoom rightRoom) answer)
      (2 * message.length + 12)
      (.between { s with phase := .responseLength q } (.respondLength k message) [] asked)
      (.between (s.answered memory (gsSendRaw message) q) (.dispatch (k + 1)) [] asked) := by
  let P := gsSession dataDir disk linkMemory memory range leftRoom rightRoom
  let lengthBytes := protocolPutU32 (u32 message.length)
  have hlen : protocolGetU32 (ofList lengthBytes 0) = message.length := by
    rw [show lengthBytes = protocolPutU32 message.length from congrArg protocolPutU32 (u32_of_lt hword)]
    exact protocolGetU32_of_slice hword (slice_ofList (protocolPutU32 message.length) 0)
  have hfirst : Leads (Network.act P answer) 10
      (.between { s with phase := .responseLength q } (.respondLength k message) [] asked)
      (.between { s with phase := .response q lengthBytes } (.respond k message) [] asked) := by
    have h := leads_send_left P answer [] asked { s with phase := .responseLength q }
      (.respondLength k message) (Nat.succ_pos _) rfl rfl
    rw [hlen, if_neg] at h
    · exact h
    · rintro (hfew | hzero)
      · exact hfew (protocolPutU32_length _)
      · omega
  have hnext : P.left { s with phase := .response q lengthBytes } =
      .recv message.length fun body ↦ s.answered memory (lengthBytes ++ body) q := by
    show Action.recv (protocolGetU32 (ofList lengthBytes 0)) _ = _
    rw [hlen]
    refine congrArg (Action.recv message.length) (funext fun body ↦ ?_)
    cases q <;> rfl
  have hsecond := leads_send_left P answer [] asked _ (.respond k message) (Nat.succ_pos _) rfl hnext
  rw [show 2 * message.length + 12 = 10 + (2 * message.length + 2) by omega]
  exact hfirst.trans hsecond

/-- A request, its answer, and what the Ground Station makes of it. -/
theorem request_leads {q : GsQuery} {s : GsState} {k : Nat} {asked : List (List StoreCall)}
    {p rest : Bytes} {m : RequestMessage} {r : GsReply}
    (hsends : gsRequestSends memory range q = tcpMessage p) (hpos : 0 < p.length)
    (hfits : p.length ≤ 512)
    (hrecv : commGsRecvMessage (linkMemory.storage k) 512 (tcpMessage p) = some (m, rest))
    (htag : m.tag = q.reqTag)
    (hreply : ccGsLinkHandle dataDir (diskBehind dataDir disk (answer .right asked.length))
      (linkMemory.stack k) m = some r)
    (hmessage : 0 < r.message.length) (hword : r.message.length < 4294967296) :
    Leads (Network.act (gsSession dataDir disk linkMemory memory range leftRoom rightRoom) answer)
      (2 * p.length + 2 * r.message.length + 25)
      (.between { s with phase := .requestLength q } (.dispatch k) [] asked)
      (.between (s.answered memory (gsSendRaw r.message) q) (.dispatch (k + 1)) []
        (asked ++ [answer .right asked.length])) := by
  have hask := leads_ask_right (gsSession dataDir disk linkMemory memory range leftRoom rightRoom)
    answer [] asked { s with phase := .responseLength q } (.handle k m) rfl
  rw [hreply] at hask
  rw [show 2 * p.length + 2 * r.message.length + 25 =
    2 * p.length + 12 + 1 + (2 * r.message.length + 12) by omega]
  exact ((request_arrives hsends hpos hfits hrecv htag).trans hask).trans
    (response_arrives hmessage hword)

/-! ## 3. The requests of the operator -/

theorem request_of_le (q : GsQuery) (storage : Mem) (h : range.submarineId.length ≤ 63) :
    ∃ p m rest, gsRequestSends memory range q = tcpMessage p ∧ 0 < p.length ∧ p.length ≤ 83 ∧
      commGsRecvMessage storage 512 (tcpMessage p) = some (m, rest) ∧ m.tag = q.reqTag ∧
      parseGsRangeRequest m.value m.valueLen =
        some (some ⟨range.submarineId, range.rangeStart, range.rangeEnd⟩) := by
  have hall : ∀ (reqTag : UInt8) (frame : RequestFrame),
      ∃ p m rest, sendRequest reqTag frame range.submarineId range.rangeStart range.rangeEnd =
          tcpMessage p ∧ 0 < p.length ∧ p.length ≤ 83 ∧
        commGsRecvMessage storage 512 (tcpMessage p) = some (m, rest) ∧ m.tag = reqTag ∧
        parseGsRangeRequest m.value m.valueLen =
          some (some ⟨range.submarineId, range.rangeStart, range.rangeEnd⟩) := by
    intro reqTag frame
    let payload := requestPayload frame range.submarineId range.rangeStart range.rangeEnd
    rcases parsedBack_of_le reqTag frame range.rangeStart range.rangeEnd h with hnone | ⟨hlen, -, hback⟩
    · have hlength := congrArg List.length hnone
      rw [sendRequest, gsSend, List.length_append, protocolPutU32_length] at hlength
      exact absurd hlength (by simp)
    · have hpayload : payload.len ≤ 80 := hlen
      have hsends : sendRequest reqTag frame range.submarineId range.rangeStart range.rangeEnd =
          tcpMessage (tlvMessage reqTag (slice payload.buf 0 payload.len)) :=
        gsSend_tlv _ _ _ rfl (by rw [slice_length]; omega)
      obtain ⟨m, rest, hrecv, htag, hparse⟩ := hback storage
      have hlength : (tlvMessage reqTag (slice payload.buf 0 payload.len)).length =
          payload.len + 3 := by
        rw [tlvMessage, List.length_cons, List.length_append, protocolPutU16_length, slice_length]
        omega
      exact ⟨_, m, rest, hsends, by omega, by omega, hsends ▸ hrecv, htag, hparse⟩
  cases q with
  | log => exact hall protoTagGsGetLogReq memory.logFrame
  | events => exact hall protoTagGsGetEventsReq memory.eventsFrame

/-! ## 4. The responses -/

theorem answerOf_exact {ρ α : Type} {respTag : UInt8} {recordTlv : ρ → Tlv} {shown : ρ → α}
    {request : Mem → Bytes → Option (GsOutcome α)} {records : List ρ} {r : GsReply}
    (h : ExactResponse respTag recordTlv shown request records r) :
    0 < r.message.length ∧ r.message.length ≤ 65538 ∧
      ∃ outcome, AnswerOf recordTlv shown records outcome ∧
        ∀ heap, request heap (gsSendRaw r.message) = some outcome := by
  obtain ⟨n, hn, -, hpayload, hmessage, hread⟩ := h
  have hlength := congrArg List.length hmessage
  rw [List.length_cons, List.length_append, protocolPutU16_length] at hlength
  refine ⟨by omega, by omega, _, ⟨n, hn, rfl⟩, fun heap ↦ ?_⟩
  have h := (hread heap []).2
  rw [List.append_nil] at h
  exact h

section Reply

variable (dataDir : Text) (disk : Disk) (stack : Nat → StackFrame) {m : RequestMessage}
  {submarineId : Bytes} {start stop : UInt32}

theorem logReply (htag : m.tag = protoTagGsGetLogReq)
    (hparse : parseGsRangeRequest m.value m.valueLen = some (some ⟨submarineId, start, stop⟩)) :
    ∃ r, ccGsLinkHandle dataDir disk stack m = some r ∧
      ExactResponse protoTagGsGetLogResp measurementRecordTlv shownMeasurement gsRequestLog
        (storedMeasurements dataDir disk submarineId start stop) r := by
  obtain ⟨r, hr, hexact⟩ := @handleRangeRequest_exact _ _ measurementRecordTlv shownMeasurement
    protoFieldMeasurementRecord printMeasurementRecord _ protoTagGsGetLogResp
    (storedMeasurements dataDir disk) stack _ _ _ appendMeasurementRecord_eq
    (fun m ↦ by rw [measurementRecordTlv_length]; decide) (fun _ ↦ rfl) (by decide)
    (fun _ m hm ↦ readMeasurementRecord_eq (Nat.le_of_lt_succ (measurementRecordTlv m).length_lt) hm)
    hparse
  exact ⟨r, by rw [ccGsLinkHandle, if_pos htag]; exact hr, hexact⟩

theorem eventsReply (htag : m.tag = protoTagGsGetEventsReq)
    (hparse : parseGsRangeRequest m.value m.valueLen = some (some ⟨submarineId, start, stop⟩)) :
    ∃ r, ccGsLinkHandle dataDir disk stack m = some r ∧
      ExactResponse protoTagGsGetEventsResp eventRecordTlv shownEvent gsRequestEvents
        (storedEvents dataDir disk submarineId start stop) r := by
  obtain ⟨r, hr, hexact⟩ := @handleRangeRequest_exact _ _ eventRecordTlv shownEvent
    protoFieldEventRecord readEventRecord _ protoTagGsGetEventsResp (storedEvents dataDir disk)
    stack _ _ _ appendEventRecord_eq eventRecordTlv_length_le (fun _ ↦ rfl) (by decide)
    (fun _ e he ↦ readEventRecord_eq (Nat.le_of_lt_succ (eventRecordTlv e).length_lt) he) hparse
  exact ⟨r, by rw [ccGsLinkHandle, if_neg (htag ▸ by decide)]; exact hr, hexact⟩

end Reply

/-! ## 5. Every run -/

theorem log_leads (h : range.submarineId.length ≤ 63) :
    ∃ n ≤ 131267, ∃ log,
      AnswerOf measurementRecordTlv shownMeasurement
        (storedMeasurements dataDir (diskBehind dataDir disk (answer .right 0)) range.submarineId
          range.rangeStart range.rangeEnd) log ∧
      Leads (Network.act (gsSession dataDir disk linkMemory memory range leftRoom rightRoom) answer) n
        (.between { phase := .requestLength .log } (.dispatch 0) [] [])
        (.between { phase := .requestLength .events, log := some log } (.dispatch 1) []
          [answer .right 0]) := by
  obtain ⟨p, m, rest, hsends, hpos, hfits, hrecv, htag, hparse⟩ :=
    @request_of_le memory range .log (linkMemory.storage 0) h
  obtain ⟨r, hr, hexact⟩ := logReply dataDir (diskBehind dataDir disk (answer .right 0))
    (linkMemory.stack 0) htag hparse
  obtain ⟨hmessage, hle, log, hlog, hread⟩ := answerOf_exact hexact
  have hleads := @request_leads dataDir disk linkMemory memory range leftRoom rightRoom answer .log
    { phase := .requestLength .log } 0 [] p rest m r hsends hpos (by omega) hrecv htag hr hmessage
    (by omega)
  have hanswered : GsState.answered memory { phase := .requestLength .log } (gsSendRaw r.message)
      .log = { phase := .requestLength .events, log := some log } := by
    rw [GsState.answered, hread]
  rw [hanswered] at hleads
  exact ⟨_, by omega, log, hlog, hleads⟩

theorem events_leads (log : GsOutcome PrintedMeasurement) (asked : List StoreCall)
    (h : range.submarineId.length ≤ 63) :
    ∃ n ≤ 131267, ∃ events,
      AnswerOf eventRecordTlv shownEvent
        (storedEvents dataDir (diskBehind dataDir disk (answer .right 1)) range.submarineId
          range.rangeStart range.rangeEnd) events ∧
      Leads (Network.act (gsSession dataDir disk linkMemory memory range leftRoom rightRoom) answer) n
        (.between { phase := .requestLength .events, log := some log } (.dispatch 1) [] [asked])
        (.between { phase := .close 0, log := some log, events := some events } (.dispatch 2) []
          [asked, answer .right 1]) := by
  obtain ⟨p, m, rest, hsends, hpos, hfits, hrecv, htag, hparse⟩ :=
    @request_of_le memory range .events (linkMemory.storage 1) h
  obtain ⟨r, hr, hexact⟩ := eventsReply dataDir (diskBehind dataDir disk (answer .right 1))
    (linkMemory.stack 1) htag hparse
  obtain ⟨hmessage, hle, events, hevents, hread⟩ := answerOf_exact hexact
  have hleads := @request_leads dataDir disk linkMemory memory range leftRoom rightRoom answer .events
    { phase := .requestLength .events, log := some log } 1 [asked] p rest m r hsends hpos (by omega)
    hrecv htag hr hmessage (by omega)
  have hanswered : GsState.answered memory { phase := .requestLength .events, log := some log }
      (gsSendRaw r.message) .events =
        { phase := .close 0, log := some log, events := some events } := by
    rw [GsState.answered, hread]
  rw [hanswered] at hleads
  exact ⟨_, by omega, events, hevents, hleads⟩

/-- For whatever the two questions are answered, the two programs come to the same kind of end. -/
theorem session_ends (h : range.submarineId.length ≤ 63) :
    ∃ n ≤ 262601, ∃ t,
      Leads (Network.act (gsSession dataDir disk linkMemory memory range leftRoom rightRoom) answer) n
        gsSessionStart t ∧
      Stuck (Network.act (gsSession dataDir disk linkMemory memory range leftRoom rightRoom) answer)
        t ∧
      ¬ t.Lost ∧ SessionEnd dataDir disk range (answer .right 0) (answer .right 1) t := by
  obtain ⟨n, hn, log, hlog, hfirst⟩ :=
    @log_leads dataDir disk linkMemory memory range leftRoom rightRoom answer h
  obtain ⟨n', hn', events, hevents, hsecond⟩ :=
    @events_leads dataDir disk linkMemory memory range leftRoom rightRoom answer log
      (answer .right 0) h
  have hclose := leads_close (gsSession dataDir disk linkMemory memory range leftRoom rightRoom)
    answer [] [answer .right 0, answer .right 1]
    { phase := .close 0, log := some log, events := some events } (.dispatch 2) rfl rfl rfl
  exact ⟨64 + n + n' + 3, by omega, _, ((handshake_leads.trans hfirst).trans hsecond).trans hclose,
    Network.ended_stuck rfl rfl, Network.ended_not_lost, log, events, rfl, hlog, hevents⟩

/-- From any point of a run the session can come to its end, with both answers from what was stored at
    points of it. -/
theorem session_completes (hid : range.submarineId.length ≤ 63) {events : List (Event StoreCall)}
    {sys : System GsState GsLinkState UInt8 StoreCall}
    (h : events.foldlM
      (System.act (gsSession dataDir disk linkMemory memory range leftRoom rightRoom))
      ⟨gsSessionStart, []⟩ = some sys) :
    (events.filterMap Event.party).length ≤ 262601 ∧ ¬ sys.net.Lost ∧
      ∃ (rest : List Party) (t : Network GsState GsLinkState UInt8 (List StoreCall))
        (first second : List StoreCall),
        (rest.map Event.move).foldlM
            (System.act (gsSession dataDir disk linkMemory memory range leftRoom rightRoom)) sys =
          some ⟨t, sys.history⟩ ∧
        first <+: second ∧ second <+: sys.history ∧
        SessionEnd dataDir disk range first second t ∧
        ((∀ p, sys.act (gsSession dataDir disk linkMemory memory range leftRoom rightRoom)
          (.move p) = none) → sys.net = t) := by
  obtain ⟨hbound, hlost, rest, t, hrest, hwitnessed, ⟨first, second, hend⟩, hstuck⟩ :=
    @System.completes _ _ _ _ (gsSession dataDir disk linkMemory memory range leftRoom rightRoom) sys
      262601 gsSessionStart (fun t ↦ ∃ first second, SessionEnd dataDir disk range first second t)
      (fun answer ↦ by
        obtain ⟨n, hn, t, hleads, hstuck, hlost, hend⟩ :=
          @session_ends dataDir disk linkMemory memory range leftRoom rightRoom answer hid
        exact ⟨n, hn, t, hleads, hstuck, hlost, _, _, hend⟩)
      (fun q ↦ by cases q <;> rfl) events [] h
  obtain ⟨hchain, hall⟩ := hwitnessed .right
  have hanswers : t.answers .right = [first, second] := by
    obtain ⟨log, events, rfl, -, -⟩ := hend
    rfl
  dsimp only at hchain hall
  rw [hanswers] at hchain hall
  exact ⟨hbound, hlost, rest, t, first, second, hrest,
    List.rel_of_pairwise_cons hchain List.mem_cons_self,
    hall second (List.mem_cons_of_mem _ List.mem_cons_self), hend, hstuck⟩

end Session

theorem gsPrompts_submarineId_length {parse : Bytes → Option UInt32} {nowTs : UInt32}
    {lines : List Bytes} (h : (gsPromptLine lines).1.length ≤ 63) :
    (gsPrompts parse nowTs lines).submarineId.length ≤ 63 := by
  show (if (gsPromptLine lines).1 = [] then defaultSubmarineId
    else (gsPromptLine lines).1).length ≤ 63
  split_ifs
  · decide
  · exact h

/-- In any order of the steps of both programs, whatever is stored meanwhile, whatever the socket buffers
    hold, and whatever the memory held: the two programs have a bounded number of steps, none of them
    closes with bytes unread or sends to a closed socket, and unless a program can step on both are done,
    with the first request answered from the stores so far and the other one from as many or more. -/
theorem gs_session (dataDir : Text) (disk : Disk) (linkMemory : GsLinkMemory) (memory : GsMemory)
    (leftRoom rightRoom : Nat) (parse : Bytes → Option UInt32) (nowTs : UInt32) (lines : List Bytes)
    (hid : (gsPromptLine lines).1.length ≤ 63) (events : List (Event StoreCall))
    (sys : System GsState GsLinkState UInt8 StoreCall) :
    let range := gsPrompts parse nowTs lines
    let P := gsSession dataDir disk linkMemory memory range leftRoom rightRoom
    events.foldlM (System.act P) ⟨gsSessionStart, []⟩ = some sys →
    (events.filterMap Event.party).length ≤ 262601 ∧ ¬ sys.net.Lost ∧
      ∃ (rest : List Party) (t : Network GsState GsLinkState UInt8 (List StoreCall))
        (first second : List StoreCall),
        (rest.map Event.move).foldlM (System.act P) sys = some ⟨t, sys.history⟩ ∧
          first <+: second ∧ second <+: sys.history ∧
          SessionEnd dataDir disk range first second t ∧
          ((∀ p, sys.act P (.move p) = none) → sys.net = t) := by
  intro range P h
  exact session_completes (gsPrompts_submarineId_length hid) h

def zeroFrame : StackFrame :=
  ⟨fun _ ↦ 0, fun _ ↦ 0, fun _ ↦ 0, fun _ ↦ 0, fun _ ↦ 0, 0, 0, 0, 0⟩

def zeroMemory : GsMemory where
  logFrame := ⟨fun _ ↦ 0, fun _ ↦ 0, 0, fun _ ↦ 0, 0⟩
  eventsFrame := ⟨fun _ ↦ 0, fun _ ↦ 0, 0, fun _ ↦ 0, 0⟩
  logHeap _ := 0
  eventsHeap _ := 0

/-- Sockets of one byte, an operator who enters nothing, and a record that is stored while the greeting is
    on its way. -/
theorem gs_session_interleaved :
    let range := gsPrompts (fun _ ↦ none) 1000000 []
    let P := gsSession ['d'] emptyDisk ⟨fun _ _ ↦ 0, fun _ _ ↦ zeroFrame⟩ zeroMemory
      range 0 0
    let x : StoreCall := ⟨['A'], firstOfMarch, .measurement { timestamp := 5 }⟩
    ∃ sys, [.move .left, .record x, .move .right, .move .left].foldlM (System.act P)
        ⟨gsSessionStart, []⟩ = some sys ∧ ¬ sys.net.Lost ∧
      ∃ (rest : List Party) (t : Network GsState GsLinkState UInt8 (List StoreCall))
        (first second : List StoreCall),
        (rest.map Event.move).foldlM (System.act P) sys = some ⟨t, [x]⟩ ∧
          first <+: second ∧ second <+: [x] ∧
          SessionEnd ['d'] emptyDisk range first second t := by
  intro range P x
  let events : List (Event StoreCall) := [.move .left, .record x, .move .right, .move .left]
  obtain ⟨sys, hsys, hhistory⟩ : ∃ sys, events.foldlM (System.act P) ⟨gsSessionStart, []⟩ = some sys ∧
      sys.history = [x] := ⟨_, rfl, rfl⟩
  obtain ⟨-, hlost, rest, t, first, second, hrest, hfirst, hsecond, hend, -⟩ :=
    gs_session ['d'] emptyDisk ⟨fun _ _ ↦ 0, fun _ _ ↦ zeroFrame⟩ zeroMemory 0 0
      (fun _ ↦ none) 1000000 [] (by decide) events sys hsys
  rw [hhistory] at hrest hsecond
  exact ⟨sys, hsys, hlost, rest, t, first, second, hrest, hfirst, hsecond, hend⟩

end SubmarineMonitor
