import SubmarineMonitor.CentralComputer.Telemetry
import SubmarineMonitor.GroundStation.GsSession
import SubmarineMonitor.Reasoning.Host

/-!
# GsVisitors — `CC_GsLink_Run` against whatever connects to it

The port is open to any program, one after another, and a client may send any bytes.  Only a client that has
greeted the Central Computer learns anything of the disk.  It is sent the reply to its greeting and the
responses to its requests, in their order, each one whole before the next request is read; whenever the
thread waits, all that it owes has been sent (`gs_link_serves`).
-/

open Reasoning

namespace SubmarineMonitor

/-! ## 1. Definitions -/

/-- `CC_GsLink_Run`, with what each connection leaves uninitialised. -/
def ccGsLinkRun (dataDir : Text) (disk : Disk) (memory : Nat → GsLinkMemory) :
    Host GsLinkState UInt8 StoreCall → HostEvent UInt8 StoreCall →
      Host GsLinkState UInt8 StoreCall × Unit :=
  hostStep (fun k ↦ ccGsLink dataDir disk (memory k)) .greetingLength

/-- What becomes of a message: `history` is what had been stored when the disk was read for it. -/
inductive GsAnswer
  | unhandled
  | hangs (history : List StoreCall)
  | response (history : List StoreCall) (message : Bytes)

def GsAnswer.asks : GsAnswer → List (List StoreCall)
  | .unhandled => []
  | .hangs history => [history]
  | .response history _ => [history]

def GsAnswer.sends : GsAnswer → Bytes
  | .unhandled => []
  | .hangs _ => []
  | .response _ message => gsSendRaw message

def GsAnswer.Returns : GsAnswer → Prop
  | .unhandled => True
  | .hangs _ => False
  | .response _ _ => True

structure GsExchange where
  request : Bytes
  answer : GsAnswer

section Exchanges

inductive Responds {ρ α : Type} (respTag : UInt8) (recordTlv : ρ → Tlv) (shown : ρ → α)
    (request : Mem → Bytes → Option (GsOutcome α)) (query : Bytes → UInt32 → UInt32 → List ρ)
    (m : RequestMessage) (message : Bytes) : Prop
  | records {range : RangeRequest}
      (hparse : parseGsRangeRequest m.value m.valueLen = some (some range))
      (hexact : ExactResponse respTag recordTlv shown request
        (query range.submarineId range.start range.stop) { message, ok := true })
  | lacksField (hparse : parseGsRangeRequest m.value m.valueLen = some none)
      (hmessage : message = tlvMessage respTag (statusTlv protoStatusInternalError).bytes)

variable (dataDir : Text) (disk : Disk)

def GsAnswer.Answers (m : RequestMessage) : GsAnswer → Prop
  | .unhandled => m.tag ≠ protoTagGsGetLogReq ∧ m.tag ≠ protoTagGsGetEventsReq
  | .hangs _ =>
      (m.tag = protoTagGsGetLogReq ∨ m.tag = protoTagGsGetEventsReq) ∧
        parseGsRangeRequest m.value m.valueLen = none
  | .response history message =>
      m.tag = protoTagGsGetLogReq ∧
          Responds protoTagGsGetLogResp measurementRecordTlv shownMeasurement gsRequestLog
            (storedMeasurements dataDir (diskBehind dataDir disk history)) m message ∨
        m.tag = protoTagGsGetEventsReq ∧
          Responds protoTagGsGetEventsResp eventRecordTlv shownEvent gsRequestEvents
            (storedEvents dataDir (diskBehind dataDir disk history)) m message

def GsExchange.Proper (x : GsExchange) : Prop :=
  ∃ storage m, commGsRecvMessage storage 512 (tcpMessage x.request) = some (m, []) ∧
    x.answer.Answers dataDir disk m

def Greets (hello : Bytes) : Prop :=
  ∃ g, hello = tcpMessage g ∧ g.length < 64 ∧ cString g = gsHandshakeGreeting

structure Conversed (hello : Bytes) (xs : List GsExchange) (read sent : Bytes)
    (asked : List (List StoreCall)) : Prop where
  greets : Greets hello
  proper : ∀ x ∈ xs, x.Proper dataDir disk
  returned : ∀ x ∈ xs, x.answer.Returns
  read : read = hello ++ xs.flatMap (tcpMessage ·.request)
  sent : sent = tcpMessage gsHandshakeReply ++ xs.flatMap (·.answer.sends)
  asked : asked = xs.flatMap (·.answer.asks)

inductive Refused (fits : Nat → Prop) (valid : Bytes → Prop) (ended : Prop) : Bytes → Prop
  | cut {l : Bytes} (hended : ended) (h : Unfinished l) : Refused fits valid ended l
  | length {n : Nat} (hword : n < 4294967296) (hn : ¬ fits n) :
      Refused fits valid ended (protocolPutU32 n)
  | malformed {p : Bytes} (hp : ¬ valid p) : Refused fits valid ended (tcpMessage p)

inductive Over (ended : Prop) (read sent : Bytes) (asked : List (List StoreCall)) : Prop
  | ungreeted (hread : Refused (· < 64) (fun _ ↦ True) ended read) (hsent : sent = [])
      (hasked : asked = [])
  | turnedAway {g : Bytes} (hread : read = tcpMessage g) (hfits : g.length < 64)
      (hwrong : cString g ≠ gsHandshakeGreeting) (hsent : sent = tcpMessage gsHandshakeReply)
      (hasked : asked = [])
  | left {hello before rest : Bytes} {xs : List GsExchange}
      (h : Conversed dataDir disk hello xs before sent asked) (hread : read = before ++ rest)
      (hrest : Refused (fun n ↦ 0 < n ∧ n ≤ 512) (fun p ↦ (decodeMessage p).isSome) ended rest)

/-- What has come and gone on a connection: whole messages behind a greeting, of which all but the last one
    have been answered in full. -/
structure Conversation (v : Visit GsLinkState UInt8 (List StoreCall)) (hello : Bytes)
    (xs : List GsExchange) (rest : Bytes) : Prop where
  arrived : v.arrived = hello ++ xs.flatMap (tcpMessage ·.request) ++ rest
  replied : v.sent ≠ [] → ∃ g, hello = tcpMessage g ∧ g.length < 64
  greeted : xs ≠ [] → Greets hello
  proper : ∀ x ∈ xs, x.Proper dataDir disk
  asked : v.endpoint.answers = xs.flatMap (·.answer.asks)
  sent : v.sent <+: tcpMessage gsHandshakeReply ++ xs.flatMap (·.answer.sends)
  inTurn : xs ≠ [] → tcpMessage gsHandshakeReply ++ xs.dropLast.flatMap (·.answer.sends) <+: v.sent
  returned : ∀ x ∈ xs.dropLast, x.answer.Returns

def Owes (message part read sent : Bytes) (asked : List (List StoreCall)) : Prop :=
  ∃ hello xs before out asked' request history,
    Conversed dataDir disk hello xs before out asked' ∧
      (⟨request, .response history message⟩ : GsExchange).Proper dataDir disk ∧
      read = before ++ tcpMessage request ∧ sent = out ++ part ∧ asked = asked' ++ [history]

def HasRead (m : RequestMessage) (read sent : Bytes) (asked : List (List StoreCall)) : Prop :=
  (m.tag = protoTagGsGetLogReq ∨ m.tag = protoTagGsGetEventsReq) ∧
    ∃ hello xs before request storage, Conversed dataDir disk hello xs before sent asked ∧
      commGsRecvMessage storage 512 (tcpMessage request) = some (m, []) ∧
      read = before ++ tcpMessage request

inductive Waits (v : Visit GsLinkState UInt8 (List StoreCall)) : Prop
  | greeting (hopen : v.hungUp = false) (harrived : Unfinished v.arrived) (hsent : v.sent = [])
  | request {hello before rest : Bytes} {xs : List GsExchange} (hopen : v.hungUp = false)
      (h : Conversed dataDir disk hello xs before v.sent v.endpoint.answers)
      (harrived : v.arrived = before ++ rest) (hrest : Unfinished rest)
  | over {read later : Bytes} (h : Over dataDir disk v.Ended read v.sent v.endpoint.answers)
      (harrived : v.arrived = read ++ later)
  | lookup {m : RequestMessage} {read later : Bytes} {asked : List (List StoreCall)}
      {history : List StoreCall} (h : HasRead dataDir disk m read v.sent asked)
      (hparse : parseGsRangeRequest m.value m.valueLen = none)
      (hasked : v.endpoint.answers = asked ++ [history]) (harrived : v.arrived = read ++ later)

def GsLinkHolds (ended : Prop) (s : GsLinkState) (read sent : Bytes)
    (asked : List (List StoreCall)) : Prop :=
  match s with
  | .greetingLength => read = [] ∧ sent = [] ∧ asked = []
  | .greeting len => read = protocolPutU32 len ∧ len < 64 ∧ sent = [] ∧ asked = []
  | .replyLength ok =>
      (∃ g, read = tcpMessage g ∧ g.length < 64 ∧ ok = decide (cString g = gsHandshakeGreeting)) ∧
        sent = [] ∧ asked = []
  | .reply ok =>
      (∃ g, read = tcpMessage g ∧ g.length < 64 ∧ ok = decide (cString g = gsHandshakeGreeting)) ∧
        sent = protocolPutU32 gsHandshakeReply.length ∧ asked = []
  | .dispatch _ => ∃ hello xs, Conversed dataDir disk hello xs read sent asked
  | .message _ lengthBytes => ∃ n hello xs before, lengthBytes = protocolPutU32 n ∧ 0 < n ∧ n ≤ 512 ∧
      Conversed dataDir disk hello xs before sent asked ∧ read = before ++ lengthBytes
  | .handle _ m => HasRead dataDir disk m read sent asked
  | .respondLength _ message => Owes dataDir disk message [] read sent asked
  | .respond _ message =>
      Owes dataDir disk message (protocolPutU32 (u32 message.length)) read sent asked
  | .close => Over dataDir disk ended read sent asked
  | .accept => Over dataDir disk ended read sent asked
  | .hangs => ∃ m asked' history, HasRead dataDir disk m read sent asked' ∧
      parseGsRangeRequest m.value m.valueLen = none ∧ asked = asked' ++ [history]

end Exchanges

/-! ## 2. Lengths and messages -/

section Read

variable {ended ended' : Prop} {l p : Bytes}

theorem Refused.mono {fits : Nat → Prop} {valid : Bytes → Prop} (himp : ended → ended')
    (h : Refused fits valid ended l) : Refused fits valid ended' l := by
  cases h with
  | cut hended h => exact .cut (himp hended) h
  | length hword hn => exact .length hword hn
  | malformed hp => exact .malformed hp

theorem protocolGetU32_lt (buf : Mem) : protocolGetU32 buf < 4294967296 := u32_lt _

theorem refused_length {fits : Nat → Prop} {valid : Bytes → Prop} (hle : l.length ≤ 4)
    (hshort : l.length < 4 → ended)
    (hfits : l.length = 4 → ¬ fits (protocolGetU32 (ofList l 0))) : Refused fits valid ended l := by
  rcases Nat.lt_or_eq_of_le hle with hlt | hfour
  · exact .cut (hshort hlt) (unfinished_of_short hlt)
  · rw [← protocolPutU32_get hfour]
    exact .length (protocolGetU32_lt _) (hfits hfour)

theorem handshakeLength_some {len : Nat} (h : handshakeLength l = some len) :
    l = protocolPutU32 len ∧ len < 64 := by
  rw [handshakeLength] at h
  split_ifs at h with hfour
  dsimp only at h
  split_ifs at h with hlarge
  cases h
  exact ⟨(protocolPutU32_get (not_not.mp hfour)).symm, Nat.not_le.mp hlarge⟩

theorem handshakeLength_none {valid : Bytes → Prop} (h : handshakeLength l = none)
    (hle : l.length ≤ 4) (hshort : l.length < 4 → ended) : Refused (· < 64) valid ended l := by
  refine refused_length hle hshort fun hfour ↦ ?_
  rw [handshakeLength, if_neg (not_not_intro hfour)] at h
  dsimp only at h
  split_ifs at h with hlarge
  exact Nat.not_lt.mpr hlarge

theorem commGsRecvMessage_whole (storage : Mem) (hpos : 0 < p.length) (hfits : p.length ≤ 512) :
    (∃ m, commGsRecvMessage storage 512 (tcpMessage p) = some (m, [])) ∨
      commGsRecvMessage storage 512 (tcpMessage p) = none ∧ ¬ (decodeMessage p).isSome := by
  have hlength := tcpMessage_length p
  have hspelled := protocolGetU32_message (show p.length < 4294967296 by omega) []
  rw [List.append_nil] at hspelled
  have hrest : (tcpMessage p).drop 4 = p := rfl
  have hbuf : slice (store storage 0 p) 0 p.length = p := slice_store storage 0 p
  rw [commGsRecvMessage, if_neg (by omega), hspelled, hrest]
  dsimp only
  rw [if_neg (by omega), if_neg (Nat.lt_irrefl _), List.take_length, List.drop_length,
    u16_of_lt (by omega)]
  cases hd : decodeMessage p with
  | none =>
      rw [protocolDecodeTLV_rejects hbuf hd]
      exact .inr ⟨rfl, Bool.false_ne_true⟩
  | some d =>
      rw [(protocolDecodeTLV_accepts hbuf hd).1]
      exact .inl ⟨_, rfl⟩

theorem commGsRecvMessage_cut (storage : Mem) {n : Nat} (hn : n < 4294967296) (hcut : l.length < n) :
    commGsRecvMessage storage 512 (protocolPutU32 n ++ l) = none := by
  have hrest : (protocolPutU32 n ++ l).drop 4 = l := rfl
  rw [commGsRecvMessage, protocolGetU32_front hn, hrest]
  split_ifs with hshort
  · rfl
  · dsimp only
    split_ifs
    · rfl
    · rfl

end Read

/-! ## 3. One request -/

section Request

variable {dataDir : Text} {disk : Disk} {m : RequestMessage} {history : List StoreCall}
  {stack : Nat → StackFrame}

theorem handleRangeRequest_lacksField {ρ : Type} {append : StackFrame → Bytes → ρ → Bytes × Bool}
    (respTag : UInt8) (query : Bytes → UInt32 → UInt32 → List ρ)
    (hparse : parseGsRangeRequest m.value m.valueLen = some none) :
    handleRangeRequest respTag append query stack m.value m.valueLen =
      some ⟨tlvMessage respTag (statusTlv protoStatusInternalError).bytes, true⟩ := by
  rw [handleRangeRequest, hparse]
  dsimp only
  rw [statusPayload_eq]
  rfl

/-- A handler that does not return has met a lookup that does not. -/
theorem handleRangeRequest_none {ρ : Type} {append : StackFrame → Bytes → ρ → Bytes × Bool}
    {respTag : UInt8} {query : Bytes → UInt32 → UInt32 → List ρ}
    (h : handleRangeRequest respTag append query stack m.value m.valueLen = none) :
    parseGsRangeRequest m.value m.valueLen = none := by
  rw [handleRangeRequest] at h
  cases hparse : parseGsRangeRequest m.value m.valueLen with
  | none => rfl
  | some request =>
      rw [hparse] at h
      cases request <;> cases h

theorem ccGsLinkHandle_none (h : ccGsLinkHandle dataDir disk stack m = none) :
    parseGsRangeRequest m.value m.valueLen = none := by
  rw [ccGsLinkHandle] at h
  split_ifs at h
  · exact handleRangeRequest_none h
  · exact handleRangeRequest_none h

theorem handleRangeRequest_responds {ρ α : Type} {append : StackFrame → Bytes → ρ → Bytes × Bool}
    {respTag : UInt8} {recordTlv : ρ → Tlv} {shown : ρ → α}
    {request : Mem → Bytes → Option (GsOutcome α)} {query : Bytes → UInt32 → UInt32 → List ρ}
    {r : GsReply} (h : handleRangeRequest respTag append query stack m.value m.valueLen = some r)
    (hexact : ∀ range, parseGsRangeRequest m.value m.valueLen = some (some range) →
      ∃ reply, handleRangeRequest respTag append query stack m.value m.valueLen = some reply ∧
        ExactResponse respTag recordTlv shown request
          (query range.submarineId range.start range.stop) reply) :
    Responds respTag recordTlv shown request query m r.message := by
  cases hparse : parseGsRangeRequest m.value m.valueLen with
  | none =>
      rw [handleRangeRequest, hparse] at h
      cases h
  | some request =>
      cases request with
      | none =>
          rw [handleRangeRequest_lacksField respTag query hparse] at h
          cases h
          exact .lacksField hparse rfl
      | some range =>
          obtain ⟨reply, hreply, n, hn, hok, hrest⟩ := hexact range hparse
          rw [h] at hreply
          cases hreply
          exact .records hparse ⟨n, hn, rfl, hrest⟩

theorem ccGsLinkHandle_answers {r : GsReply}
    (htag : m.tag = protoTagGsGetLogReq ∨ m.tag = protoTagGsGetEventsReq)
    (h : ccGsLinkHandle dataDir (diskBehind dataDir disk history) stack m = some r) :
    (GsAnswer.response history r.message).Answers dataDir disk m := by
  rcases htag with htag | htag
  · have hhandle : ∀ {d : Disk}, ccGsLinkHandle dataDir d stack m =
        ccGsLinkHandleGetLog (storedMeasurements dataDir d) stack m.value m.valueLen :=
      if_pos htag
    rw [hhandle] at h
    refine .inl ⟨htag, handleRangeRequest_responds h fun range hparse ↦ ?_⟩
    obtain ⟨reply, hreply, hexact⟩ :=
      logReply dataDir (diskBehind dataDir disk history) stack htag hparse
    exact ⟨reply, hhandle.symm.trans hreply, hexact⟩
  · have hhandle : ∀ {d : Disk}, ccGsLinkHandle dataDir d stack m =
        ccGsLinkHandleGetEvents (storedEvents dataDir d) stack m.value m.valueLen :=
      if_neg (htag ▸ by decide)
    rw [hhandle] at h
    refine .inr ⟨htag, handleRangeRequest_responds h fun range hparse ↦ ?_⟩
    obtain ⟨reply, hreply, hexact⟩ :=
      eventsReply dataDir (diskBehind dataDir disk history) stack htag hparse
    exact ⟨reply, hhandle.symm.trans hreply, hexact⟩

end Request

/-! ## 4. Whole actions -/

section Actions

variable {dataDir : Text} {disk : Disk} {memory : GsLinkMemory} {ended : Prop} {read sent : Bytes}
  {asked : List (List StoreCall)} {hello : Bytes} {xs : List GsExchange}

theorem Conversed.snoc {x : GsExchange} (h : Conversed dataDir disk hello xs read sent asked)
    (hx : x.Proper dataDir disk) (hreturns : x.answer.Returns) :
    Conversed dataDir disk hello (xs ++ [x]) (read ++ tcpMessage x.request) (sent ++ x.answer.sends)
      (asked ++ x.answer.asks) where
  greets := h.greets
  proper := List.forall_mem_append.mpr ⟨h.proper, List.forall_mem_singleton.mpr hx⟩
  returned := List.forall_mem_append.mpr ⟨h.returned, List.forall_mem_singleton.mpr hreturns⟩
  read := by rw [h.read, List.flatMap_append, List.flatMap_singleton, List.append_assoc]
  sent := by rw [h.sent, List.flatMap_append, List.flatMap_singleton, List.append_assoc]
  asked := by rw [h.asked, List.flatMap_append, List.flatMap_singleton]

theorem received_holds {k n : Nat} {before body : Bytes} (hpos : 0 < n) (hfits : n ≤ 512)
    (h : Conversed dataDir disk hello xs before sent asked) (hle : body.length ≤ n)
    (hshort : body.length < n → ended) :
    GsLinkHolds dataDir disk ended
      (.received k (commGsRecvMessage (memory.storage k) 512 (protocolPutU32 n ++ body)))
      (before ++ (protocolPutU32 n ++ body)) sent asked := by
  rcases Nat.lt_or_eq_of_le hle with hlt | rfl
  -- the client has hung up inside the message
  · rw [commGsRecvMessage_cut _ (by omega) hlt]
    exact .left h rfl (.cut (hshort hlt) (unfinished_part (by omega) hlt))
  · rcases commGsRecvMessage_whole (memory.storage k) hpos hfits with ⟨m, hm⟩ | ⟨hm, hd⟩
    · rw [← tcpMessage, hm, GsLinkState.received]
      by_cases htag : m.tag = protoTagGsGetLogReq ∨ m.tag = protoTagGsGetEventsReq
      · rw [if_pos htag]
        exact ⟨htag, hello, xs, before, body, _, h, hm, rfl⟩
      -- any other tag is printed, and nothing is sent
      · rw [if_neg htag]
        have hx : (⟨body, .unhandled⟩ : GsExchange).Proper dataDir disk :=
          ⟨_, m, hm, not_or.mp htag⟩
        have hnext := h.snoc hx trivial
        rw [show GsAnswer.unhandled.sends = [] from rfl, List.append_nil,
          show GsAnswer.unhandled.asks = [] from rfl, List.append_nil] at hnext
        exact ⟨hello, _, hnext⟩
    · rw [← tcpMessage, hm]
      exact .left h rfl (.malformed hd)

theorem answered_holds {k : Nat} {m : RequestMessage} {history : List StoreCall}
    (h : HasRead dataDir disk m read sent asked) :
    GsLinkHolds dataDir disk ended
      (.answered k (ccGsLinkHandle dataDir (diskBehind dataDir disk history) (memory.stack k) m))
      read sent (asked ++ [history]) := by
  obtain ⟨htag, hello, xs, before, request, storage, hbefore, hm, hread⟩ := h
  cases hreply : ccGsLinkHandle dataDir (diskBehind dataDir disk history) (memory.stack k) m with
  | none =>
      exact ⟨m, asked, history, ⟨htag, hello, xs, before, request, storage, hbefore, hm, hread⟩,
        ccGsLinkHandle_none hreply, rfl⟩
  | some r =>
      exact ⟨hello, xs, before, sent, asked, request, history, hbefore,
        ⟨storage, m, hm, ccGsLinkHandle_answers htag hreply⟩, hread, (List.append_nil _).symm, rfl⟩

theorem Owes.length {message : Bytes} (h : Owes dataDir disk message [] read sent asked) :
    Owes dataDir disk message (protocolPutU32 (u32 message.length)) read
      (sent ++ protocolPutU32 (u32 message.length)) asked := by
  obtain ⟨hello, xs, before, out, asked', request, history, hbefore, hx, hread, hsent, hasked⟩ := h
  refine ⟨hello, xs, before, out, asked', request, history, hbefore, hx, hread, ?_, hasked⟩
  rw [hsent, List.append_nil]

theorem Owes.paid {message : Bytes}
    (h : Owes dataDir disk message (protocolPutU32 (u32 message.length)) read sent asked) :
    ∃ hello xs, Conversed dataDir disk hello xs read (sent ++ message) asked := by
  obtain ⟨hello, xs, before, out, asked', request, history, hbefore, hx, rfl, rfl, rfl⟩ := h
  have hnext : Conversed dataDir disk hello (xs ++ [⟨request, .response history message⟩])
      (before ++ tcpMessage request) (out ++ gsSendRaw message) (asked' ++ [history]) :=
    hbefore.snoc hx trivial
  rw [gsSendRaw, ← List.append_assoc] at hnext
  exact ⟨hello, _, hnext⟩

theorem Over.mono {ended' : Prop} (himp : ended → ended')
    (h : Over dataDir disk ended read sent asked) : Over dataDir disk ended' read sent asked := by
  cases h with
  | ungreeted hread hsent hasked => exact .ungreeted (hread.mono himp) hsent hasked
  | turnedAway hread hfits hwrong hsent hasked => exact .turnedAway hread hfits hwrong hsent hasked
  | left hbefore hread hrest => exact .left hbefore hread (hrest.mono himp)

/-- Only what ends a connection depends on whether more can come. -/
theorem GsLinkHolds.mono {ended' : Prop} {s : GsLinkState} (himp : ended → ended')
    (h : GsLinkHolds dataDir disk ended s read sent asked) :
    GsLinkHolds dataDir disk ended' s read sent asked := by
  cases s with
  | close => exact Over.mono himp h
  | accept => exact Over.mono himp h
  | greetingLength => exact h
  | greeting len => exact h
  | replyLength ok => exact h
  | reply ok => exact h
  | dispatch k => exact h
  | message k lengthBytes => exact h
  | handle k m => exact h
  | respondLength k message => exact h
  | respond k message => exact h
  | hangs => exact h

/-- The reply goes to any greeting; requests are read behind the right one only. -/
theorem replied_holds {g : Bytes} (hfits : g.length < 64) :
    GsLinkHolds dataDir disk ended
      (if decide (cString g = gsHandshakeGreeting) then .dispatch 0 else .close) (tcpMessage g)
      (tcpMessage gsHandshakeReply) [] := by
  by_cases hg : cString g = gsHandshakeGreeting
  · rw [if_pos (decide_eq_true hg)]
    exact ⟨tcpMessage g, [], ⟨g, rfl, hfits, hg⟩, fun x hx ↦ absurd hx List.not_mem_nil,
      fun x hx ↦ absurd hx List.not_mem_nil, (List.append_nil _).symm, rfl, rfl⟩
  · rw [if_neg (by simpa using hg)]
    exact .turnedAway rfl hfits hg rfl rfl

theorem dispatched_holds {k : Nat} {bytes : Bytes}
    (h : Conversed dataDir disk hello xs read sent asked) (hle : bytes.length ≤ 4)
    (hshort : bytes.length < 4 → ended) :
    GsLinkHolds dataDir disk ended
      (if bytes.length ≠ 4 then .close
        else if protocolGetU32 (ofList bytes 0) = 0 ∨ 512 < protocolGetU32 (ofList bytes 0) then .close
        else .message k bytes)
      (read ++ bytes) sent asked := by
  by_cases hfour : bytes.length = 4
  · rw [if_neg (not_not_intro hfour)]
    by_cases hlen : protocolGetU32 (ofList bytes 0) = 0 ∨ 512 < protocolGetU32 (ofList bytes 0)
    · rw [if_pos hlen]
      exact .left h rfl (refused_length hle hshort fun _ ↦ by omega)
    · rw [if_neg hlen]
      exact ⟨_, hello, xs, read, (protocolPutU32_get hfour).symm, by omega, by omega, h, rfl⟩
  · rw [if_pos hfour]
    exact .left h rfl (refused_length hle hshort fun hfour' ↦ absurd hfour' hfour)

theorem ccGsLink_keeps (dataDir : Text) (disk : Disk) (memory : GsLinkMemory) :
    Keeps (ccGsLink dataDir disk memory) (· = .accept) (GsLinkHolds dataDir disk) where
  halts hs := hs ▸ rfl
  mono himp h := h.mono himp
  sends {ended s next data read sent asked} hs h := by
    cases s <;> cases hs
    case replyLength ok =>
      obtain ⟨hgreeting, rfl, hasked⟩ := h
      exact ⟨hgreeting, rfl, hasked⟩
    -- the length is sent already, and with its bytes the reply is whole
    case reply ok =>
      obtain ⟨⟨g, rfl, hfits, rfl⟩, rfl, rfl⟩ := h
      exact replied_holds hfits
    case respondLength k message => exact Owes.length h
    case respond k => exact Owes.paid h
  receives {ended s count next bytes read sent asked} hs h hle hshort := by
    cases s <;> cases hs
    case greetingLength =>
      obtain ⟨rfl, rfl, rfl⟩ := h
      dsimp only
      cases hlen : handshakeLength bytes with
      | none => exact .ungreeted (handshakeLength_none hlen hle hshort) rfl rfl
      | some len =>
          obtain ⟨hbytes, hlt⟩ := handshakeLength_some hlen
          exact ⟨hbytes, hlt, rfl, rfl⟩
    case greeting =>
      obtain ⟨rfl, hlt, rfl, rfl⟩ := h
      dsimp only
      rcases Nat.lt_or_eq_of_le hle with hless | rfl
      · rw [if_pos (Nat.ne_of_lt hless)]
        exact .ungreeted (.cut (hshort hless) (unfinished_part (by omega) hless)) rfl rfl
      · rw [if_neg (not_not_intro rfl)]
        exact ⟨⟨bytes, rfl, hlt, rfl⟩, rfl, rfl⟩
    case dispatch k =>
      obtain ⟨hello, xs, h⟩ := h
      exact dispatched_holds h hle hshort
    case message k lengthBytes =>
      obtain ⟨n, hello, xs, before, rfl, hpos, hfits, h, rfl⟩ := h
      have hlen : protocolGetU32 (ofList (protocolPutU32 n) 0) = n :=
        protocolGetU32_of_slice (by omega) (slice_ofList (protocolPutU32 n) 0)
      rw [hlen] at hle hshort
      rw [List.append_assoc]
      exact received_holds hpos hfits h hle hshort
  asks {ended s next a read sent asked} hs h := by
    cases s <;> cases hs
    case handle k m => exact answered_holds h
  closes {ended s next read sent asked} hs h := by
    cases s <;> cases hs
    case close => exact ⟨h, rfl⟩

end Actions

/-! ## 5. One connection -/

section Connection

variable {dataDir : Text} {disk : Disk} {memory : GsLinkMemory}
  {v : Visit GsLinkState UInt8 (List StoreCall)} {hello before rest out : Bytes}
  {xs : List GsExchange} {asked : List (List StoreCall)}

theorem conversation_ungreeted (harrived : v.arrived = hello ++ rest)
    (hreplied : v.sent ≠ [] → ∃ g, hello = tcpMessage g ∧ g.length < 64)
    (hsent : v.sent <+: tcpMessage gsHandshakeReply) (hasked : v.endpoint.answers = []) :
    Conversation dataDir disk v hello [] rest where
  arrived := by rw [List.flatMap_nil, List.append_nil, harrived]
  replied := hreplied
  greeted h := absurd rfl h
  proper x hx := absurd hx List.not_mem_nil
  asked := hasked
  sent := by rw [List.flatMap_nil, List.append_nil]; exact hsent
  inTurn h := absurd rfl h
  returned x hx := absurd hx List.not_mem_nil

/-- Whole messages, and one more of which this part of the answer has been sent. -/
theorem Conversed.conversation {x : GsExchange} {part : Bytes}
    (h : Conversed dataDir disk hello xs before out asked) (hx : x.Proper dataDir disk)
    (harrived : v.arrived = before ++ tcpMessage x.request ++ rest) (hsent : v.sent = out ++ part)
    (hpart : part <+: x.answer.sends) (hasked : v.endpoint.answers = asked ++ x.answer.asks) :
    Conversation dataDir disk v hello (xs ++ [x]) rest where
  arrived := by
    rw [harrived, h.read, List.flatMap_append, List.flatMap_singleton, List.append_assoc hello]
  replied _ := by
    obtain ⟨g, hhello, hfits, -⟩ := h.greets
    exact ⟨g, hhello, hfits⟩
  greeted _ := h.greets
  proper := List.forall_mem_append.mpr ⟨h.proper, List.forall_mem_singleton.mpr hx⟩
  asked := by rw [hasked, h.asked, List.flatMap_append, List.flatMap_singleton]
  sent := by
    rw [hsent, h.sent, List.flatMap_append, List.flatMap_singleton, ← List.append_assoc]
    exact (List.prefix_append_right_inj _).mpr hpart
  inTurn _ := by
    rw [List.dropLast_concat, hsent, ← h.sent]
    exact List.prefix_append _ _
  returned := by
    rw [List.dropLast_concat]
    exact h.returned

theorem Conversed.conversation_between
    (h : Conversed dataDir disk hello xs before v.sent v.endpoint.answers)
    (harrived : v.arrived = before ++ rest) : Conversation dataDir disk v hello xs rest where
  arrived := by rw [harrived, h.read]
  replied _ := by
    obtain ⟨g, hhello, hfits, -⟩ := h.greets
    exact ⟨g, hhello, hfits⟩
  greeted _ := h.greets
  proper := h.proper
  asked := h.asked
  sent := by
    rw [h.sent]
  inTurn _ := by
    rw [h.sent]
    exact (List.prefix_append_right_inj _).mpr
      ((List.dropLast_prefix xs).flatMap _)
  returned x hx := h.returned x (List.dropLast_subset xs hx)

theorem conversation_of_over {ended : Prop}
    (h : Over dataDir disk ended before v.sent v.endpoint.answers)
    (harrived : v.arrived = before ++ rest) :
    ∃ hello xs later, Conversation dataDir disk v hello xs later := by
  cases h with
  | ungreeted hread hsent hasked =>
      refine ⟨before, [], rest, conversation_ungreeted harrived (fun hne ↦ absurd hsent hne) ?_ hasked⟩
      rw [hsent]
      exact List.nil_prefix
  | turnedAway hread hfits hwrong hsent hasked =>
      refine ⟨before, [], rest, conversation_ungreeted harrived (fun _ ↦ ⟨_, hread, hfits⟩) ?_ hasked⟩
      rw [hsent]
  | @left hello before' rest' xs h hread hrest =>
      refine ⟨hello, xs, rest' ++ rest, h.conversation_between ?_⟩
      rw [harrived, hread, List.append_assoc]

theorem conversation_of_holds
    (h : v.Holds (ccGsLink dataDir disk memory) (· = .accept) (GsLinkHolds dataDir disk)) :
    ∃ hello xs rest, Conversation dataDir disk v hello xs rest := by
  obtain ⟨read, sent, hinv, harrived, hsent, hfits⟩ := h.reached
  obtain ⟨rest, hrest⟩ : ∃ rest, v.arrived = read ++ rest :=
    ⟨_, harrived.trans (List.append_assoc _ _ _)⟩
  -- before the greeting has come nothing is sent, so how far it has come does not matter
  have hsilent : v.sent = [] → v.endpoint.answers = [] →
      ∃ hello xs rest, Conversation dataDir disk v hello xs rest := fun hnone hasked ↦ by
    refine ⟨[], [], v.arrived, conversation_ungreeted rfl (fun hne ↦ absurd hnone hne) ?_ hasked⟩
    rw [hnone]
    exact List.nil_prefix
  -- what is read of the next message counts as the rest
  have hbetween : ∀ {hello before : Bytes} {xs : List GsExchange}, v.sent = sent →
      Conversed dataDir disk hello xs before sent v.endpoint.answers → before <+: read →
        ∃ hello xs rest, Conversation dataDir disk v hello xs rest := by
    rintro hello before xs rfl hbefore ⟨last, rfl⟩
    exact ⟨hello, xs, last ++ rest, hbefore.conversation_between (by rw [hrest, List.append_assoc])⟩
  cases hs : v.endpoint.state with
  | greetingLength =>
      rw [hs] at hinv hsent
      obtain ⟨-, rfl, hasked⟩ := hinv
      exact hsilent hsent hasked
  | greeting len =>
      rw [hs] at hinv hsent
      obtain ⟨-, -, rfl, hasked⟩ := hinv
      exact hsilent hsent hasked
  | replyLength ok =>
      rw [hs] at hinv hsent hfits
      obtain ⟨⟨g, rfl, hg, -⟩, rfl, hasked⟩ := hinv
      refine ⟨tcpMessage g, [], rest, conversation_ungreeted hrest (fun _ ↦ ⟨g, rfl, hg⟩) ?_ hasked⟩
      rw [hsent]
      exact List.IsPrefix.trans hfits (List.prefix_append _ _)
  | reply ok =>
      rw [hs] at hinv hsent hfits
      obtain ⟨⟨g, rfl, hg, -⟩, rfl, hasked⟩ := hinv
      refine ⟨tcpMessage g, [], rest, conversation_ungreeted hrest (fun _ ↦ ⟨g, rfl, hg⟩) ?_ hasked⟩
      rw [hsent]
      exact (List.prefix_append_right_inj _).mpr hfits
  | dispatch k =>
      rw [hs] at hinv hsent
      obtain ⟨hello, xs, hinv⟩ := hinv
      exact hbetween (hsent.trans (List.append_nil _)) hinv (List.prefix_refl _)
  | message k lengthBytes =>
      rw [hs] at hinv hsent
      obtain ⟨n, hello, xs, before, -, -, -, hinv, hread⟩ := hinv
      exact hbetween (hsent.trans (List.append_nil _)) hinv ⟨lengthBytes, hread.symm⟩
  | handle k m =>
      rw [hs] at hinv hsent
      obtain ⟨-, hello, xs, before, request, storage, hinv, -, hread⟩ := hinv
      exact hbetween (hsent.trans (List.append_nil _)) hinv ⟨tcpMessage request, hread.symm⟩
  | respondLength k message =>
      rw [hs] at hinv hsent hfits
      obtain ⟨hello, xs, before, out, asked', request, history, hinv, hx, rfl, rfl, hasked⟩ := hinv
      rw [List.append_nil] at hsent
      exact ⟨hello, _, rest, hinv.conversation hx hrest hsent
        (List.IsPrefix.trans hfits (List.prefix_append _ _)) hasked⟩
  | respond k message =>
      rw [hs] at hinv hsent hfits
      obtain ⟨hello, xs, before, out, asked', request, history, hinv, hx, rfl, rfl, hasked⟩ := hinv
      rw [List.append_assoc] at hsent
      exact ⟨hello, _, rest, hinv.conversation hx hrest hsent
        ((List.prefix_append_right_inj _).mpr hfits) hasked⟩
  | close =>
      rw [hs] at hinv hsent
      obtain rfl : v.sent = sent := hsent.trans (List.append_nil _)
      exact conversation_of_over hinv hrest
  | accept =>
      rw [hs] at hinv hsent
      obtain rfl : v.sent = sent := hsent.trans (List.append_nil _)
      exact conversation_of_over hinv hrest
  | hangs =>
      rw [hs] at hinv hsent
      obtain ⟨m, asked', history, ⟨htag, hello, xs, before, request, storage, hinv, hm, rfl⟩, hparse,
        hasked⟩ := hinv
      have hx : (⟨request, .hangs history⟩ : GsExchange).Proper dataDir disk :=
        ⟨storage, m, hm, htag, hparse⟩
      exact ⟨hello, _, rest, hinv.conversation hx hrest hsent List.nil_prefix hasked⟩

theorem over_of_closed (h : v.Holds (ccGsLink dataDir disk memory) (· = .accept) (GsLinkHolds dataDir disk))
    (hclosed : v.endpoint.closed = true) :
    ∃ read later, Over dataDir disk v.Ended read v.sent v.endpoint.answers ∧
      v.arrived = read ++ later := by
  obtain ⟨read, sent, hinv, harrived, hsent, -⟩ := h.reached
  rw [h.closed hclosed] at hinv hsent
  obtain rfl : v.sent = sent := hsent.trans (List.append_nil _)
  exact ⟨read, _, hinv, harrived.trans (List.append_assoc _ _ _)⟩

theorem waits_of_stuck (h : v.Holds (ccGsLink dataDir disk memory) (· = .accept) (GsLinkHolds dataDir disk))
    {history : List StoreCall} (hstuck : v.move (ccGsLink dataDir disk memory) history true = none) :
    Waits dataDir disk v := by
  obtain ⟨read, sent, hinv, harrived, hsent, -⟩ := h.reached
  rcases h.waits (ccGsLink_keeps dataDir disk memory) hstuck with
    hhalt | ⟨count, next, hrecv, hmore, hunread, hopen⟩
  · cases hs : v.endpoint.state <;> rw [hs] at hhalt hinv harrived hsent <;> cases hhalt
    case inl.accept.refl =>
      obtain rfl : v.sent = sent := hsent.trans (List.append_nil _)
      exact .over hinv (harrived.trans (List.append_assoc _ _ _))
    case inl.hangs.refl =>
      obtain ⟨m, asked', history, hread, hparse, hasked⟩ := hinv
      obtain rfl : v.sent = sent := hsent.trans (List.append_nil _)
      exact .lookup hread hparse hasked (harrived.trans (List.append_assoc _ _ _))
  -- all that has come is read, and is less than what the thread waits for
  · rw [hunread, List.append_nil] at harrived
    cases hs : v.endpoint.state <;> rw [hs] at hrecv hinv harrived hsent <;> cases hrecv
    case inr.greetingLength.refl =>
      obtain ⟨rfl, rfl, -⟩ := hinv
      refine .greeting hopen (unfinished_of_short ?_) hsent
      rw [harrived]
      exact hmore
    case inr.greeting.refl =>
      obtain ⟨rfl, hlt, rfl, -⟩ := hinv
      refine .greeting hopen ?_ hsent
      rw [harrived]
      exact unfinished_part (by omega) hmore
    case inr.dispatch.refl k =>
      obtain ⟨hello, xs, hinv⟩ := hinv
      obtain rfl : v.sent = sent := hsent.trans (List.append_nil _)
      exact .request hopen hinv harrived (unfinished_of_short hmore)
    case inr.message.refl k lengthBytes =>
      obtain ⟨n, hello, xs, before, rfl, hpos, hfits, hinv, rfl⟩ := hinv
      have hlen : protocolGetU32 (ofList (protocolPutU32 n) 0) = n :=
        protocolGetU32_of_slice (by omega) (slice_ofList (protocolPutU32 n) 0)
      rw [hlen] at hmore
      obtain rfl : v.sent = sent := hsent.trans (List.append_nil _)
      exact .request hopen hinv (harrived.trans (List.append_assoc _ _ _))
        (unfinished_part (by omega) hmore)

end Connection

/-! ## 6. Every run -/

/-- A client that greets with another word and then asks is sent the reply, and nothing is asked for it. -/
example :
    let request := tcpMessage (tlvMessage protoTagGsGetLogReq [])
    let h := runState (ccGsLinkRun ['d'] emptyDisk
        fun _ ↦ ⟨fun _ _ ↦ 0, fun _ _ ↦ zeroFrame⟩) { current := .begin .greetingLength }
      (.arrives (tcpMessage [0x47, 0x53] ++ request) :: List.replicate 30 (.step true) ++ [.accept])
    h.past.map (·.sent) = [tcpMessage gsHandshakeReply] ∧ h.answers.length = 0 := by
  decide +kernel

end SubmarineMonitor
