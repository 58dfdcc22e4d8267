import SubmarineMonitor.CentralComputer.Reconnects

/-!
# ClockSync — what `main.cpp` sends on each connection

On every connection, also behind a reconnect, the clock of the LNC is read, set and read again, as far as
the replies allow it.  Telemetry between the replies and a connection that drops change nothing in that:
what is sent depends on the replies alone, until SIGPIPE ends the process (`every_connection_syncs`).
-/

open Reasoning

namespace SubmarineMonitor

/-! ## 1. Definitions -/

def repliesIn (msgs : List Bytes) : List DecodedMessage :=
  msgs.filterMap fun m ↦ (decodeMessage m).filter fun d ↦ ¬ d.IsTelemetry

def DecodedMessage.Answers (d : DecodedMessage) (respTag : UInt8) (minLen : Nat) : Prop :=
  d.tag = respTag ∧ minLen ≤ d.len

instance (d : DecodedMessage) (respTag : UInt8) (minLen : Nat) : Decidable (d.Answers respTag minLen) :=
  inferInstanceAs (Decidable (_ ∧ _))

def getTimeRequest : Bytes := tcpMessage (tlvMessage protoTagGetTimeReq [])

def setRtcRequest (newTime : UInt32) : Bytes :=
  tcpMessage (tlvMessage protoTagSetRtcReq (protocolPutU32 newTime.toNat))

def DecodedMessage.Acks (d : DecodedMessage) : Prop :=
  d.Answers protoTagConfigAck 1 ∧ getU8 (ofList d.value 0) = protoStatusSuccess

instance (d : DecodedMessage) : Decidable d.Acks := inferInstanceAs (Decidable (_ ∧ _))

/-- What is sent behind SET_RTC_REQ with these replies, and what is sent in all. -/
def confirmRequests : List DecodedMessage → List Bytes
  | [] => []
  | ack :: _ => if ack.Acks then [getTimeRequest] else []

def syncRequests (newTime : UInt32) : List DecodedMessage → List Bytes
  | [] => [getTimeRequest]
  | time :: replies =>
      if time.Answers protoTagGetTimeResp 4 then
        getTimeRequest :: setRtcRequest newTime :: confirmRequests replies
      else [getTimeRequest]

/-- `synced`: the three commands succeed, and the clock reads what it was set to, or up to two seconds
    more. -/
def clockSynced (newTime : UInt32) (frames : Nat → CommandFrame) (link : LncLink) : Bool :=
  let initial := ccCoreGetTime (frames 0) link
  match initial.result with
  | some (some _) =>
      let set := ccCoreSetRtc newTime (frames 1) initial.received.link
      if set.result = some (some protoStatusSuccess) then
        let confirmed := ccCoreGetTime (frames 2) set.received.link
        match confirmed.result with
        | some (some time) => decide (newTime ≤ time ∧ time ≤ newTime + 2)
        | _ => false
      else false
  | _ => false

/-- The replies confirm the time that was set: the third one of them, behind an acknowledgement, behind a
    first time. -/
def ConfirmsTime (newTime : UInt32) : List DecodedMessage → Prop
  | [] => False
  | time :: _ =>
      time.Answers protoTagGetTimeResp 4 ∧ newTime ≤ getU32 (ofList time.value 0) ∧
        getU32 (ofList time.value 0) ≤ newTime + 2

def ConfirmsSet (newTime : UInt32) : List DecodedMessage → Prop
  | [] => False
  | ack :: replies => ack.Acks ∧ ConfirmsTime newTime replies

def Confirms (newTime : UInt32) : List DecodedMessage → Prop
  | [] => False
  | time :: replies => time.Answers protoTagGetTimeResp 4 ∧ ConfirmsSet newTime replies

def CompleteReplies (msgs : List Bytes) : Prop := ∀ d ∈ repliesIn msgs, d.len ≤ d.rest.length

/-! ## 2. The first reply -/

theorem repliesIn_front {front : List Bytes} (h : ∀ x ∈ front, ¬ IsReply x) (msgs : List Bytes) :
    repliesIn (front ++ msgs) = repliesIn msgs := by
  have hnone : front.filterMap (fun m ↦ (decodeMessage m).filter fun d ↦ ¬ d.IsTelemetry) = [] := by
    rw [List.filterMap_eq_nil_iff]
    intro m hm
    cases hd : decodeMessage m with
    | none => rfl
    | some d =>
        have ht : d.IsTelemetry := by
          by_contra hother
          exact h m hm ⟨d, hd, hother⟩
        exact Option.filter_eq_none_iff.mpr fun d' hd' ↦ by
          cases hd'
          exact fun hnot ↦ of_decide_eq_true hnot ht
  rw [repliesIn, List.filterMap_append, hnone, List.nil_append]
  rfl

theorem repliesIn_reply {m : Bytes} {d : DecodedMessage} (hd : decodeMessage m = some d)
    (ht : ¬ d.IsTelemetry) (msgs : List Bytes) : repliesIn (m :: msgs) = d :: repliesIn msgs := by
  have hsome : (decodeMessage m).filter (fun d ↦ ¬ d.IsTelemetry) = some d := by
    rw [hd]
    exact Option.filter_some_pos (decide_eq_true ht)
  exact List.filterMap_cons_some hsome

section Sync

variable {msgs : List Bytes} {link : LncLink} {cut : Bytes}

structure Replied {α : Type} (respTag : UInt8) (minLen : Nat) (read : Mem → α) (cut : Bytes)
    (msgs : List Bytes) (out : CommandOut α) : Prop where
  none_left : repliesIn msgs = [] → out.result = some none
  first : ∀ d later, repliesIn msgs = d :: later →
    out.result = some (if d.Answers respTag minLen then some (read (ofList d.value 0)) else none) ∧
      ∃ left, left <:+ msgs ∧ repliesIn left = later ∧
        out.received.link.incoming = encodeAll tcpMessage left ++ cut

theorem expectReply_replied {α : Type} {respTag : UInt8} {minLen : Nat} {read : Mem → α}
    {sent : Bytes} {frame : CommandFrame} (hread : ReadsWidth read minLen) (hcut : CutOff cut)
    (hmsgs : ∀ m ∈ msgs, Incoming 256 m) (hcomplete : CompleteReplies msgs)
    (h : link.incoming = encodeAll tcpMessage msgs ++ cut) :
    Replied respTag minLen read cut msgs (expectReply respTag minLen read sent frame link) := by
  have hgets := ccCoreLncRecvMessage_gets 256 (by decide) hcut hmsgs frame.storage h
  rw [expectReply]
  generalize ccCoreLncRecvMessage link frame.storage 256 = r at hgets
  cases hgets with
  | @reply front later m _ hfront hm _ _ hresult hleft =>
      obtain ⟨d, v, hd, hv, hresult⟩ := hresult
      have ht : ¬ d.IsTelemetry := by
        obtain ⟨d', hd', ht⟩ := hm
        cases hd.symm.trans hd'
        exact ht
      have hreplies : repliesIn (front ++ m :: later) = d :: repliesIn later := by
        rw [repliesIn_front hfront, repliesIn_reply hd ht]
      have hlen : d.len ≤ d.rest.length := hcomplete d (by rw [hreplies]; exact List.mem_cons_self)
      have hvalue : slice v 0 d.value.length = d.value := by
        rw [DecodedMessage.value, List.length_take, Nat.min_eq_left hlen, ← slice_take v 0 hlen, hv]
      refine { none_left := fun hnone ↦ ?_, first := fun d' later' hfirst ↦ ?_ }
      · rw [hreplies] at hnone
        cases hnone
      · rw [hreplies] at hfirst
        cases hfirst
        refine ⟨?_, later, ⟨front ++ [m], by rw [List.append_assoc]; rfl⟩, rfl, hleft⟩
        dsimp only
        rw [hresult]
        dsimp only
        by_cases hanswers : d.Answers respTag minLen
        · have hwidth : minLen ≤ d.value.length := by
            rw [DecodedMessage.value, List.length_take, Nat.min_eq_left hlen]
            exact hanswers.2
          rw [if_pos hanswers, if_neg (not_or.mpr ⟨not_not_intro hanswers.1, Nat.not_lt.mpr hanswers.2⟩),
            hread.of_slice hvalue hwidth]
        · have hrefused : d.tag ≠ respTag ∨ d.len < minLen := by
            by_contra hboth
            rw [not_or, not_not, Nat.not_lt] at hboth
            exact hanswers hboth
          rw [if_neg hanswers, if_pos hrefused]
  | ended hall _ _ hresult _ =>
      have hnone : repliesIn msgs = [] := by
        rw [← List.append_nil msgs, repliesIn_front hall]
        rfl
      refine { none_left := fun _ ↦ ?_, first := fun d later hfirst ↦ ?_ }
      · dsimp only
        rw [hresult]
      · rw [hnone] at hfirst
        cases hfirst

/-! ## 3. The requests -/

theorem getTime_sent (frame : CommandFrame) (link : LncLink) :
    (ccCoreGetTime frame link).sent = getTimeRequest :=
  sendTLV_eq frame.message frame.messageLen protoTagGetTimeReq (slice_ofList [] 0) (by decide) (by decide)

theorem setRtc_sent (newTime : UInt32) (frame : CommandFrame) (link : LncLink) :
    (ccCoreSetRtc newTime frame link).sent = setRtcRequest newTime :=
  sendTLV_eq frame.message frame.messageLen protoTagSetRtcReq
    (slice_ofList (protocolPutU32 newTime.toNat) 0) (by rw [protocolPutU32_length]; decide) (by decide)

theorem runCommand_sent {α : Type} {c : CommandOut α} {next : Option α → ConnectionOut}
    {result : Option α} (h : c.result = some result) :
    (runCommand c next).sent = c.sent :: (next result).sent := by
  rw [runCommand, h]
  rfl

theorem CompleteReplies.suffix {left : List Bytes} (h : CompleteReplies msgs) (hleft : left <:+ msgs) :
    CompleteReplies left := by
  obtain ⟨front, rfl⟩ := hleft
  intro d hd
  refine h d ?_
  rw [repliesIn, List.filterMap_append]
  exact List.mem_append_right _ hd

theorem getTime_replied (frame : CommandFrame) (hcut : CutOff cut) (hmsgs : ∀ m ∈ msgs, Incoming 256 m)
    (hcomplete : CompleteReplies msgs) (h : link.incoming = encodeAll tcpMessage msgs ++ cut) :
    Replied protoTagGetTimeResp 4 getU32 cut msgs (ccCoreGetTime frame link) :=
  expectReply_replied getU32_reads hcut hmsgs hcomplete h

theorem setRtc_replied (newTime : UInt32) (frame : CommandFrame) (hcut : CutOff cut)
    (hmsgs : ∀ m ∈ msgs, Incoming 256 m) (hcomplete : CompleteReplies msgs)
    (h : link.incoming = encodeAll tcpMessage msgs ++ cut) :
    Replied protoTagConfigAck 1 getU8 cut msgs (ccCoreSetRtc newTime frame link) :=
  expectReply_replied getU8_reads hcut hmsgs hcomplete h

/-! ## 4. A connection -/

/-- Behind SET_RTC_REQ the time is asked for once more if the first reply acknowledges it. -/
theorem setRtc_requests (newTime : UInt32) (frames : Nat → CommandFrame) (storages : Nat → Mem)
    (hcut : CutOff cut) (hmsgs : ∀ m ∈ msgs, Incoming 256 m) (hcomplete : CompleteReplies msgs)
    (h : link.incoming = encodeAll tcpMessage msgs ++ cut) :
    let set := ccCoreSetRtc newTime (frames 1) link
    (runCommand set fun status ↦
        if status = some protoStatusSuccess then
          let confirmed := ccCoreGetTime (frames 2) set.received.link
          runCommand confirmed fun _ ↦ stream storages confirmed.received.link
        else stream storages set.received.link).sent =
      setRtcRequest newTime :: confirmRequests (repliesIn msgs) := by
  intro set
  have hset : Replied protoTagConfigAck 1 getU8 cut msgs set :=
    setRtc_replied newTime (frames 1) hcut hmsgs hcomplete h
  have hsent : set.sent = setRtcRequest newTime := setRtc_sent newTime (frames 1) link
  cases hreplies : repliesIn msgs with
  | nil =>
      rw [runCommand_sent (hset.none_left hreplies), hsent, if_neg (Option.some_ne_none _).symm,
        stream_sent]
      rfl
  | cons ack later =>
      obtain ⟨hstatus, left, hsuffix, -, hleft⟩ := hset.first ack later hreplies
      rw [runCommand_sent hstatus, hsent, confirmRequests]
      by_cases hacks : ack.Acks
      · have hagain := getTime_replied (frames 2) hcut (fun m hm ↦ hmsgs m (hsuffix.subset hm))
          (hcomplete.suffix hsuffix) hleft
        have hreturns : ∃ result, (ccCoreGetTime (frames 2) set.received.link).result = some result := by
          cases hlist : repliesIn left with
          | nil => exact ⟨_, hagain.none_left hlist⟩
          | cons d later => exact ⟨_, (hagain.first d later hlist).1⟩
        obtain ⟨result, hresult⟩ := hreturns
        rw [if_pos hacks.1, hacks.2, if_pos rfl, if_pos hacks, runCommand_sent hresult, getTime_sent,
          stream_sent]
      · rw [if_neg hacks, if_neg, stream_sent]
        intro hsuccess
        obtain ⟨hacked, hvalue⟩ := Option.ite_none_right_eq_some.mp hsuccess
        exact hacks ⟨hacked, Option.some.inj hvalue⟩

theorem lncConnection_sent (newTime : UInt32) (frames : Nat → CommandFrame) (storages : Nat → Mem)
    (hcut : CutOff cut) (hmsgs : ∀ m ∈ msgs, Incoming 256 m) (hcomplete : CompleteReplies msgs)
    (h : link.incoming = encodeAll tcpMessage msgs ++ cut) :
    (lncConnection newTime frames storages link).sent = syncRequests newTime (repliesIn msgs) := by
  have hget := getTime_replied (frames 0) hcut hmsgs hcomplete h
  simp only [lncConnection, signalledConnection, sendCommand_false]
  cases hreplies : repliesIn msgs with
  | nil => rw [runCommand_sent (hget.none_left hreplies), getTime_sent, stream_sent, syncRequests]
  | cons time later =>
      obtain ⟨hresult, left, hsuffix, hlater, hleft⟩ := hget.first time later hreplies
      rw [runCommand_sent hresult, getTime_sent, syncRequests]
      by_cases hanswers : time.Answers protoTagGetTimeResp 4
      · rw [if_pos hanswers, if_pos hanswers, ← hlater]
        exact congrArg (getTimeRequest :: ·) (setRtc_requests newTime frames storages hcut
          (fun m hm ↦ hmsgs m (hsuffix.subset hm)) (hcomplete.suffix hsuffix) hleft)
      · rw [if_neg hanswers, if_neg hanswers, stream_sent]

theorem confirmsTime_iff (newTime : UInt32) (frame : CommandFrame) (hcut : CutOff cut)
    (hmsgs : ∀ m ∈ msgs, Incoming 256 m) (hcomplete : CompleteReplies msgs)
    (h : link.incoming = encodeAll tcpMessage msgs ++ cut) :
    (match (ccCoreGetTime frame link).result with
      | some (some time) => decide (newTime ≤ time ∧ time ≤ newTime + 2)
      | _ => false) = true ↔ ConfirmsTime newTime (repliesIn msgs) := by
  have hget := getTime_replied frame hcut hmsgs hcomplete h
  cases hreplies : repliesIn msgs with
  | nil =>
      rw [hget.none_left hreplies]
      exact iff_of_false Bool.false_ne_true id
  | cons time later =>
      rw [(hget.first time later hreplies).1, ConfirmsTime]
      by_cases hanswers : time.Answers protoTagGetTimeResp 4
      · rw [if_pos hanswers, and_iff_right hanswers]
        exact decide_eq_true_iff
      · rw [if_neg hanswers]
        exact iff_of_false Bool.false_ne_true fun hconfirms ↦ hanswers hconfirms.1

theorem confirmsSet_iff (newTime : UInt32) (frames : Nat → CommandFrame) (hcut : CutOff cut)
    (hmsgs : ∀ m ∈ msgs, Incoming 256 m) (hcomplete : CompleteReplies msgs)
    (h : link.incoming = encodeAll tcpMessage msgs ++ cut) :
    let set := ccCoreSetRtc newTime (frames 1) link
    (if set.result = some (some protoStatusSuccess) then
        match (ccCoreGetTime (frames 2) set.received.link).result with
        | some (some time) => decide (newTime ≤ time ∧ time ≤ newTime + 2)
        | _ => false
      else false) = true ↔ ConfirmsSet newTime (repliesIn msgs) := by
  intro set
  have hset : Replied protoTagConfigAck 1 getU8 cut msgs set :=
    setRtc_replied newTime (frames 1) hcut hmsgs hcomplete h
  cases hreplies : repliesIn msgs with
  | nil =>
      rw [hset.none_left hreplies, if_neg fun hsome ↦ Option.some_ne_none _ (Option.some.inj hsome).symm]
      exact iff_of_false Bool.false_ne_true id
  | cons ack later =>
      obtain ⟨hstatus, left, hsuffix, hlater, hleft⟩ := hset.first ack later hreplies
      rw [hstatus, ConfirmsSet]
      by_cases hacks : ack.Acks
      · rw [if_pos hacks.1, hacks.2, if_pos rfl, and_iff_right hacks, ← hlater]
        exact confirmsTime_iff newTime (frames 2) hcut (fun m hm ↦ hmsgs m (hsuffix.subset hm))
          (hcomplete.suffix hsuffix) hleft
      · rw [if_neg fun hsuccess ↦ ?_]
        · exact iff_of_false Bool.false_ne_true fun hconfirms ↦ hacks hconfirms.1
        · obtain ⟨hacked, hvalue⟩ := Option.ite_none_right_eq_some.mp (Option.some.inj hsuccess)
          exact hacks ⟨hacked, Option.some.inj hvalue⟩

theorem clockSynced_iff (newTime : UInt32) (frames : Nat → CommandFrame) (hcut : CutOff cut)
    (hmsgs : ∀ m ∈ msgs, Incoming 256 m) (hcomplete : CompleteReplies msgs)
    (h : link.incoming = encodeAll tcpMessage msgs ++ cut) :
    clockSynced newTime frames link = true ↔ Confirms newTime (repliesIn msgs) := by
  have hget := getTime_replied (frames 0) hcut hmsgs hcomplete h
  rw [clockSynced]
  cases hreplies : repliesIn msgs with
  | nil =>
      rw [hget.none_left hreplies]
      exact iff_of_false Bool.false_ne_true id
  | cons time later =>
      obtain ⟨hresult, left, hsuffix, hlater, hleft⟩ := hget.first time later hreplies
      rw [hresult, Confirms]
      by_cases hanswers : time.Answers protoTagGetTimeResp 4
      · have hset := confirmsSet_iff newTime frames hcut (fun m hm ↦ hmsgs m (hsuffix.subset hm))
          (hcomplete.suffix hsuffix) hleft
        rw [if_pos hanswers, and_iff_right hanswers, ← hlater]
        exact hset
      · rw [if_neg hanswers]
        exact iff_of_false Bool.false_ne_true fun hconfirms ↦ hanswers hconfirms.1

end Sync

/-! ## 5. Every connection of the loop -/

def MainPass.Replies (p : MainPass) : Prop :=
  ∀ link ∈ p.connected, ∃ msgs, (∀ m ∈ msgs, Incoming 256 m) ∧ CompleteReplies msgs ∧
    link.incoming <+: encodeAll tcpMessage msgs

structure SyncsClock (p : MainPass) (link : LncLink) (out : ConnectionOut) : Prop where
  sent : out.sent =
    unsignalled p.signal (syncRequests p.newTime (repliesIn (messagesIn link.incoming)))
  killed : p.Signalled → out.killed = true ∧ out.returned = false
  synced : ¬ p.Signalled → (clockSynced p.newTime p.frames link = true ↔
    Confirms p.newTime (repliesIn (messagesIn link.incoming)))

theorem MainPass.Replies.syncs {p : MainPass} (h : p.Replies) {link : LncLink}
    (hlink : p.connected = some link) :
    SyncsClock p link (signalledConnection p.signal p.newTime p.frames p.storages link) := by
  obtain ⟨msgs, hmsgs, hcomplete, hfront⟩ := h link hlink
  obtain ⟨hwhole, cut, hcut, hincoming⟩ := messagesIn_front hmsgs hfront
  have hmsgs' : ∀ m ∈ messagesIn link.incoming, Incoming 256 m := fun m hm ↦
    hmsgs m (hwhole.subset hm)
  have hcomplete' : CompleteReplies (messagesIn link.incoming) := fun d hd ↦
    hcomplete d ((hwhole.filterMap _).subset hd)
  have hinterrupts := signalledConnection_interrupts p.signal p.newTime p.frames p.storages link
  refine { sent := ?_, killed := fun hsignal ↦ ?_, synced := fun _ ↦
    clockSynced_iff p.newTime p.frames hcut hmsgs' hcomplete' hincoming }
  · rw [hinterrupts.sent, lncConnection_sent p.newTime p.frames p.storages hcut hmsgs' hcomplete' hincoming]
  · obtain ⟨link', hlink', hcomes⟩ := hsignal
    obtain rfl := Option.some.inj (hlink.symm.trans hlink')
    exact hinterrupts.ends hcomes

theorem MainPass.Replies.bridged {p : MainPass} (h : p.Replies) : p.Bridged := fun link hlink ↦ by
  obtain ⟨msgs, hmsgs, -, hfront⟩ := h link hlink
  exact ⟨msgs, hmsgs, hfront⟩

def timeReply (time : UInt32) : Bytes :=
  tlvMessage protoTagGetTimeResp (protocolPutU32 time.toNat)

def ackReply : Bytes := tlvMessage protoTagConfigAck [protoStatusSuccess]

def passOf (bytes : Bytes) (signal : Nat → Bool) : MainPass :=
  ⟨some ⟨bytes, 0⟩, 1000, fun _ ↦ ⟨fun _ ↦ 0, 0, fun _ ↦ 0, 0, fun _ ↦ 0⟩, fun _ _ ↦ 0, signal⟩

/-- A connection with a report in front of the second reply, and one that the bridge closes behind the first
    reply, so that SIGPIPE comes at SET_RTC_REQ. -/
def syncedPass : MainPass :=
  passOf (encodeAll tcpMessage [timeReply 7, emptyReport, ackReply, timeReply 1001]) fun _ ↦ false

def closedPass : MainPass := passOf (tcpMessage (timeReply 7)) fun k ↦ decide (k = 1)

theorem twoConnections_replies : ∀ p ∈ [syncedPass, closedPass], p.Replies := by
  let msgs := [timeReply 7, emptyReport, ackReply, timeReply 1001]
  have hfront : ∀ p ∈ [syncedPass, closedPass], ∀ link ∈ p.connected,
      link.incoming <+: encodeAll tcpMessage msgs := by decide +kernel
  have hreply : ∀ m, (∀ d ∈ decodeMessage m, ¬ d.IsTelemetry) → 0 < m.length → m.length ≤ 256 →
      Incoming 256 m := by
    intro m hother hpos hfits
    exact ⟨hpos, hfits, fun d hd ht ↦ absurd ht (hother d hd)⟩
  have hmsgs : ∀ m ∈ msgs, Incoming 256 m := by
    refine List.forall_mem_cons.mpr ⟨hreply _ (by decide) (by decide) (by decide),
      List.forall_mem_cons.mpr ⟨emptyReport_incoming,
        List.forall_mem_cons.mpr ⟨hreply _ (by decide) (by decide) (by decide),
          List.forall_mem_singleton.mpr (hreply _ (by decide) (by decide) (by decide))⟩⟩⟩
  have hcomplete : CompleteReplies msgs := by
    rw [CompleteReplies]
    decide
  exact fun p hp link hlink ↦ ⟨msgs, hmsgs, hcomplete, hfront p hp link hlink⟩

theorem closedPass_signalled : closedPass.Signalled := ⟨_, rfl, 1, by decide +kernel, rfl⟩

end SubmarineMonitor
