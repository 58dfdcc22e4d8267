import SubmarineMonitor.CentralComputer.Connection

/-!
# Reconnects — the loop of `main.cpp` over connections that drop anywhere

`lnc_bridge` sends whole messages, and a connection can drop behind any byte of them.  `main` then
connects again, unless it still sends a command: nothing in the process handles SIGPIPE, which a send on a
closed connection can raise.  Whatever was cut off is gone; every message that came whole is handled and
stored, once and in order, up to such a signal (`stored_passes`).
-/

open Reasoning

namespace SubmarineMonitor

/-! ## 1. The loop of `main` -/

/-- One iteration of the loop: what `CcCore_LncConnect` comes back with, the time of the machine, the
    uninitialised variables, and the commands at which SIGPIPE comes. -/
structure MainPass where
  connected : Option LncLink
  newTime : UInt32
  frames : Nat → CommandFrame
  storages : Nat → Mem
  signal : Nat → Bool

/-- The state says that the iterations before this one have returned. -/
def mainStep (running : Bool) (p : MainPass) : Bool × Option ConnectionOut :=
  if running then
    match p.connected with
    -- no connection: the loop sleeps and tries again
    | none => (true, none)
    | some link =>
        let out := signalledConnection p.signal p.newTime p.frames p.storages link
        (out.returned, some out)
  else (false, none)

def mainHandled (passes : List MainPass) : List HandlerCall :=
  (runOutputs mainStep true passes).flatMap fun out ↦ out.toList.flatMap ConnectionOut.handled

def mainStores (passes : List MainPass) : List DcaStore :=
  (runOutputs mainStep true passes).flatMap fun out ↦ out.toList.flatMap ConnectionOut.stores

def wholeMessages : Nat → Bytes → List Bytes
  | 0, _ => []
  | fuel + 1, l =>
      let len := protocolGetU32 (ofList (l.take 4) 0)
      if l.length < 4 + len then []
      else (l.drop 4).take len :: wholeMessages fuel (l.drop (4 + len))

/-- Each message takes bytes. -/
def messagesIn (l : Bytes) : List Bytes := wholeMessages (l.length + 1) l

def MainPass.whole (p : MainPass) : List Bytes :=
  p.connected.toList.flatMap fun link ↦ messagesIn link.incoming

/-- SIGPIPE comes at a command that the connection of this iteration leads to. -/
def MainPass.Signalled (p : MainPass) : Prop :=
  ∃ link ∈ p.connected, ∃ k < (lncConnection p.newTime p.frames p.storages link).sent.length,
    p.signal k = true

/-- What the loop takes: all that comes whole, up to an iteration with a signal, and a front of what comes in
    that one. -/
inductive TakenBy : List MainPass → List Bytes → Prop
  | nil : TakenBy [] []
  | whole {p : MainPass} {passes : List MainPass} {msgs : List Bytes} (goes : ¬ p.Signalled)
      (later : TakenBy passes msgs) : TakenBy (p :: passes) (p.whole ++ msgs)
  | signalled {p : MainPass} {passes : List MainPass} {msgs : List Bytes} (ends : p.Signalled)
      (front : msgs <+: p.whole) : TakenBy (p :: passes) msgs

theorem decodeMessage_tlvMessage {tag : UInt8} {v : Bytes} (h : v.length + 3 < 65536) :
    decodeMessage (tlvMessage tag v) = some { tag, len := v.length, rest := v } := by
  rw [tlvMessage, protocolPutU16_eq]
  show decodeMessage (tag :: UInt8.ofNat (v.length / 256) :: UInt8.ofNat (v.length % 256) :: v) = _
  rw [decodeMessage, bigEndian16_put (by omega), u16_of_lt (by omega), if_neg (by omega)]

theorem incoming_tlvMessage {tag : UInt8} {fs : List Tlv} {cap : Nat}
    (hfits : (tlvBytes fs).length + 3 ≤ cap) (hcap : cap < 65536)
    (hvalue : CompleteValue protoFieldMeasurementRecord fs) :
    Incoming cap (tlvMessage tag (tlvBytes fs)) := by
  have hlen : (tlvMessage tag (tlvBytes fs)).length = (tlvBytes fs).length + 3 := by
    rw [tlvMessage, List.length_cons, List.length_append, protocolPutU16_length]
    omega
  refine { pos := by omega, fits := by omega, wellFormed := fun d hd _ ↦ ?_ }
  rw [decodeMessage_tlvMessage (by omega)] at hd
  cases hd
  exact ⟨Nat.le_refl _, fs, List.take_length, hvalue⟩

/-! ## 2. A message that is cut off -/

/-- Nothing, or the beginning of a message that would have fitted `storage[256]`. -/
def CutOff (cut : Bytes) : Prop :=
  cut = [] ∨ ∃ m missing, tcpMessage m = cut ++ missing ∧ missing ≠ [] ∧ m.length ≤ 256

section Cut

variable {link : LncLink} {cut : Bytes} {cap : Nat}

/-- The length is one of a message that would have fitted, and the rest of it is short. -/
theorem CutOff.length_spelled (h : CutOff cut) (hfour : 4 ≤ cut.length) :
    let len := protocolGetU32 (ofList (cut.take 4) 0)
    0 < len ∧ len ≤ 256 ∧ cut.length < 4 + len := by
  intro len
  rcases h with rfl | ⟨m, missing, hm, hmissing, hfits⟩
  · exact absurd hfour (by decide)
  have hpos := List.length_pos_iff.mpr hmissing
  have hlen := congrArg List.length hm
  rw [tcpMessage_length, List.length_append] at hlen
  have hspelled := protocolGetU32_message (show m.length < 4294967296 by omega) []
  rw [List.append_nil, hm, List.take_append_of_le_length hfour] at hspelled
  have hsame : len = m.length := hspelled
  omega

/-- What is left of a message does not reach to its end. -/
theorem CutOff.short (h : CutOff cut) : cut.length < 4 + protocolGetU32 (ofList (cut.take 4) 0) := by
  by_cases hfour : 4 ≤ cut.length
  · exact (h.length_spelled hfour).2.2
  · omega

theorem wholeMessages_stream {msgs : List Bytes} {fuel : Nat} (hcut : CutOff cut)
    (hmsgs : ∀ m ∈ msgs, m.length < 4294967296) (hfuel : msgs.length < fuel) :
    wholeMessages fuel (encodeAll tcpMessage msgs ++ cut) = msgs := by
  induction msgs generalizing fuel with
  | nil =>
      cases fuel with
      | zero => omega
      | succ fuel => exact if_pos hcut.short
  | cons m msgs ih =>
      cases fuel with
      | zero => omega
      | succ fuel =>
          have hlen := tcpMessage_length m
          rw [encodeAll_cons, List.append_assoc, wholeMessages,
            protocolGetU32_message (hmsgs m List.mem_cons_self), if_neg (by
            rw [List.length_append]
            omega), ← hlen, List.drop_left, ih (fun x hx ↦ hmsgs x (List.mem_cons_of_mem m hx))
            (Nat.lt_of_succ_lt_succ hfuel), tcpMessage, List.append_assoc]
          exact congrArg (· :: msgs) (List.take_left)

theorem ccCoreLncRecv_cutOff (hcap : 256 ≤ cap) (outBuf : Mem) (h : link.incoming = cut)
    (hcut : CutOff cut) :
    (ccCoreLncRecv link outBuf cap).link.incoming = [] ∧
      (ccCoreLncRecv link outBuf cap).result = 0 := by
  have hgot : (link.recv 4).1 = cut.take 4 := by rw [LncLink.recv, h]
  have hrest : (link.recv 4).2.incoming = cut.drop 4 := by rw [LncLink.recv, h]
  by_cases hfour : 4 ≤ cut.length
  · -- the length has come, and the message behind it is short
    obtain ⟨-, hfits, hshort⟩ := hcut.length_spelled hfour
    rw [ccCoreLncRecv, hgot, if_neg (by rw [List.length_take]; omega),
      if_neg (Nat.not_lt.mpr (Nat.le_trans hfits hcap))]
    dsimp only
    generalize protocolGetU32 (ofList (cut.take 4) 0) = len at hshort
    have hdata : ((link.recv 4).2.recv len).1.length ≠ len := by
      rw [LncLink.recv, hrest, List.length_take, List.length_drop]
      omega
    rw [if_pos hdata]
    refine ⟨?_, rfl⟩
    rw [LncLink.recv, hrest]
    exact List.drop_eq_nil_iff.mpr (by rw [List.length_drop]; omega)
  · rw [ccCoreLncRecv, hgot, if_pos (by rw [List.length_take]; omega)]
    exact ⟨by rw [hrest]; exact List.drop_eq_nil_iff.mpr (by omega), rfl⟩

/-! ## 3. One call -/

inductive Gets (cut : Bytes) : List Bytes → MessageOut → Prop
  | reply {front later : List Bytes} {m : Bytes} {out : MessageOut}
      (hfront : ∀ x ∈ front, ¬ IsReply x) (hm : IsReply m)
      (hhandled : out.handled = front.flatMap handlerCalls)
      (hstores : out.stores = front.flatMap messageStores) (hresult : Returns m out.result)
      (hleft : out.link.incoming = encodeAll tcpMessage later ++ cut) :
      Gets cut (front ++ m :: later) out
  | ended {msgs : List Bytes} {out : MessageOut} (hall : ∀ x ∈ msgs, ¬ IsReply x)
      (hhandled : out.handled = msgs.flatMap handlerCalls)
      (hstores : out.stores = msgs.flatMap messageStores) (hresult : out.result = some none)
      (hleft : out.link.incoming = []) : Gets cut msgs out

theorem Gets.after {m : Bytes} {msgs : List Bytes} {out : MessageOut} (h : Gets cut msgs out)
    (hm : ¬ IsReply m) (read : PrefixRead) :
    Gets cut (m :: msgs) (out.after read (handlerCalls m) (messageStores m)) := by
  cases h with
  | @reply front later reply out hfront hreply hhandled hstores hresult hleft =>
      refine @Gets.reply cut (m :: front) later reply _ (List.forall_mem_cons.mpr ⟨hm, hfront⟩) hreply
        ?_ ?_ hresult hleft
      · rw [MessageOut.after, hhandled, List.flatMap_cons]
      · rw [MessageOut.after, hstores, List.flatMap_cons]
  | ended hall hhandled hstores hresult hleft =>
      refine .ended (List.forall_mem_cons.mpr ⟨hm, hall⟩) ?_ ?_ hresult hleft
      · rw [MessageOut.after, hhandled, List.flatMap_cons]
      · rw [MessageOut.after, hstores, List.flatMap_cons]

variable {msgs : List Bytes}

theorem lncRecvMessageLoop_gets {fuel : Nat} (hcap : 256 ≤ cap ∧ cap ≤ 65535) (hcut : CutOff cut)
    (hmsgs : ∀ m ∈ msgs, Incoming 256 m) (hfuel : msgs.length < fuel) (storage : Mem)
    (h : link.incoming = encodeAll tcpMessage msgs ++ cut) :
    Gets cut msgs (lncRecvMessageLoop cap fuel link storage) := by
  -- induction on the messages that come whole
  induction msgs generalizing fuel link storage with
  | nil =>
      cases fuel with
      | zero => omega
      | succ fuel =>
          obtain ⟨hleft, hzero⟩ := ccCoreLncRecv_cutOff hcap.1 storage h hcut
          rw [lncRecvMessageLoop]
          dsimp only
          rw [if_pos hzero]
          exact .ended (fun x hx ↦ absurd hx List.not_mem_nil) rfl rfl rfl hleft
  | cons m msgs ih =>
      cases fuel with
      | zero => omega
      | succ fuel =>
          rw [encodeAll_cons, List.append_assoc] at h
          have hm := (hmsgs m List.mem_cons_self).mono hcap.1
          by_cases hreply : IsReply m
          · obtain ⟨hleft, hhandled, hstores, hresult⟩ :=
              lncRecvMessageLoop_returns hcap.2 hm hreply h storage fuel
            exact @Gets.reply cut [] msgs m _ (fun x hx ↦ absurd hx List.not_mem_nil) hreply hhandled
              hstores hresult hleft
          · obtain ⟨next, storage', read, hleft, hstep⟩ :=
              lncRecvMessageLoop_passes hcap.2 hm hreply h storage
            rw [hstep fuel]
            exact (ih (fun x hx ↦ hmsgs x (List.mem_cons_of_mem m hx))
              (Nat.lt_of_succ_lt_succ hfuel) storage' hleft).after hreply read

theorem ccCoreLncRecvMessage_gets (cap : Nat) (hcap : 256 ≤ cap ∧ cap ≤ 65535)
    (hcut : CutOff cut) (hmsgs : ∀ m ∈ msgs, Incoming 256 m) (storage : Mem)
    (h : link.incoming = encodeAll tcpMessage msgs ++ cut) :
    Gets cut msgs (ccCoreLncRecvMessage link storage cap) := by
  have hge := tcpMessages_length_ge msgs
  apply lncRecvMessageLoop_gets hcap hcut hmsgs ?_ storage h
  rw [h, List.length_append]
  omega

/-! ## 4. Calls in a row -/

/-- The handler calls and the store calls of what was consumed, in order.  The rest of the messages is
    still to come, and the beginning of another one. -/
def Takes (msgs : List Bytes) (link : LncLink) (handled : List HandlerCall)
    (stores : List DcaStore) : Prop :=
  ∃ consumed unread cut, CutOff cut ∧ msgs = consumed ++ unread ∧
    link.incoming = encodeAll tcpMessage unread ++ cut ∧
    handled = consumed.flatMap handlerCalls ∧ stores = consumed.flatMap messageStores

theorem Gets.takes {out : MessageOut} (hcut : CutOff cut) (h : Gets cut msgs out) :
    Takes msgs out.link out.handled out.stores := by
  cases h with
  | @reply front later m out _ hm hhandled hstores hresult hleft =>
      refine ⟨front ++ [m], later, cut, hcut, by rw [List.append_assoc]; rfl, hleft, ?_, ?_⟩
      · rw [List.flatMap_append, List.flatMap_singleton, (reply_worth hm).1, List.append_nil,
          hhandled]
      · rw [List.flatMap_append, List.flatMap_singleton, (reply_worth hm).2, List.append_nil,
          hstores]
  | ended _ hhandled hstores hresult hleft =>
      exact ⟨msgs, [], [], .inl rfl, by rw [List.append_nil], hleft, hhandled, hstores⟩

inductive Ends (comes : Prop) (msgs : List Bytes) (out : ConnectionOut) : Prop
  | drained (h : Drains msgs out)
  | signalled (signal : comes) (h : Takes msgs out.link out.handled out.stores)

theorem Takes.andThen {first rest : ConnectionOut} (h : Takes msgs first.link first.handled first.stores)
    {comes : Prop} (hrest : ∀ unread cut, CutOff cut → (∀ m ∈ unread, m ∈ msgs) →
      first.link.incoming = encodeAll tcpMessage unread ++ cut → Ends comes unread rest) :
    Ends comes msgs (first.andThen rest) := by
  obtain ⟨consumed, unread, cut, hcut, rfl, hleft, hhandled, hstores⟩ := h
  cases hrest unread cut hcut (fun m hm ↦ List.mem_append_right _ hm) hleft with
  | drained hdrains =>
      refine .drained { handled := ?_, stores := ?_, ended := hdrains.ended, returned := hdrains.returned }
      · rw [ConnectionOut.andThen, hhandled, hdrains.handled, List.flatMap_append]
      · rw [ConnectionOut.andThen, hstores, hdrains.stores, List.flatMap_append]
  | signalled hcomes htakes =>
      obtain ⟨more, left, cut', hcut', rfl, hleft', hhandled', hstores'⟩ := htakes
      refine .signalled hcomes ⟨consumed ++ more, left, cut', hcut', (List.append_assoc _ _ _).symm, hleft',
        ?_, ?_⟩
      · rw [ConnectionOut.andThen, hhandled, hhandled', List.flatMap_append]
      · rw [ConnectionOut.andThen, hstores, hstores', List.flatMap_append]

theorem sendCommand_ends {α : Type} {respTag : UInt8} {minLen : Nat} {read : Mem → α}
    {sent : Bytes} {frame : CommandFrame} {next : Option α → ConnectionOut} {signal : Bool}
    {comes : Prop} (hsignal : signal = true → comes) (hcut : CutOff cut)
    (hmsgs : ∀ m ∈ msgs, Incoming 256 m) (h : link.incoming = encodeAll tcpMessage msgs ++ cut)
    (hnext : ∀ result unread cut', CutOff cut' → (∀ m ∈ unread, m ∈ msgs) →
      (expectReply respTag minLen read sent frame link).received.link.incoming =
        encodeAll tcpMessage unread ++ cut' → Ends comes unread (next result)) :
    Ends comes msgs (sendCommand signal link (expectReply respTag minLen read sent frame link) next) := by
  rw [sendCommand]
  by_cases hcomes : signal = true
  · rw [if_pos hcomes]
    exact .signalled (hsignal hcomes) ⟨[], msgs, cut, hcut, rfl, h, rfl, rfl⟩
  have hgets := ccCoreLncRecvMessage_gets 256 (by decide) hcut hmsgs frame.storage h
  have htakes : Takes msgs (expectReply respTag minLen read sent frame link).connection.link
      (expectReply respTag minLen read sent frame link).connection.handled
      (expectReply respTag minLen read sent frame link).connection.stores := hgets.takes hcut
  -- the call returns, and so does the command
  have hreturns : ∃ result, (expectReply respTag minLen read sent frame link).result = some result := by
    rw [expectReply]
    dsimp only
    cases hgets with
    | reply _ _ _ _ hresult _ =>
        obtain ⟨d, v, -, -, hresult⟩ := hresult
        rw [hresult]
        exact ⟨_, (apply_ite some _ _ _).symm⟩
    | ended _ _ _ hresult _ =>
        rw [hresult]
        exact ⟨_, rfl⟩
  obtain ⟨result, hresult⟩ := hreturns
  rw [if_neg hcomes, runCommand, hresult]
  exact htakes.andThen fun unread cut' hcut' hin hleft ↦ hnext result unread cut' hcut' hin hleft

theorem getTime_ends {frame : CommandFrame} {next : Option UInt32 → ConnectionOut} {signal : Bool}
    {comes : Prop} (hsignal : signal = true → comes) (hcut : CutOff cut)
    (hmsgs : ∀ m ∈ msgs, Incoming 256 m) (h : link.incoming = encodeAll tcpMessage msgs ++ cut)
    (hnext : ∀ result unread cut', CutOff cut' → (∀ m ∈ unread, m ∈ msgs) →
      (ccCoreGetTime frame link).received.link.incoming = encodeAll tcpMessage unread ++ cut' →
        Ends comes unread (next result)) :
    Ends comes msgs (sendCommand signal link (ccCoreGetTime frame link) next) :=
  sendCommand_ends hsignal hcut hmsgs h hnext

theorem setRtc_ends {newTime : UInt32} {frame : CommandFrame} {next : Option UInt8 → ConnectionOut}
    {signal : Bool} {comes : Prop} (hsignal : signal = true → comes) (hcut : CutOff cut)
    (hmsgs : ∀ m ∈ msgs, Incoming 256 m) (h : link.incoming = encodeAll tcpMessage msgs ++ cut)
    (hnext : ∀ result unread cut', CutOff cut' → (∀ m ∈ unread, m ∈ msgs) →
      (ccCoreSetRtc newTime frame link).received.link.incoming = encodeAll tcpMessage unread ++ cut' →
        Ends comes unread (next result)) :
    Ends comes msgs (sendCommand signal link (ccCoreSetRtc newTime frame link) next) :=
  sendCommand_ends hsignal hcut hmsgs h hnext

/-! ## 5. A whole connection -/

/-- One iteration of the streaming loop takes a reply, or it is the last one. -/
theorem streamOne_cutOff (storage : Mem) (hcut : CutOff cut) (hmsgs : ∀ m ∈ msgs, Incoming 256 m)
    (h : link.incoming = encodeAll tcpMessage msgs ++ cut) :
    Takes msgs (streamOne storage link).1.link (streamOne storage link).1.handled
        (streamOne storage link).1.stores ∧
      ((streamOne storage link).2 = false → Drains msgs (streamOne storage link).1) ∧
      ((streamOne storage link).2 = true →
        (streamOne storage link).1.link.incoming.length < link.incoming.length) := by
  have hgets := ccCoreLncRecvMessage_gets 256 (by decide) hcut hmsgs storage h
  have htakes := hgets.takes hcut
  rw [streamOne]
  generalize ccCoreLncRecvMessage link storage 256 = r at hgets htakes
  cases hgets with
  | @reply front later m _ _ hm _ _ hresult hleft =>
      obtain ⟨reply, hreply⟩ : ∃ reply, r.result = some (some reply) := by
        obtain ⟨d, v, -, -, hresult⟩ := hresult
        exact ⟨_, hresult⟩
      have hshorter : r.link.incoming.length < link.incoming.length := by
        have hlen := tcpMessage_length m
        rw [hleft, h, encodeAll_append, encodeAll_cons]
        simp only [List.length_append]
        omega
      rw [hreply] at hresult
      dsimp only
      rw [hreply]
      dsimp only
      rw [if_neg (hresult.not_eventReport hm)]
      refine ⟨?_, fun hstop ↦ absurd hstop.symm Bool.false_ne_true, fun _ ↦ hshorter⟩
      simp only [ConnectionOut.andThen, MessageOut.connection, List.append_nil]
      exact htakes
  | ended _ hhandled hstores hresult hleft =>
      dsimp only
      rw [hresult]
      have hdrains : Drains msgs r.connection :=
        { handled := hhandled, stores := hstores, ended := hleft
          returned := by rw [MessageOut.connection, hresult]; rfl }
      exact ⟨htakes, fun _ ↦ hdrains, fun hgoes ↦ absurd hgoes Bool.false_ne_true⟩

theorem streamingLoop_ends {fuel : Nat} {comes : Prop} (storages : Nat → Mem) (hcut : CutOff cut)
    (hmsgs : ∀ m ∈ msgs, Incoming 256 m) (h : link.incoming = encodeAll tcpMessage msgs ++ cut)
    (hfuel : link.incoming.length < fuel) : Ends comes msgs (streamingLoop fuel storages link) := by
  -- induction on the iterations; each one that goes on leaves less to come
  induction fuel generalizing msgs link storages cut with
  | zero => omega
  | succ fuel ih =>
      obtain ⟨htakes, hlast, hgoes⟩ := streamOne_cutOff (storages 0) hcut hmsgs h
      rw [streamingLoop]
      by_cases hmore : (streamOne (storages 0) link).2 = true
      · have hless := hgoes hmore
        rw [if_pos hmore]
        exact htakes.andThen fun unread cut' hcut' hin hunread ↦
          ih _ hcut' (fun x hx ↦ hmsgs x (hin x hx)) hunread (by omega)
      · rw [if_neg hmore]
        exact .drained (hlast (Bool.eq_false_iff.mpr hmore))

theorem stream_ends {comes : Prop} (storages : Nat → Mem) (hcut : CutOff cut)
    (hmsgs : ∀ m ∈ msgs, Incoming 256 m) (h : link.incoming = encodeAll tcpMessage msgs ++ cut) :
    Ends comes msgs (stream storages link) :=
  streamingLoop_ends storages hcut hmsgs h (Nat.lt_succ_self _)

theorem signalledConnection_ends (signal : Nat → Bool) (newTime : UInt32)
    (frames : Nat → CommandFrame) (storages : Nat → Mem) (hcut : CutOff cut)
    (hmsgs : ∀ m ∈ msgs, Incoming 256 m) (h : link.incoming = encodeAll tcpMessage msgs ++ cut) :
    Ends (∃ k, signal k = true) msgs (signalledConnection signal newTime frames storages link) := by
  rw [signalledConnection]
  apply getTime_ends (fun hsignal ↦ ⟨0, hsignal⟩) hcut hmsgs h
  intro initialTime unread cut₁ hcut₁ hin hleft
  have hunread : ∀ m ∈ unread, Incoming 256 m := fun m hm ↦ hmsgs m (hin m hm)
  cases initialTime with
  | none => exact stream_ends storages hcut₁ hunread hleft
  | some time =>
      apply setRtc_ends (fun hsignal ↦ ⟨1, hsignal⟩) hcut₁ hunread hleft
      intro status left cut₂ hcut₂ hin' hleft'
      have hleftover : ∀ m ∈ left, Incoming 256 m := fun m hm ↦ hunread m (hin' m hm)
      by_cases hstatus : status = some protoStatusSuccess
      · rw [if_pos hstatus]
        apply getTime_ends (fun hsignal ↦ ⟨2, hsignal⟩) hcut₂ hleftover hleft'
        intro confirmedTime last cut₃ hcut₃ hin'' hlast
        exact stream_ends storages hcut₃ (fun m hm ↦ hleftover m (hin'' m hm)) hlast
      · rw [if_neg hstatus]
        exact stream_ends storages hcut₂ hleftover hleft'

/-- A connection that ends inside a message handles and stores all those in front of it. -/
theorem lncConnection_cutOff (newTime : UInt32) (frames : Nat → CommandFrame)
    (storages : Nat → Mem) (hcut : CutOff cut) (hmsgs : ∀ m ∈ msgs, Incoming 256 m)
    (h : link.incoming = encodeAll tcpMessage msgs ++ cut) :
    Drains msgs (lncConnection newTime frames storages link) := by
  cases signalledConnection_ends (fun _ ↦ false) newTime frames storages hcut hmsgs h with
  | drained hdrains => exact hdrains
  | signalled hsignal _ =>
      obtain ⟨k, hk⟩ := hsignal
      cases hk

end Cut

/-- A connection that brings a front of a stream of messages brings those that are whole in it. -/
theorem messagesIn_front {msgs : List Bytes} {l : Bytes} (h : ∀ m ∈ msgs, Incoming 256 m)
    (hfront : l <+: encodeAll tcpMessage msgs) :
    messagesIn l <+: msgs ∧ ∃ cut, CutOff cut ∧ l = encodeAll tcpMessage (messagesIn l) ++ cut := by
  obtain ⟨cut, htake, hcut⟩ := @take_encodeAll _ _ tcpMessage msgs l.length
  have hwhole := @wholeWithin_front _ _ tcpMessage msgs l.length
  rw [← List.prefix_iff_eq_take.mp hfront] at htake
  have hcut' : CutOff cut := by
    refine hcut.imp_right ?_
    rintro ⟨m, hm, missing, hword, hmissing⟩
    exact ⟨m, missing, hword, hmissing, (h m hm).fits⟩
  have hmessages : messagesIn l = wholeWithin tcpMessage msgs l.length := by
    have hge := tcpMessages_length_ge (wholeWithin tcpMessage msgs l.length)
    have hlen := congrArg List.length htake
    rw [List.length_append] at hlen
    have hall := @wholeMessages_stream cut (wholeWithin tcpMessage msgs l.length) (l.length + 1) hcut'
      (fun m hm ↦ Nat.lt_of_le_of_lt (h m (hwhole.subset hm)).fits (by decide)) (by omega)
    rw [← htake] at hall
    exact hall
  rw [hmessages]
  exact ⟨hwhole, cut, hcut', htake⟩

/-! ## 6. The signal -/

def unsignalled (signal : Nat → Bool) : List Bytes → List Bytes
  | [] => []
  | m :: msgs => if signal 0 then [] else m :: unsignalled (fun k ↦ signal (k + 1)) msgs

structure Interrupts (signal : Nat → Bool) (whole out : ConnectionOut) : Prop where
  sent : out.sent = unsignalled signal whole.sent
  goes : (∀ k < whole.sent.length, signal k = false) → out = whole
  ends : (∃ k < whole.sent.length, signal k = true) → out.killed = true ∧ out.returned = false

theorem interrupts_nothing {signal : Nat → Bool} {out : ConnectionOut} (h : out.sent = []) :
    Interrupts signal out out where
  sent := by rw [h]; rfl
  goes _ := rfl
  ends := by
    rintro ⟨k, hk, -⟩
    rw [h] at hk
    exact absurd hk (Nat.not_lt_zero k)

theorem sendCommand_interrupts {α : Type} {signal : Nat → Bool} {link : LncLink} {c : CommandOut α}
    {whole next : Option α → ConnectionOut}
    (h : ∀ result, Interrupts (fun k ↦ signal (k + 1)) (whole result) (next result)) :
    Interrupts signal (runCommand c whole) (sendCommand (signal 0) link c next) := by
  rw [sendCommand]
  by_cases hfirst : signal 0 = true
  · rw [if_pos hfirst]
    -- the whole connection sends something, and none of it is sent here
    have hsent : ∃ more, (runCommand c whole).sent = c.sent :: more := by
      rw [runCommand]
      cases c.result with
      | none => exact ⟨_, rfl⟩
      | some result => exact ⟨_, rfl⟩
    obtain ⟨more, hsent⟩ := hsent
    refine { sent := ?_, goes := fun hnone ↦ ?_, ends := fun _ ↦ ⟨rfl, rfl⟩ }
    · rw [hsent, unsignalled, if_pos hfirst]
    · have hzero := hnone 0 (by rw [hsent]; exact Nat.succ_pos _)
      rw [hfirst] at hzero
      cases hzero
  rw [if_neg hfirst, runCommand, runCommand]
  cases c.result with
  | none =>
      refine { sent := ?_, goes := fun _ ↦ rfl, ends := ?_ }
      · show [c.sent] = unsignalled signal [c.sent]
        rw [unsignalled, if_neg hfirst]
        rfl
      · rintro ⟨k, hk, hsignal⟩
        obtain rfl : k = 0 := Nat.lt_one_iff.mp hk
        exact absurd hsignal hfirst
  | some result =>
      obtain ⟨hsent, hgoes, hends⟩ := h result
      have hlength : (c.connection.andThen (whole result)).sent.length =
          (whole result).sent.length + 1 := rfl
      refine { sent := ?_, goes := fun hnone ↦ ?_, ends := ?_ }
      · show c.sent :: (next result).sent = unsignalled signal (c.sent :: (whole result).sent)
        rw [unsignalled, if_neg hfirst, hsent]
      · have hsame := hgoes fun k hk ↦ hnone (k + 1) (by rw [hlength]; omega)
        exact congrArg c.connection.andThen hsame
      · -- a signal behind the first send is one of the rest of the connection
        rintro ⟨k, hk, hsignal⟩
        cases k with
        | zero => exact absurd hsignal hfirst
        | succ k => exact hends ⟨k, by rw [hlength] at hk; omega, hsignal⟩

theorem streamOne_sent (storage : Mem) (link : LncLink) : (streamOne storage link).1.sent = [] := by
  rw [streamOne]
  split
  · rfl
  · rfl
  · split
    · split <;> rfl
    · rfl

theorem stream_sent (storages : Nat → Mem) (link : LncLink) : (stream storages link).sent = [] := by
  have hloop : ∀ fuel storages link, (streamingLoop fuel storages link).sent = [] := by
    intro fuel
    induction fuel with
    | zero => exact fun _ _ ↦ rfl
    | succ fuel ih =>
        intro storages link
        rw [streamingLoop]
        split
        · rw [ConnectionOut.andThen, streamOne_sent, ih]
          rfl
        · exact streamOne_sent _ _
  exact hloop _ _ _

theorem signalledConnection_interrupts (signal : Nat → Bool) (newTime : UInt32)
    (frames : Nat → CommandFrame) (storages : Nat → Mem) (link : LncLink) :
    Interrupts signal (lncConnection newTime frames storages link)
      (signalledConnection signal newTime frames storages link) := by
  simp only [lncConnection, signalledConnection, sendCommand_false]
  apply sendCommand_interrupts
  intro initialTime
  cases initialTime with
  | none => exact interrupts_nothing (stream_sent _ _)
  | some time =>
      apply @sendCommand_interrupts _ fun k ↦ signal (k + 1)
      intro status
      by_cases hstatus : status = some protoStatusSuccess
      · rw [if_pos hstatus, if_pos hstatus]
        apply @sendCommand_interrupts _ fun k ↦ signal (k + 1 + 1)
        exact fun _ ↦ interrupts_nothing (stream_sent _ _)
      · rw [if_neg hstatus, if_neg hstatus]
        exact interrupts_nothing (stream_sent _ _)

/-! ## 7. The loop -/

/-- The bridge sends messages of the link, and the connection can drop behind any byte of them. -/
def MainPass.Bridged (p : MainPass) : Prop :=
  ∀ link ∈ p.connected, ∃ msgs, (∀ m ∈ msgs, Incoming 256 m) ∧
    link.incoming <+: encodeAll tcpMessage msgs

/-- An iteration of the loop is worth the messages that came whole on its connection, and returns, unless the
    signal comes. -/
theorem mainStep_whole {p : MainPass} (h : p.Bridged) (hgoes : ¬ p.Signalled) :
    (mainStep true p).1 = true ∧
      (mainStep true p).2.toList.flatMap ConnectionOut.handled = p.whole.flatMap handlerCalls ∧
      (mainStep true p).2.toList.flatMap ConnectionOut.stores = p.whole.flatMap messageStores := by
  rw [mainStep, if_pos rfl, MainPass.whole]
  cases hconnected : p.connected with
  | none => exact ⟨rfl, rfl, rfl⟩
  | some link =>
      obtain ⟨msgs, hmsgs, hfront⟩ := h link hconnected
      obtain ⟨hwhole, cut, hcut, hincoming⟩ := messagesIn_front hmsgs hfront
      have hsame : signalledConnection p.signal p.newTime p.frames p.storages link =
          lncConnection p.newTime p.frames p.storages link :=
        (signalledConnection_interrupts _ _ _ _ _).goes fun k hk ↦
          Bool.eq_false_iff.mpr fun hsignal ↦ hgoes ⟨link, hconnected, k, hk, hsignal⟩
      have hdrains := lncConnection_cutOff p.newTime p.frames p.storages hcut
        (fun m hm ↦ hmsgs m (hwhole.subset hm)) hincoming
      simp only [Option.toList_some, List.flatMap_singleton, hsame]
      exact ⟨hdrains.returned, hdrains.handled, hdrains.stores⟩

theorem mainStep_signalled {p : MainPass} (h : p.Bridged) (hends : p.Signalled) :
    (mainStep true p).1 = false ∧ ∃ taken, taken <+: p.whole ∧
      (mainStep true p).2.toList.flatMap ConnectionOut.handled = taken.flatMap handlerCalls ∧
      (mainStep true p).2.toList.flatMap ConnectionOut.stores = taken.flatMap messageStores := by
  obtain ⟨link, hconnected, hsignal⟩ := hends
  obtain ⟨msgs, hmsgs, hfront⟩ := h link hconnected
  obtain ⟨hwhole, cut, hcut, hincoming⟩ := messagesIn_front hmsgs hfront
  have hstops := ((signalledConnection_interrupts _ _ _ _ _).ends hsignal).2
  rw [mainStep, if_pos rfl, MainPass.whole, show p.connected = some link from hconnected]
  simp only [Option.toList_some, List.flatMap_singleton]
  refine ⟨hstops, ?_⟩
  cases signalledConnection_ends p.signal p.newTime p.frames p.storages hcut
    (fun m hm ↦ hmsgs m (hwhole.subset hm)) hincoming with
  | drained hdrains => exact ⟨_, List.prefix_refl _, hdrains.handled, hdrains.stores⟩
  | signalled _ htakes =>
      obtain ⟨consumed, unread, -, -, hsplit, -, hhandled, hstores⟩ := htakes
      exact ⟨consumed, ⟨unread, hsplit.symm⟩, hhandled, hstores⟩

theorem mainStep_ended (passes : List MainPass) :
    runState mainStep false passes = false ∧
      ∀ out ∈ runOutputs mainStep false passes, out = none := by
  induction passes with
  | nil => exact ⟨rfl, fun out hout ↦ absurd hout List.not_mem_nil⟩
  | cons p passes ih => exact ⟨ih.1, List.forall_mem_cons.mpr ⟨rfl, ih.2⟩⟩

theorem outputs_ended {α : Type} (out : ConnectionOut → List α) (passes : List MainPass) :
    ((runOutputs mainStep false passes).flatMap fun o ↦ o.toList.flatMap out) = [] := by
  rw [List.flatMap_eq_nil_iff]
  intro o ho
  rw [(mainStep_ended passes).2 o ho]
  rfl

/-- Whatever connections fail or drop, behind whatever byte: the loop stores each message that came whole
    once, in order, and nothing of the others, and it goes on until a signal ends the process. -/
theorem stored_passes (passes : List MainPass) (h : ∀ p ∈ passes, p.Bridged) :
    ∃ taken, TakenBy passes taken ∧
      (runState mainStep true passes = true ↔ ∀ p ∈ passes, ¬ p.Signalled) ∧
      mainHandled passes = taken.flatMap handlerCalls ∧
      mainStores passes = taken.flatMap messageStores := by
  induction passes with
  | nil => exact ⟨[], .nil, iff_of_true rfl fun p hp ↦ absurd hp List.not_mem_nil, rfl, rfl⟩
  | cons p passes ih =>
      have hbridged := h p List.mem_cons_self
      by_cases hsignal : p.Signalled
      · obtain ⟨hstops, taken, hfront, hhandled, hstores⟩ := mainStep_signalled hbridged hsignal
        refine ⟨taken, .signalled hsignal hfront, ?_, ?_, ?_⟩
        · rw [runState_cons, hstops, (mainStep_ended passes).1]
          exact iff_of_false Bool.false_ne_true fun hnone ↦ hnone p List.mem_cons_self hsignal
        · rw [mainHandled, runOutputs, List.flatMap_cons, hstops, hhandled, outputs_ended, List.append_nil]
        · rw [mainStores, runOutputs, List.flatMap_cons, hstops, hstores, outputs_ended, List.append_nil]
      · obtain ⟨hgoes, hhandled, hstores⟩ := mainStep_whole hbridged hsignal
        obtain ⟨taken, htaken, hrun, hmore, hstored⟩ := ih fun q hq ↦ h q (List.mem_cons_of_mem p hq)
        rw [mainHandled] at hmore
        rw [mainStores] at hstored
        refine ⟨p.whole ++ taken, .whole hsignal htaken, ?_, ?_, ?_⟩
        · rw [runState_cons, hgoes, hrun, List.forall_mem_cons, and_iff_right hsignal]
        · rw [mainHandled, runOutputs, List.flatMap_cons, hgoes, hhandled, hmore, List.flatMap_append]
        · rw [mainStores, runOutputs, List.flatMap_cons, hgoes, hstores, hstored, List.flatMap_append]

theorem TakenBy.front {passes : List MainPass} {taken : List Bytes} (h : TakenBy passes taken) :
    taken <+: passes.flatMap MainPass.whole := by
  induction h with
  | nil => exact List.prefix_refl _
  | whole _ _ ih =>
      rw [List.flatMap_cons]
      exact (List.prefix_append_right_inj _).mpr ih
  | signalled _ hfront => exact hfront.trans (List.prefix_append _ _)

theorem TakenBy.all {passes : List MainPass} {taken : List Bytes} (h : TakenBy passes taken)
    (hgoes : ∀ p ∈ passes, ¬ p.Signalled) : taken = passes.flatMap MainPass.whole := by
  induction h with
  | nil => rfl
  | whole _ _ ih =>
      rw [List.flatMap_cons, ih fun q hq ↦ hgoes q (List.mem_cons_of_mem _ hq)]
  | signalled hends _ => exact absurd hends (hgoes _ List.mem_cons_self)

theorem noBytes_length : ([] : Bytes).length < 65536 := by decide

def emptyReport : Bytes :=
  tlvMessage protoTagKeepAlive (tlvBytes [⟨protoFieldMeasurementRecord, [], noBytes_length⟩])

theorem emptyReport_incoming : Incoming 256 emptyReport :=
  incoming_tlvMessage (by decide) (by decide)
    { width := List.forall_mem_singleton.mpr (by decide)
      records := List.forall_mem_singleton.mpr fun _ ↦ ⟨[], rfl, fun f hf ↦ absurd hf List.not_mem_nil⟩ }

end SubmarineMonitor
