import SubmarineMonitor.CentralComputer.LncReceive
import SubmarineMonitor.CentralComputer.ManagementCommand
import SubmarineMonitor.Reasoning.Runs

/-!
# Connection — one LNC connection of `main.cpp`, and any sequence of commands on it

The clock is synchronised and then telemetry is streamed until the link drops.  Each step takes its
messages with `CcCore_LncRecvMessage`, so the store calls made over a connection are those of the
telemetry received, in order (`lnc_link_exact`).
-/

open Reasoning

namespace SubmarineMonitor

/-! ## 1. The connection of `main` -/

/-- What a part of a connection does: the messages it sends, the handler calls and the store calls, the
    tags it reports as unhandled, whether it returns, and whether a signal has ended the process. -/
structure ConnectionOut where
  link : LncLink
  sent : List Bytes := []
  handled : List HandlerCall := []
  stores : List DcaStore := []
  unhandled : List UInt8 := []
  returned : Bool := true
  killed : Bool := false

def ConnectionOut.andThen (first rest : ConnectionOut) : ConnectionOut where
  link := rest.link
  sent := first.sent ++ rest.sent
  handled := first.handled ++ rest.handled
  stores := first.stores ++ rest.stores
  unhandled := first.unhandled ++ rest.unhandled
  returned := rest.returned
  killed := rest.killed

def MessageOut.connection (r : MessageOut) : ConnectionOut :=
  { link := r.link, handled := r.handled, stores := r.stores, returned := r.result.isSome }

def streamOne (storage : Mem) (link : LncLink) : ConnectionOut × Bool :=
  let r := ccCoreLncRecvMessage link storage 256
  match r.result with
  | none => (r.connection, false)
  -- disconnected
  | some none => (r.connection, false)
  | some (some m) =>
      if m.tag = protoTagEventReport then
        let handled : HandlerCall := { tag := m.tag, value := slice m.value 0 m.valueLen }
        match ccCorePrintEventReport m.value m.valueLen with
        | none =>
            (r.connection.andThen { link := r.link, handled := [handled], returned := false }, false)
        | some stores => (r.connection.andThen { link := r.link, handled := [handled], stores }, true)
      else (r.connection.andThen { link := r.link, unhandled := [m.tag] }, true)

/-- `storages` are the uninitialised buffers of the iterations. -/
def streamingLoop : Nat → (Nat → Mem) → LncLink → ConnectionOut
  | 0, _, link => { link, returned := false }
  | fuel + 1, storages, link =>
      let one := streamOne (storages 0) link
      if one.2 then one.1.andThen (streamingLoop fuel (fun i ↦ storages (i + 1)) one.1.link)
      else one.1

/-- Each message that does not end the loop has been taken from the connection. -/
def stream (storages : Nat → Mem) (link : LncLink) : ConnectionOut :=
  streamingLoop (link.incoming.length + 1) storages link

def CommandOut.connection {α : Type} (c : CommandOut α) : ConnectionOut :=
  { link := c.received.link, sent := [c.sent], handled := c.received.handled
    stores := c.received.stores, returned := c.result.isSome }

def runCommand {α : Type} (c : CommandOut α) (next : Option α → ConnectionOut) : ConnectionOut :=
  match c.result with
  | none => c.connection
  | some result => c.connection.andThen (next result)

/-- A command whose `send` may find the connection closed: SIGPIPE then ends the process. -/
def sendCommand {α : Type} (signal : Bool) (link : LncLink) (c : CommandOut α)
    (next : Option α → ConnectionOut) : ConnectionOut :=
  if signal then { link, returned := false, killed := true } else runCommand c next

/-- From the connect to the disconnect.  `newTime` is the time of the machine; the final comparison of
    the times only selects a message.  `signal` says at which of the commands SIGPIPE comes. -/
def signalledConnection (signal : Nat → Bool) (newTime : UInt32) (frames : Nat → CommandFrame)
    (storages : Nat → Mem) (link : LncLink) : ConnectionOut :=
  let initial := ccCoreGetTime (frames 0) link
  sendCommand (signal 0) link initial fun initialTime ↦
    match initialTime with
    | none => stream storages initial.received.link
    | some _ =>
        let set := ccCoreSetRtc newTime (frames 1) initial.received.link
        sendCommand (signal 1) initial.received.link set fun status ↦
          if status = some protoStatusSuccess then
            let confirmed := ccCoreGetTime (frames 2) set.received.link
            sendCommand (signal 2) set.received.link confirmed fun _ ↦
              stream storages confirmed.received.link
          else stream storages set.received.link

def lncConnection (newTime : UInt32) (frames : Nat → CommandFrame) (storages : Nat → Mem)
    (link : LncLink) : ConnectionOut :=
  signalledConnection (fun _ ↦ false) newTime frames storages link

/-! ## 2. Commands in any order -/

inductive LncCommand
  | getTime (frame : CommandFrame)
  | setRtc (newTime : UInt32) (frame : CommandFrame)
  | setBatteryWarningMin (newMinMv : UInt16) (frame : CommandFrame)
  | getMeasurements (startTime endTime : UInt32) (stack : Nat → PageFrame)
  | getEvents (startTime endTime : UInt32) (stack : Nat → PageFrame)
  | streamed (storage : Mem)

def LncCommand.storageCap : LncCommand → Nat
  | .getMeasurements .. | .getEvents .. => 300
  | _ => 256

def QueryOut.connection {α : Type} (q : QueryOut α) : ConnectionOut :=
  { link := q.link, sent := q.sent, handled := q.handled, stores := q.stores, returned := q.returned }

def LncCommand.run (link : LncLink) : LncCommand → ConnectionOut
  | .getTime frame => (ccCoreGetTime frame link).connection
  | .setRtc newTime frame => (ccCoreSetRtc newTime frame link).connection
  | .setBatteryWarningMin newMinMv frame =>
      (ccCoreSetBatteryWarningMin newMinMv frame link).connection
  | .getMeasurements startTime endTime stack =>
      (ccCoreGetMeasurements startTime endTime stack link).connection
  | .getEvents startTime endTime stack => (ccCoreGetEvents startTime endTime stack link).connection
  | .streamed storage => (streamOne storage link).1

/-- A run stands still behind a command that does not return. -/
def lncStep (s : LncLink × Bool) (c : LncCommand) : (LncLink × Bool) × ConnectionOut :=
  if s.2 then
    let out := c.run s.1
    ((out.link, out.returned), out)
  else (s, { link := s.1, returned := false })

def recvStep (link : LncLink) (c : Nat × Mem) : LncLink × MessageOut :=
  let out := ccCoreLncRecvMessage link c.2 c.1
  (out.link, out)

/-! ## 3. Each command -/

section Command

variable {msgs : List Bytes} {link : LncLink}

structure Drains (msgs : List Bytes) (out : ConnectionOut) : Prop where
  handled : out.handled = msgs.flatMap handlerCalls
  stores : out.stores = msgs.flatMap messageStores
  ended : out.link.incoming = []
  returned : out.returned = true

theorem Incoming.mono {storageCap cap : Nat} {m : Bytes} (h : Incoming storageCap m)
    (hcap : storageCap ≤ cap) : Incoming cap m where
  pos := h.pos
  fits := Nat.le_trans h.fits hcap
  wellFormed := h.wellFormed

theorem Returns.not_eventReport {m : Bytes} {reply : LncMessage} (hm : IsReply m)
    (h : Returns m (some (some reply))) : reply.tag ≠ protoTagEventReport := by
  obtain ⟨d, hd, ht⟩ := hm
  obtain ⟨d', v, hd', -, hreply⟩ := h
  cases hd.symm.trans hd'
  cases hreply
  exact fun htag ↦ ht (.inr htag)

/-- What is consumed first, and then the rest of it. -/
theorem Consumes.andThen_drains {first rest : ConnectionOut}
    (h : Consumes msgs first.link first.handled first.stores)
    (hrest : ∀ unread, (∀ m ∈ unread, m ∈ msgs) → first.link.incoming = encodeAll tcpMessage unread →
      Drains unread rest) : Drains msgs (first.andThen rest) := by
  obtain ⟨consumed, unread, rfl, hleft, hhandled, hstores⟩ := h
  have hdrains := hrest unread (fun m hm ↦ List.mem_append_right _ hm) hleft
  refine { handled := ?_, stores := ?_, ended := hdrains.ended, returned := hdrains.returned }
  · rw [ConnectionOut.andThen, hhandled, hdrains.handled, List.flatMap_append]
  · rw [ConnectionOut.andThen, hstores, hdrains.stores, List.flatMap_append]

theorem expectReply_receives {α : Type} {respTag : UInt8} {minLen : Nat} {read : Mem → α}
    {sent : Bytes} {frame : CommandFrame} (hmsgs : ∀ m ∈ msgs, Incoming 256 m)
    (h : link.incoming = encodeAll tcpMessage msgs) :
    Receives msgs (expectReply respTag minLen read sent frame link).received ∧
      (expectReply respTag minLen read sent frame link).result ≠ none := by
  have hr := ccCoreLncRecvMessage_receives (by decide) hmsgs link frame.storage h
  refine ⟨hr, ?_⟩
  rw [expectReply]
  dsimp only
  -- the call returns, and so does the command
  cases hr with
  | reply _ _ _ _ hresult _ =>
      obtain ⟨d, v, -, -, hresult⟩ := hresult
      rw [hresult]
      dsimp only
      split
      · simp
      · simp
  | ended _ _ _ hresult _ =>
      rw [hresult]
      simp

theorem ccCoreGetTime_receives (frame : CommandFrame) (hmsgs : ∀ m ∈ msgs, Incoming 256 m)
    (h : link.incoming = encodeAll tcpMessage msgs) :
    Receives msgs (ccCoreGetTime frame link).received ∧ (ccCoreGetTime frame link).result ≠ none :=
  expectReply_receives hmsgs h

theorem ccCoreSetRtc_receives (newTime : UInt32) (frame : CommandFrame)
    (hmsgs : ∀ m ∈ msgs, Incoming 256 m) (h : link.incoming = encodeAll tcpMessage msgs) :
    Receives msgs (ccCoreSetRtc newTime frame link).received ∧
      (ccCoreSetRtc newTime frame link).result ≠ none :=
  expectReply_receives hmsgs h

theorem pagedQueryLoop_consumes {α : Type} (reqTag respTag recordTag : UInt8)
    (print : Mem → Nat → Option α) (startTime endTime : UInt32) (fuel : Nat)
    (stack : Nat → PageFrame) (cursor : PageCursor) (totalRecords : Nat)
    (hmsgs : ∀ m ∈ msgs, Incoming 300 m) (h : link.incoming = encodeAll tcpMessage msgs) :
    let out := pagedQueryLoop reqTag respTag recordTag print startTime endTime fuel stack cursor
      totalRecords link
    Consumes msgs out.link out.handled out.stores := by
  -- induction on the pages
  induction fuel generalizing msgs link stack cursor totalRecords with
  | zero => exact consumes_nothing h
  | succ fuel ih =>
      have hr := (ccCoreLncRecvMessage_receives (by decide) hmsgs link (stack 0).storage h).consumes
      rcases pagedQueryLoop_page reqTag respTag recordTag print startTime endTime fuel stack cursor
        totalRecords link with ⟨printed, total, returned, hout⟩ | ⟨m, printed, next, total, -, hout⟩
      · dsimp only
        rw [hout]
        exact hr
      · dsimp only
        rw [hout]
        exact hr.trans fun unread hin hleft ↦ ih _ next total (fun x hx ↦ hmsgs x (hin x hx)) hleft

/-- The branch of the streaming loop for an EVENT_REPORT is never taken, so an iteration handles and
    stores what its call does. -/
theorem streamOne_receives (storage : Mem) (hmsgs : ∀ m ∈ msgs, Incoming 256 m)
    (h : link.incoming = encodeAll tcpMessage msgs) :
    Consumes msgs (streamOne storage link).1.link (streamOne storage link).1.handled
        (streamOne storage link).1.stores ∧
      ((streamOne storage link).2 = false → Drains msgs (streamOne storage link).1) ∧
      ((streamOne storage link).2 = true → ∃ front m later, msgs = front ++ m :: later ∧
        (streamOne storage link).1.link.incoming = encodeAll tcpMessage later) := by
  have hr := ccCoreLncRecvMessage_receives (by decide) hmsgs link storage h
  have hconsumes := hr.consumes
  rw [streamOne]
  generalize ccCoreLncRecvMessage link storage 256 = r at hr hconsumes
  cases hr with
  | @reply front later m _ _ hm _ _ hresult hleft =>
      obtain ⟨reply, hreply⟩ : ∃ reply, r.result = some (some reply) := by
        obtain ⟨d, v, -, -, hresult⟩ := hresult
        exact ⟨_, hresult⟩
      rw [hreply] at hresult
      dsimp only
      rw [hreply]
      dsimp only
      rw [if_neg (hresult.not_eventReport hm)]
      refine ⟨?_, fun hstop ↦ absurd hstop (by simp), fun _ ↦ ⟨front, m, later, rfl, hleft⟩⟩
      simp only [ConnectionOut.andThen, MessageOut.connection, List.append_nil]
      exact hconsumes
  | ended _ hhandled hstores hresult hleft =>
      dsimp only
      rw [hresult]
      have hdrains : Drains msgs r.connection :=
        { handled := hhandled, stores := hstores, ended := hleft
          returned := by rw [MessageOut.connection, hresult]; rfl }
      exact ⟨hconsumes, fun _ ↦ hdrains, fun hgoes ↦ absurd hgoes (by simp)⟩

theorem LncCommand.run_consumes (c : LncCommand) (hmsgs : ∀ m ∈ msgs, Incoming c.storageCap m)
    (h : link.incoming = encodeAll tcpMessage msgs) :
    Consumes msgs (c.run link).link (c.run link).handled (c.run link).stores := by
  cases c with
  | getTime frame => exact (ccCoreGetTime_receives frame hmsgs h).1.consumes
  | setRtc newTime frame => exact (ccCoreSetRtc_receives newTime frame hmsgs h).1.consumes
  | setBatteryWarningMin newMinMv frame => exact (expectReply_receives hmsgs h).1.consumes
  | getMeasurements startTime endTime stack =>
      exact pagedQueryLoop_consumes _ _ _ _ _ _ _ _ _ _ hmsgs h
  | getEvents startTime endTime stack =>
      exact pagedQueryLoop_consumes _ _ _ _ _ _ _ _ _ _ hmsgs h
  | streamed storage => exact (streamOne_receives storage hmsgs h).1

/-! ## 4. The whole connection -/

theorem sendCommand_false {α : Type} (link : LncLink) (c : CommandOut α)
    (next : Option α → ConnectionOut) : sendCommand false link c next = runCommand c next := rfl

theorem streamingLoop_drains {fuel : Nat} (storages : Nat → Mem)
    (hmsgs : ∀ m ∈ msgs, Incoming 256 m) (h : link.incoming = encodeAll tcpMessage msgs)
    (hfuel : link.incoming.length < fuel) : Drains msgs (streamingLoop fuel storages link) := by
  -- induction on the iterations; each one that goes on has consumed a reply
  induction fuel generalizing msgs link storages with
  | zero => omega
  | succ fuel ih =>
      obtain ⟨hconsumes, hlast, hgoes⟩ := streamOne_receives (storages 0) hmsgs h
      rw [streamingLoop]
      by_cases hmore : (streamOne (storages 0) link).2 = true
      · obtain ⟨front, m, later, hsplit, hleft⟩ := hgoes hmore
        have hless : (streamOne (storages 0) link).1.link.incoming.length < fuel := by
          have hm := tcpMessage_length m
          rw [h, hsplit, encodeAll_append, encodeAll_cons, List.length_append, List.length_append]
            at hfuel
          rw [hleft]
          omega
        rw [if_pos hmore]
        exact hconsumes.andThen_drains fun unread hin hunread ↦
          ih _ (fun x hx ↦ hmsgs x (hin x hx)) hunread hless
      · rw [if_neg hmore]
        exact hlast (Bool.eq_false_iff.mpr hmore)

theorem stream_drains (storages : Nat → Mem) (hmsgs : ∀ m ∈ msgs, Incoming 256 m)
    (h : link.incoming = encodeAll tcpMessage msgs) : Drains msgs (stream storages link) :=
  streamingLoop_drains storages hmsgs h (Nat.lt_succ_self _)

theorem runCommand_drains {α : Type} {c : CommandOut α} {next : Option α → ConnectionOut}
    (hr : Receives msgs c.received) (hresult : c.result ≠ none)
    (hnext : ∀ result unread, (∀ m ∈ unread, m ∈ msgs) →
      c.received.link.incoming = encodeAll tcpMessage unread → Drains unread (next result)) :
    Drains msgs (runCommand c next) := by
  have hconsumes : Consumes msgs c.connection.link c.connection.handled c.connection.stores :=
    hr.consumes
  rw [runCommand]
  cases hc : c.result with
  | none => exact absurd hc hresult
  | some result => exact hconsumes.andThen_drains fun unread hin hleft ↦ hnext result unread hin hleft

theorem lncConnection_drains (newTime : UInt32) (frames : Nat → CommandFrame)
    (storages : Nat → Mem) (hmsgs : ∀ m ∈ msgs, Incoming 256 m)
    (h : link.incoming = encodeAll tcpMessage msgs) :
    Drains msgs (lncConnection newTime frames storages link) := by
  obtain ⟨hget, hgot⟩ := ccCoreGetTime_receives (frames 0) hmsgs h
  simp only [lncConnection, signalledConnection, sendCommand_false]
  apply runCommand_drains hget hgot
  intro initialTime unread hin hleft
  have hunread : ∀ m ∈ unread, Incoming 256 m := fun m hm ↦ hmsgs m (hin m hm)
  cases initialTime with
  | none => exact stream_drains storages hunread hleft
  | some time =>
      obtain ⟨hset, hacked⟩ := ccCoreSetRtc_receives newTime (frames 1) hunread hleft
      apply runCommand_drains hset hacked
      intro status left hin' hleft'
      have hleftover : ∀ m ∈ left, Incoming 256 m := fun m hm ↦ hunread m (hin' m hm)
      by_cases hstatus : status = some protoStatusSuccess
      · rw [if_pos hstatus]
        obtain ⟨hconfirm, hconfirmed⟩ := ccCoreGetTime_receives (frames 2) hleftover hleft'
        apply runCommand_drains hconfirm hconfirmed
        intro confirmedTime last hin'' hlast
        exact stream_drains storages (fun m hm ↦ hleftover m (hin'' m hm)) hlast
      · rw [if_neg hstatus]
        exact stream_drains storages hleftover hleft'

end Command

/-! ## 5. Runs -/

/-- The store calls a message is worth: one `DCA_StoreMeasurement` for a KEEP_ALIVE with a
    MEASUREMENT_RECORD, none for one without, one `DCA_StoreEvent` for an EVENT_REPORT, and none for
    any other message. -/
structure StoresOnce (m : Bytes) : Prop where
  measured : ∀ d fs, decodeMessage m = some d → d.tag = protoTagKeepAlive → d.value = tlvBytes fs →
    (∃ f ∈ fs, f.tag = protoFieldMeasurementRecord) → ∃ x, messageStores m = [.measurement x]
  unmeasured : ∀ d fs, decodeMessage m = some d → d.tag = protoTagKeepAlive →
    d.value = tlvBytes fs → (∀ f ∈ fs, f.tag ≠ protoFieldMeasurementRecord) → messageStores m = []
  event : ∀ d, decodeMessage m = some d → d.tag = protoTagEventReport →
    ∃ e, messageStores m = [.event e]
  other : (∀ d, decodeMessage m = some d → ¬ d.IsTelemetry) → messageStores m = []

structure LncExact (storageCap : Nat) (msgs : List Bytes) : Prop where
  /-- Each call handles what is in front of the first reply, and returns that reply. -/
  call : ∀ link cap storage, link.incoming = encodeAll tcpMessage msgs → storageCap ≤ cap →
    cap ≤ 65535 → Receives msgs (ccCoreLncRecvMessage link storage cap)
  /-- So does every call of a sequence, on what the calls before it left. -/
  calls : ∀ link (cs : List (Nat × Mem)), link.incoming = encodeAll tcpMessage msgs →
    (∀ c ∈ cs, storageCap ≤ c.1 ∧ c.1 ≤ 65535) →
    Consumes msgs (runState recvStep link cs)
        ((runOutputs recvStep link cs).flatMap MessageOut.handled)
        ((runOutputs recvStep link cs).flatMap MessageOut.stores) ∧
      ∀ p ∈ runSteps recvStep link cs, ∃ left, left <:+ msgs ∧
        p.1.incoming = encodeAll tcpMessage left ∧ Receives left (recvStep p.1 p.2).2
  /-- A sequence of commands handles and stores what it consumes. -/
  commands : ∀ link (cs : List LncCommand), link.incoming = encodeAll tcpMessage msgs →
    (∀ c ∈ cs, storageCap ≤ c.storageCap) →
    Consumes msgs (runState lncStep (link, true) cs).1
      ((runOutputs lncStep (link, true) cs).flatMap ConnectionOut.handled)
      ((runOutputs lncStep (link, true) cs).flatMap ConnectionOut.stores)
  /-- A connection of `main` handles and stores all of it. -/
  connection : ∀ link newTime frames storages, link.incoming = encodeAll tcpMessage msgs →
    storageCap ≤ 256 → Drains msgs (lncConnection newTime frames storages link)
  once : ∀ m ∈ msgs, StoresOnce m

theorem storesOnce (m : Bytes) : StoresOnce m where
  measured := by
    rintro d fs hd htag hfs ⟨f, hf, hrecord⟩
    rw [messageStores, hd]
    dsimp only
    rw [if_pos htag, hfs, siblings_complete, keepAliveStores]
    cases hfield : fieldOf protoFieldMeasurementRecord fs with
    | none => exact absurd hrecord (fieldOf_none hfield f hf)
    | some record => exact ⟨_, rfl⟩
  unmeasured := by
    intro d fs hd htag hfs hall
    have hfield : fieldOf protoFieldMeasurementRecord fs = none := by
      rw [fieldOf, Option.map_eq_none_iff, List.find?_eq_none]
      exact fun f hf ↦ mt of_decide_eq_true (hall f hf)
    rw [messageStores, hd]
    dsimp only
    rw [if_pos htag, hfs, siblings_complete, keepAliveStores, hfield]
  event := by
    intro d hd htag
    have hother : ¬ d.tag = protoTagKeepAlive := by
      rw [htag]
      decide
    rw [messageStores, hd]
    dsimp only
    rw [if_neg hother, if_pos htag]
    exact ⟨_, rfl⟩
  other := by
    intro h
    cases hd : decodeMessage m with
    | none => exact (rejected_worth hd).2
    | some d => exact (reply_worth ⟨d, hd, h d hd⟩).2

section Run

variable {storageCap : Nat} {msgs : List Bytes}

theorem recvStep_run (hmsgs : ∀ m ∈ msgs, Incoming storageCap m) (cs : List (Nat × Mem))
    (hcs : ∀ c ∈ cs, storageCap ≤ c.1 ∧ c.1 ≤ 65535) (link : LncLink)
    (h : link.incoming = encodeAll tcpMessage msgs) :
    Consumes msgs (runState recvStep link cs)
        ((runOutputs recvStep link cs).flatMap MessageOut.handled)
        ((runOutputs recvStep link cs).flatMap MessageOut.stores) ∧
      ∀ p ∈ runSteps recvStep link cs, ∃ left, left <:+ msgs ∧
        p.1.incoming = encodeAll tcpMessage left ∧ Receives left (recvStep p.1 p.2).2 := by
  -- induction on the calls; each one leaves a suffix of the messages
  induction cs generalizing msgs link with
  | nil => exact ⟨consumes_nothing h, fun p hp ↦ absurd hp List.not_mem_nil⟩
  | cons c cs ih =>
      obtain ⟨hcap, hmax⟩ := hcs c List.mem_cons_self
      have hr := ccCoreLncRecvMessage_receives hmax (fun m hm ↦ (hmsgs m hm).mono hcap) link c.2 h
      have hmore : ∀ c' ∈ cs, storageCap ≤ c'.1 ∧ c'.1 ≤ 65535 :=
        fun c' hc' ↦ hcs c' (List.mem_cons_of_mem c hc')
      obtain ⟨consumed, unread, hsplit, hleft, -⟩ := hr.consumes
      have hunread : ∀ m ∈ unread, Incoming storageCap m := fun m hm ↦
        hmsgs m (hsplit ▸ List.mem_append_right _ hm)
      refine ⟨hr.consumes.trans fun rest hin hrest ↦
        (ih (fun m hm ↦ hmsgs m (hin m hm)) hmore _ hrest).1, ?_⟩
      rw [runSteps, List.forall_mem_cons]
      refine ⟨⟨msgs, List.suffix_refl _, h, hr⟩, fun p hp ↦ ?_⟩
      obtain ⟨left, htail, hin, hrecv⟩ := (ih hunread hmore _ hleft).2 p hp
      exact ⟨left, hsplit ▸ htail.trans (List.suffix_append consumed unread), hin, hrecv⟩

theorem lncStep_run (hmsgs : ∀ m ∈ msgs, Incoming storageCap m) (cs : List LncCommand)
    (hcs : ∀ c ∈ cs, storageCap ≤ c.storageCap) (s : LncLink × Bool)
    (h : s.1.incoming = encodeAll tcpMessage msgs) :
    Consumes msgs (runState lncStep s cs).1
      ((runOutputs lncStep s cs).flatMap ConnectionOut.handled)
      ((runOutputs lncStep s cs).flatMap ConnectionOut.stores) := by
  induction cs generalizing msgs s with
  | nil => exact consumes_nothing h
  | cons c cs ih =>
      have hstep : Consumes msgs (lncStep s c).1.1 (lncStep s c).2.handled (lncStep s c).2.stores := by
        rw [lncStep]
        by_cases hruns : s.2 = true
        · rw [if_pos hruns]
          exact c.run_consumes (fun m hm ↦ (hmsgs m hm).mono (hcs c List.mem_cons_self)) h
        · rw [if_neg hruns]
          exact consumes_nothing h
      exact hstep.trans fun unread hin hleft ↦ ih (fun m hm ↦ hmsgs m (hin m hm))
        (fun c' hc' ↦ hcs c' (List.mem_cons_of_mem c hc')) (lncStep s c).1 hleft

end Run

theorem lnc_link_exact (storageCap : Nat) (msgs : List Bytes)
    (hmsgs : ∀ m ∈ msgs, Incoming storageCap m) : LncExact storageCap msgs where
  call link _ storage h hcap hmax :=
    ccCoreLncRecvMessage_receives hmax (fun m hm ↦ (hmsgs m hm).mono hcap) link storage h
  calls link cs h hcs := recvStep_run hmsgs cs hcs link h
  commands link cs h hcs := lncStep_run hmsgs cs hcs (link, true) h
  connection _ newTime frames storages h hcap :=
    lncConnection_drains newTime frames storages (fun m hm ↦ (hmsgs m hm).mono hcap) h
  once m _ := storesOnce m

/-- A KEEP_ALIVE with an empty measurement in front of a CONFIG_ACK. -/
theorem lnc_link_exact_ack :
    LncExact 256 [[0x11, 0x00, 0x03, 0x29, 0x00, 0x00], [0x0C, 0x00, 0x01, 0x00]] := by
  apply lnc_link_exact
  let record : Tlv := { tag := 0x29, value := [], length_lt := by decide }
  have hkeep : WellFormedMessage [0x11, 0x00, 0x03, 0x29, 0x00, 0x00] := by
    intro d hd ht
    obtain rfl : d = { tag := 0x11, len := 3, rest := [0x29, 0x00, 0x00] } := by
      rw [show decodeMessage [0x11, 0x00, 0x03, 0x29, 0x00, 0x00] =
        some { tag := 0x11, len := 3, rest := [0x29, 0x00, 0x00] } by decide] at hd
      exact (Option.some.inj hd).symm
    refine ⟨by decide, [record], by decide, { width := ?_, records := ?_ }⟩
    · exact List.forall_mem_singleton.mpr (by decide)
    · exact List.forall_mem_singleton.mpr fun _ ↦
        ⟨[], rfl, fun f hf ↦ absurd hf List.not_mem_nil⟩
  have hack : WellFormedMessage [0x0C, 0x00, 0x01, 0x00] := by
    intro d hd ht
    rw [show decodeMessage [0x0C, 0x00, 0x01, 0x00] =
      some { tag := 0x0C, len := 1, rest := [0x00] } by decide] at hd
    cases hd
    exact absurd ht (by decide)
  exact List.forall_mem_cons.mpr ⟨⟨by decide, by decide, hkeep⟩,
    List.forall_mem_singleton.mpr ⟨by decide, by decide, hack⟩⟩

end SubmarineMonitor
