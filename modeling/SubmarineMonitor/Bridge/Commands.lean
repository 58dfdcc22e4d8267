import SubmarineMonitor.Bridge.Clients
import SubmarineMonitor.Bridge.Sessions
import SubmarineMonitor.CentralComputer.Requests

/-!
# Commands — from the commands on the PC to the frames on the UART

Clients of the bridge come and go, TCP cuts their streams anywhere, and a payload of the uplink may end a
connection between two pieces of a request.  What is written to the UART are whole frames of requests: of
each client a front of what it asked, one client after the other, each request once (`command_chain`).
-/

open Reasoning

namespace SubmarineMonitor

/-! ## 1. Definitions -/

def downlinkServer (s : BridgeState) (i : IterationInput) : BridgeServer :=
  let accepted := (bridgeServerAccept s.server i.acceptFd).2
  match (uplinkStep s.uplink i.uartChunk).2 with
  | some payload => (bridgeServerSend accepted payload i.sentPrefix i.sentData).1
  | none => accepted

/-- The bridge with its serial line, the clients it has taken, the last one in front, and what is still
    unread of the last one's stream. -/
structure CommandedState where
  bridge : BridgeState
  serialFd : Int
  clients : List CoreClient
  unread : Bytes

/-- `client` is the one that connects, if one does, and `written` is what `write` returns. -/
structure CommandedInput extends IterationInput where
  client : CoreClient
  written : Int

structure CommandedOutput where
  frame : Option Bytes
  uart : Bytes

def CommandedState.accept (w : CommandedState) (i : CommandedInput) : CommandedState :=
  if TakesClient w.bridge i.toIterationInput then
    { w with clients := i.client :: w.clients, unread := i.client.sends.flatten }
  else w

def commandedStep (w : CommandedState) (i : CommandedInput) : CommandedState × CommandedOutput :=
  let next := bridgeIteration w.bridge i.toIterationInput
  let accepted := w.accept i
  let read := bytesRead (downlinkServer w.bridge i.toIterationInput) i.recvOutcome
  ({ accepted with bridge := next.1, unread := accepted.unread.drop read.length },
    { frame := next.2.uartBytes
      uart := (next.2.uartBytes.map fun frame ↦ transportSend w.serialFd frame i.written).getD [] })

/-- `recv` returns what comes next on the client's stream, and `write` takes a frame as a whole or not at
    all. -/
structure ClientsRead (w : CommandedState) (i : CommandedInput) : Prop where
  fits : RecvFits (downlinkServer w.bridge i.toIterationInput) i.recvOutcome
  reads : bytesRead (downlinkServer w.bridge i.toIterationInput) i.recvOutcome <+: (w.accept i).unread
  whole : ∀ frame ∈ (commandedStep w i).2.frame,
    w.serialFd < 0 ∨ i.written ≤ 0 ∨ i.written = frame.length

def WritesFrame (w : CommandedState) (i : CommandedInput) : Prop :=
  ∀ frame ∈ (commandedStep w i).2.frame, (commandedStep w i).2.uart = frame

structure CommandedState.Initial (w : CommandedState) : Prop where
  server : ∃ listenFd recvBuf, w.bridge.server = bridgeServerInit listenFd recvBuf
  clients : w.clients = []

/-- Of the requests of each client, in front the ones that were framed; the others of the last client are
    what waits and what is unread, while it is connected. -/
structure Framed (server : BridgeServer) (unread : Bytes) (clients : List CoreClient)
    (frames : List Bytes) : Prop where
  len : server.recvLen ≤ bridgeRecvBufSize
  fd : server.clientFd = -1 ∨ 0 ≤ server.clientFd
  given : ∃ given : List (List LncRequest × List LncRequest),
    List.Forall₂ (fun client x ↦ client.Asked (x.1 ++ x.2)) clients given ∧
    frames = (given.reverse.flatMap (·.1)).map (fun r ↦ frameOf r.message) ∧
    (0 ≤ server.clientFd → ∃ done rest older, given = (done, rest) :: older ∧
      server.live ++ unread = encodeAll LncRequest.sent rest)

/-! ## 2. The parts of an iteration -/

theorem bridgeIteration_downlink (s : BridgeState) (i : IterationInput) :
    (bridgeIteration s i).1.server =
        (downlinkStep (downlinkServer s i) i.stack i.recvOutcome).1 ∧
      (bridgeIteration s i).2.uartBytes =
        (downlinkStep (downlinkServer s i) i.stack i.recvOutcome).2 := by
  rw [bridgeIteration, downlinkServer]
  dsimp only
  cases (uplinkStep s.uplink i.uartChunk).2 with
  | none => exact ⟨rfl, rfl⟩
  | some payload => exact ⟨rfl, rfl⟩

theorem downlinkStep_eq {s : BridgeServer} {stack : DownlinkStack} {outcome : RecvOutcome}
    {payload : Option Bytes} (hsize : ∀ p ∈ payload, p.length ≤ 256)
    (h : takenPayload (bridgeServerTryRecv s stack.tcpPayload 256 outcome).count
      (bridgeServerTryRecv s stack.tcpPayload 256 outcome).outBuf = payload) :
    (downlinkStep s stack outcome).1 = (bridgeServerTryRecv s stack.tcpPayload 256 outcome).server ∧
      (downlinkStep s stack outcome).2 = payload.map frameOf := by
  rw [takenPayload] at h
  rw [downlinkStep]
  dsimp only
  generalize bridgeServerTryRecv s stack.tcpPayload 256 outcome = received at h
  by_cases hcount : received.count > 0
  · rw [if_pos hcount] at h ⊢
    subst h
    have hbound := hsize _ rfl
    have hle := frameOf_length_le (slice received.outBuf 0 received.count)
    -- at worst 2 * 256 + 9 bytes
    rw [frameEncode_eq_frameOf received.outBuf received.count stack.framed 600 stack.framedLen
      (by decide) (by omega)]
    refine ⟨rfl, ?_⟩
    dsimp only
    rw [slice_store]
    rfl
  · rw [if_neg hcount] at h ⊢
    subst h
    exact ⟨rfl, rfl⟩

theorem encodeAll_sent (reqs : List LncRequest) :
    encodeAll LncRequest.sent reqs = encodeAll tcpMessage (reqs.map LncRequest.message) :=
  (List.flatMap_map LncRequest.message tcpMessage reqs).symm

theorem LncRequest.messageFits (r : LncRequest) : MessageFits r.message :=
  ⟨r.message_fits.1, Nat.le_trans r.message_fits.2 (by decide)⟩

theorem messages_fit (reqs : List LncRequest) : ∀ p ∈ reqs.map LncRequest.message, MessageFits p := by
  intro p hp
  obtain ⟨r, -, rfl⟩ := List.mem_map.mp hp
  exact r.messageFits

/-! ## 3. One iteration -/

section Step

variable {s : BridgeServer} {unread : Bytes} {clients : List CoreClient} {frames : List Bytes}

theorem Framed.closed {s' : BridgeServer} (h : Framed s unread clients frames)
    (hlen : s'.recvLen ≤ bridgeRecvBufSize) (hfd : s'.clientFd = -1) (unread' : Bytes) :
    Framed s' unread' clients frames where
  len := hlen
  fd := .inl hfd
  given := by
    obtain ⟨given, hasked, hframes, -⟩ := h.given
    exact ⟨given, hasked, hframes, fun hopen ↦ absurd hopen (by rw [hfd]; decide)⟩

theorem Framed.accept {w : CommandedState} (h : Framed w.bridge.server w.unread w.clients frames)
    (i : CommandedInput) :
    Framed (bridgeServerAccept w.bridge.server i.acceptFd).2 (w.accept i).unread (w.accept i).clients
      frames := by
  rcases bridgeServerAccept_cases w.bridge.server i.acceptFd with ⟨b, hsame, hnone⟩ | ⟨hfree, hfd, hnew⟩
  · have htakes : ¬ TakesClient w.bridge i.toIterationInput := by
      rw [TakesClient, hsame]
      exact hnone
    rw [CommandedState.accept, if_neg htakes, hsame]
    exact h
  · have htakes : TakesClient w.bridge i.toIterationInput := ⟨hfree, by rw [hnew]⟩
    rw [CommandedState.accept, if_pos htakes, hnew]
    obtain ⟨given, hasked, hframes, -⟩ := h.given
    obtain ⟨reqs, hreqs⟩ := coreClient_asked i.client
    refine { len := Nat.zero_le _, fd := .inr hfd, given := ⟨([], reqs) :: given, .cons hreqs hasked, ?_,
      fun _ ↦ ⟨[], reqs, given, rfl, ?_⟩⟩ }
    · rw [List.reverse_cons, List.flatMap_append, List.flatMap_singleton, List.append_nil]
      exact hframes
    · -- nothing waits in the emptied accumulator
      dsimp only
      rw [hreqs.sends]
      exact List.flatMap_def.symm

theorem Framed.send (h : Framed s unread clients frames) (payload : Bytes) (sentPrefix sentData : Int) :
    Framed (bridgeServerSend s payload sentPrefix sentData).1 unread clients frames := by
  rcases bridgeServerSend_cases s payload sentPrefix sentData with hsend | hsend
  · rw [hsend]
    exact h
  · rw [hsend]
    exact @Framed.closed s unread clients frames { s with clientFd := -1 } h h.len rfl unread

theorem Framed.downlink (h : Framed s unread clients frames) {stack : DownlinkStack}
    {outcome : RecvOutcome} (hfits : RecvFits s outcome) (hreads : bytesRead s outcome <+: unread) :
    Framed (downlinkStep s stack outcome).1 (unread.drop (bytesRead s outcome).length) clients
      (frames ++ (downlinkStep s stack outcome).2.toList) := by
  rcases h.fd with hfd | hfd
  · -- no client
    have hnone : s.clientFd < 0 := by omega
    have hread : bytesRead s outcome = [] := if_pos hnone
    obtain ⟨hserver, hframe⟩ := @downlinkStep_eq s stack outcome none (fun p hp ↦ by cases hp)
      (by rw [tryRecv_disconnected hnone]; rfl)
    rw [hserver, hframe, tryRecv_disconnected hnone, hread, Option.map_none, Option.toList_none,
      List.append_nil]
    exact h
  by_cases hclose : SeesClose s outcome
  · -- the client has closed
    obtain ⟨hserver, hframe⟩ := @downlinkStep_eq s stack outcome none (fun p hp ↦ by cases hp)
      (by rw [tryRecv_closed hfd hclose]; rfl)
    rw [hserver, hframe, tryRecv_closed hfd hclose, Option.map_none, Option.toList_none,
      List.append_nil]
    exact h.closed (Nat.zero_le _) rfl _
  -- what waits and what is read are in front of the requests that are left
  obtain ⟨given, hasked, hframes, hopen⟩ := h.given
  obtain ⟨done, rest, older, rfl, hleft⟩ := hopen hfd
  have hreceived : receivedBytes s outcome ++ unread.drop (bytesRead s outcome).length =
      encodeAll tcpMessage (rest.map LncRequest.message) := by
    obtain ⟨later, rfl⟩ := hreads
    rw [List.drop_left, receivedBytes, List.append_assoc, hleft, encodeAll_sent]
  obtain ⟨htake, hlen, hfd'⟩ := @tryRecv_eq s stack.tcpPayload 256 outcome h.len hfd hfits hclose
    (.inr (prefixLen_of_stream (messages_fit rest) hreceived))
  obtain ⟨later, hnext, hstays⟩ := takeMessage_delivers stack.tcpPayload _ _ _ (messages_fit rest)
    hreceived
  rw [← htake] at hnext hstays
  dsimp only at hnext hstays
  -- what is taken out is the next request, if any
  obtain ⟨first, last, rfl, hfirst, rfl⟩ := List.map_eq_append_iff.mp hnext.symm
  have hsize : ∀ p ∈ takenPayload (bridgeServerTryRecv s stack.tcpPayload 256 outcome).count
      (bridgeServerTryRecv s stack.tcpPayload 256 outcome).outBuf, p.length ≤ 256 := by
    intro p hp
    refine (messages_fit first p ?_).2
    rw [hfirst]
    exact Option.mem_toList.mpr hp
  obtain ⟨hserver, hframe⟩ := downlinkStep_eq hsize rfl
  have hframed : ((downlinkStep s stack outcome).2).toList = first.map fun r ↦ frameOf r.message := by
    rw [hframe, Option.toList_map, ← hfirst, List.map_map]
    rfl
  rw [hserver, hframed]
  obtain ⟨client, taken, hgiven, holder, rfl⟩ := List.forall₂_cons_right_iff.mp hasked
  refine { len := hlen, fd := .inr (by rw [hfd']; exact hfd), given :=
    ⟨(done ++ first, last) :: older, ?_, ?_, fun _ ↦ ⟨_, _, _, rfl, ?_⟩⟩ }
  · rw [← List.append_assoc] at hgiven
    exact .cons hgiven holder
  · rw [hframes, List.reverse_cons, List.reverse_cons, List.flatMap_append, List.flatMap_append,
      List.flatMap_singleton, List.flatMap_singleton, ← List.append_assoc]
    exact List.map_append.symm
  · rw [hstays, encodeAll_sent]

def framesOf (os : List CommandedOutput) : List Bytes := os.filterMap (·.frame)

theorem Framed.step {w : CommandedState} {os : List CommandedOutput} {i : CommandedInput}
    (h : Framed w.bridge.server w.unread w.clients (framesOf os)) (hreads : ClientsRead w i) :
    Framed (commandedStep w i).1.bridge.server (commandedStep w i).1.unread
      (commandedStep w i).1.clients (framesOf (os ++ [(commandedStep w i).2])) := by
  obtain ⟨hserver, hframe⟩ := bridgeIteration_downlink w.bridge i.toIterationInput
  have hframes : framesOf (os ++ [(commandedStep w i).2]) =
      framesOf os ++ ((commandedStep w i).2.frame).toList := by
    rw [framesOf, List.filterMap_append]
    cases hout : (commandedStep w i).2.frame with
    | none => rw [List.filterMap_cons_none hout]; rfl
    | some frame => rw [List.filterMap_cons_some hout]; rfl
  have haccept := h.accept i
  have hfront : Framed (downlinkServer w.bridge i.toIterationInput) (w.accept i).unread
      (w.accept i).clients (framesOf os) := by
    rw [downlinkServer]
    cases (uplinkStep w.bridge.uplink i.uartChunk).2 with
    | none => exact haccept
    | some payload => exact haccept.send payload i.sentPrefix i.sentData
  have hnext := @Framed.downlink _ _ _ _ hfront i.stack i.recvOutcome hreads.fits hreads.reads
  rw [← hserver, ← hframe] at hnext
  rw [hframes]
  exact hnext

end Step

/-! ## 4. Runs -/

theorem transportSend_whole {serialFd : Int} {frame : Bytes} {written : Int}
    (h : serialFd < 0 ∨ written ≤ 0 ∨ written = frame.length) :
    transportSend serialFd frame written = [] ∨ transportSend serialFd frame written = frame := by
  rw [transportSend, serialSend]
  by_cases hfd : serialFd < 0
  · rw [if_pos hfd]
    exact .inl rfl
  rw [if_neg hfd]
  rcases h with h | h | rfl
  · exact absurd h hfd
  · rw [Int.toNat_of_nonpos h]
    exact .inl rfl
  · rw [Int.toNat_natCast]
    exact .inr (List.take_length)

theorem commandedStep_uart (w : CommandedState) (i : CommandedInput) :
    (commandedStep w i).2.uart = ((commandedStep w i).2.frame.map fun frame ↦
      transportSend w.serialFd frame i.written).getD [] := rfl

/-- What is on the line are frames of the run, in their order. -/
theorem uart_sublist {w : CommandedState} {is : List CommandedInput}
    (hok : Allowed commandedStep ClientsRead w is) :
    ∃ sent : List Bytes, sent.Sublist (framesOf (runOutputs commandedStep w is)) ∧
      (runOutputs commandedStep w is).flatMap (·.uart) = sent.flatten := by
  -- induction on the iterations
  induction is generalizing w with
  | nil => exact ⟨[], List.Sublist.refl _, rfl⟩
  | cons i is ih =>
      obtain ⟨hi, his⟩ := (allowed_cons _ _ _ _ _).mp hok
      obtain ⟨sent, hsub, hsent⟩ := ih his
      rw [runOutputs, List.flatMap_cons, hsent, framesOf]
      cases hout : (commandedStep w i).2.frame with
      | none =>
          have huart : (commandedStep w i).2.uart = [] := by
            rw [commandedStep_uart, hout]
            rfl
          rw [List.filterMap_cons_none hout, huart]
          exact ⟨sent, hsub, rfl⟩
      | some frame =>
          have huart : (commandedStep w i).2.uart = transportSend w.serialFd frame i.written := by
            rw [commandedStep_uart, hout]
            rfl
          rw [List.filterMap_cons_some hout, huart]
          rcases transportSend_whole (hi.whole frame hout) with hnone | hall
          · rw [hnone]
            exact ⟨sent, hsub.cons frame, rfl⟩
          · rw [hall]
            exact ⟨frame :: sent, hsub.cons_cons frame, List.flatten_cons.symm⟩

theorem uart_all {w : CommandedState} {is : List CommandedInput}
    (hok : Allowed commandedStep WritesFrame w is) :
    (runOutputs commandedStep w is).flatMap (·.uart) =
      (framesOf (runOutputs commandedStep w is)).flatten := by
  induction is generalizing w with
  | nil => rfl
  | cons i is ih =>
      obtain ⟨hi, his⟩ := (allowed_cons _ _ _ _ _).mp hok
      rw [runOutputs, List.flatMap_cons, ih his, framesOf, framesOf]
      cases hout : (commandedStep w i).2.frame with
      | none =>
          rw [List.filterMap_cons_none hout, commandedStep_uart, hout]
          rfl
      | some frame => rw [List.filterMap_cons_some hout, hi frame hout, List.flatten_cons]

theorem commands_framed {w : CommandedState} {is : List CommandedInput} (hw : w.Initial)
    (hok : Allowed commandedStep ClientsRead w is) :
    Framed (runState commandedStep w is).bridge.server (runState commandedStep w is).unread
      (runState commandedStep w is).clients (framesOf (runOutputs commandedStep w is)) := by
  have hstart : Framed w.bridge.server w.unread w.clients (framesOf []) := by
    obtain ⟨listenFd, recvBuf, hserver⟩ := hw.server
    rw [hserver, hw.clients]
    exact { len := Nat.zero_le _, fd := .inl rfl, given := ⟨[], .nil, rfl, fun hopen ↦
      absurd hopen (show ¬ (0 : Int) ≤ -1 by decide)⟩ }
  exact @run_history_allowed _ _ _ commandedStep ClientsRead
    (fun w os ↦ Framed w.bridge.server w.unread w.clients (framesOf os))
    (fun _ _ _ h hok ↦ h.step hok) w [] is hstart hok

/-- For any clients with any commands, any replies to them, any pieces of their streams and any uplink: of the
    requests that each client puts on its connection a front is framed, one client after the other and each
    request once.  The line carries whole frames of those, and their bytes tell which requests they are; all
    of them are there if no `write` fails, and those behind them wait while the client is connected. -/
theorem command_chain {w : CommandedState} {is : List CommandedInput} (hw : w.Initial)
    (hok : Allowed commandedStep ClientsRead w is) :
    let final := runState commandedStep w is
    let uart := (runOutputs commandedStep w is).flatMap (·.uart)
    ∃ (given : List (List LncRequest × List LncRequest)) (sent : List LncRequest),
      List.Forall₂ (fun client x ↦ client.Asked (x.1 ++ x.2)) final.clients given ∧
        framesOf (runOutputs commandedStep w is) =
          (given.reverse.flatMap (·.1)).map (fun r ↦ frameOf r.message) ∧
        sent.Sublist (given.reverse.flatMap (·.1)) ∧
        uart = encodeAll frameOf (sent.map LncRequest.message) ∧
        (∀ other : List LncRequest, uart = encodeAll frameOf (other.map LncRequest.message) →
          other = sent) ∧
        (Allowed commandedStep WritesFrame w is → sent = given.reverse.flatMap (·.1)) ∧
        (bridgeServerIsConnected final.bridge.server = true → ∃ done rest older,
          given = (done, rest) :: older ∧
            final.bridge.server.live ++ final.unread = encodeAll LncRequest.sent rest) := by
  intro final uart
  have h := commands_framed hw hok
  obtain ⟨given, hasked, hframes, hopen⟩ := h.given
  obtain ⟨frames, hsub, huart⟩ := uart_sublist hok
  rw [hframes] at hsub
  obtain ⟨sent, hsent, rfl⟩ := List.sublist_map_iff.mp hsub
  have hline : uart = encodeAll frameOf (sent.map LncRequest.message) := by
    show (runOutputs commandedStep w is).flatMap (·.uart) = _
    rw [huart, encodeAll, List.flatMap_map, ← List.flatMap_def]
  have hunique : ∀ other : List LncRequest, uart = encodeAll frameOf (other.map LncRequest.message) →
      other = sent := by
    intro other hother
    have hfits : ∀ reqs : List LncRequest, ∀ p ∈ reqs.map LncRequest.message, p.length < 65536 :=
      fun reqs p hp ↦ Nat.lt_of_le_of_lt (messages_fit reqs p hp).2 (by decide)
    have hsame := frameOf_prefixFree.encodeAll_inj (hfits other) (hfits sent) (hother.symm.trans hline)
    exact (List.map_injective_iff.mpr fun _ _ h ↦ LncRequest.message_inj h) hsame
  refine ⟨given, sent, hasked, hframes, hsent, hline, hunique, fun hall ↦ ?_, fun hconnected ↦ ?_⟩
  · symm
    apply hunique
    show (runOutputs commandedStep w is).flatMap (·.uart) = _
    rw [uart_all hall, hframes, encodeAll, List.flatMap_map, ← List.flatMap_def]
  · refine hopen ?_
    rcases h.fd with hnone | hfd
    · rw [bridgeServerIsConnected, show final.bridge.server.clientFd = -1 from hnone] at hconnected
      exact absurd hconnected (by decide)
    · exact hfd

/-- `main`, whose request for the time comes in two pieces and whose connection then drops, and behind it a
    client that sets the battery limit. -/
def mainClient : CoreClient :=
  .main 1000 (fun _ ↦ ⟨fun _ ↦ 0, 0, fun _ ↦ 0, 0, fun _ ↦ 0⟩) (fun _ _ ↦ 0) ⟨[], 0⟩

def limitClient : CoreClient :=
  .commands [.setBatteryWarningMin 3300 ⟨fun _ ↦ 0, 0, fun _ ↦ 0, 0, fun _ ↦ 0⟩] ⟨[], 0⟩

def commandIteration (acceptFd : Int) (client : CoreClient) (recvOutcome : RecvOutcome)
    (written : Int) : CommandedInput :=
  { uartIteration [] with acceptFd, recvOutcome, client, written }

def twoClients : List CommandedInput :=
  [commandIteration 4 mainClient (.data (mainClient.sends.flatten.take 3)) 0,
    commandIteration (-1) mainClient (.data (mainClient.sends.flatten.drop 3)) 8,
    commandIteration (-1) mainClient .closed 0,
    commandIteration 5 limitClient (.data limitClient.sends.flatten) 13]

def commandedStart : CommandedState :=
  { bridge := bridgeStart, serialFd := 5, clients := [], unread := [] }

instance (s : BridgeServer) : (outcome : RecvOutcome) → Decidable (RecvFits s outcome)
  | .data _ => inferInstanceAs (Decidable (_ ∧ _))
  | .closed => .isTrue trivial
  | .error => .isTrue trivial

theorem twoClients_read : Allowed commandedStep ClientsRead commandedStart twoClients := by
  have hnext : ∀ {w : CommandedState} {i : CommandedInput},
      RecvFits (downlinkServer w.bridge i.toIterationInput) i.recvOutcome →
      bytesRead (downlinkServer w.bridge i.toIterationInput) i.recvOutcome <+: (w.accept i).unread →
      (∀ frame ∈ (commandedStep w i).2.frame, i.written = frame.length) → ClientsRead w i :=
    fun hfits hreads hwhole ↦ ⟨hfits, hreads, fun frame hframe ↦ .inr (.inr (hwhole frame hframe))⟩
  simp only [twoClients, allowed_cons]
  refine ⟨hnext ?_ ?_ ?_, hnext ?_ ?_ ?_, hnext ?_ ?_ ?_, hnext ?_ ?_ ?_, allowed_nil _ _ _⟩
  all_goals decide +kernel

theorem command_chain_two :
    (runOutputs commandedStep commandedStart twoClients).flatMap (·.uart) =
      encodeAll frameOf ([.getTime, .setBatteryWarningMin 3300].map LncRequest.message) ∧
    ∃ (given : List (List LncRequest × List LncRequest)),
      List.Forall₂ (fun client x ↦ client.Asked (x.1 ++ x.2)) [limitClient, mainClient] given ∧
        [.getTime, .setBatteryWarningMin 3300].Sublist (given.reverse.flatMap (·.1)) := by
  have huart : (runOutputs commandedStep commandedStart twoClients).flatMap (·.uart) =
      encodeAll frameOf ([.getTime, .setBatteryWarningMin 3300].map LncRequest.message) := by
    decide +kernel
  obtain ⟨given, sent, hasked, -, hsub, -, hunique, -, -⟩ :=
    command_chain (show commandedStart.Initial from ⟨⟨3, fun _ ↦ 0, rfl⟩, rfl⟩) twoClients_read
  rw [← hunique _ huart] at hsub
  exact ⟨huart, given, hasked, hsub⟩

end SubmarineMonitor
