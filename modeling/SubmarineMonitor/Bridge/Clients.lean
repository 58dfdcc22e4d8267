import SubmarineMonitor.Bridge.Downlink
import SubmarineMonitor.Bridge.Senders
import SubmarineMonitor.Bridge.Uplink

/-!
# Clients — what the clients of `lnc_bridge` receive, one connection after another

The loop takes a client when it has none and a client waits, and passes each payload of the uplink to the
client it has.  Over a whole run each payload goes to one connection or to none, and the connections carry
whole messages, in the order of the payloads, up to where a connection is given up (`clients_served`).
-/

open Reasoning

namespace SubmarineMonitor

/-! ## 1. Definitions -/

/-- The bridge, and what it has put on the connection of each client, the last one in front. -/
structure ServedState where
  bridge : BridgeState
  wires : List Bytes

def TakesClient (s : BridgeState) (i : IterationInput) : Prop :=
  s.server.clientFd = -1 ∧ (bridgeServerAccept s.server i.acceptFd).1 = true

instance (s : BridgeState) (i : IterationInput) : Decidable (TakesClient s i) :=
  inferInstanceAs (Decidable (_ ∧ _))

def putOnWire (bytes : Bytes) : List Bytes → List Bytes
  | [] => []
  | wire :: older => (wire ++ bytes) :: older

def serveStep (w : ServedState) (i : IterationInput) : ServedState × IterationOutput :=
  let next := bridgeIteration w.bridge i
  let wires := if TakesClient w.bridge i then [] :: w.wires else w.wires
  ({ bridge := next.1, wires := putOnWire next.2.tcpBytes wires }, next.2)

def SendsFully (w : ServedState) (i : IterationInput) : Prop :=
  ∀ payload, (uplinkStep w.bridge.uplink i.uartChunk).2 = some payload →
    i.sentPrefix < 0 ∨ i.sentPrefix = 4 ∧ (i.sentData < 0 ∨ i.sentData = payload.length)

structure ServedState.Initial (w : ServedState) : Prop where
  bridge : w.bridge.Initial
  clientFd : w.bridge.server.clientFd = -1
  wires : w.wires = []

/-- Of the payloads `ps`, in order, each connection was given some, whole ones, and what it carries of them
    is a front; all of them if it is still in use. -/
structure Serves (clientFd : Int) (wires : List Bytes) (ps : List Bytes) : Prop where
  fd : clientFd = -1 ∨ 0 ≤ clientFd
  given : ∃ given : List (Bytes × List Bytes), given.map (·.1) = wires ∧
    (∀ x ∈ given, x.1 <+: encodeAll tcpMessage x.2) ∧
    ((given.map (·.2)).reverse.flatten).Sublist ps ∧
    (0 ≤ clientFd → ∃ msgs older, given = (encodeAll tcpMessage msgs, msgs) :: older)

/-! ## 2. One call -/

theorem bridgeServerTryRecv_clientFd (s : BridgeServer) (outBuf : Mem) (maxLen : Nat)
    (outcome : RecvOutcome) :
    (bridgeServerTryRecv s outBuf maxLen outcome).server.clientFd = s.clientFd ∨
      outcome = .closed ∧ (bridgeServerTryRecv s outBuf maxLen outcome).server.clientFd = -1 := by
  rw [bridgeServerTryRecv]
  by_cases hfd : s.clientFd < 0
  · rw [if_pos hfd]
    exact .inl rfl
  rw [if_neg hfd]
  have htake : ∀ s' : BridgeServer, (bridgeServerTakeFrame s' outBuf maxLen).server.clientFd = s'.clientFd := by
    intro s'
    rw [bridgeServerTakeFrame]
    split
    · rfl
    · dsimp only
      split <;> rfl
  rw [bridgeServerRecv.eq_def]
  by_cases hroom : s.recvLen < bridgeRecvBufSize
  · rw [if_pos hroom]
    cases outcome with
    | data bytes => exact .inl (htake _)
    | closed => exact .inr ⟨rfl, rfl⟩
    | error => exact .inl (htake _)
  · rw [if_neg hroom]
    exact .inl (htake _)

theorem downlinkStep_clientFd (s : BridgeServer) (stack : DownlinkStack) (outcome : RecvOutcome) :
    (downlinkStep s stack outcome).1.clientFd = s.clientFd ∨
      outcome = .closed ∧ (downlinkStep s stack outcome).1.clientFd = -1 := by
  have hserver : (downlinkStep s stack outcome).1 =
      (bridgeServerTryRecv s stack.tcpPayload 256 outcome).server := by
    rw [downlinkStep]
    dsimp only
    split <;> rfl
  rw [hserver]
  exact bridgeServerTryRecv_clientFd s stack.tcpPayload 256 outcome

theorem bridgeServerSend_whole {s : BridgeServer} (hfd : 0 ≤ s.clientFd) (payload : Bytes) :
    bridgeServerSend s payload 4 payload.length = (s, tcpMessage payload) := by
  rw [bridgeServerSend, if_neg (by omega), if_neg (by decide)]
  dsimp only
  rw [if_neg (by omega), Int.toNat_natCast, List.take_length]
  rfl

/-! ## 3. One iteration -/

section Step

variable {clientFd : Int} {wires ps : List Bytes} {s : BridgeServer}

theorem Serves.closed (h : Serves clientFd wires ps) : Serves (-1) wires ps where
  fd := .inl rfl
  given := by
    obtain ⟨given, hwires, hfront, hsub, -⟩ := h.given
    exact ⟨given, hwires, hfront, hsub, fun hopen ↦ absurd hopen (by decide)⟩

theorem Serves.accept (h : Serves s.clientFd wires ps) (fd : Int) :
    Serves (bridgeServerAccept s fd).2.clientFd
      (if s.clientFd = -1 ∧ (bridgeServerAccept s fd).1 = true then [] :: wires else wires) ps := by
  rcases bridgeServerAccept_cases s fd with ⟨b, hsame, hnone⟩ | ⟨hfree, hfd, hnew⟩
  · rw [hsame, if_neg hnone]
    exact h
  · rw [hnew, if_pos ⟨hfree, rfl⟩]
    obtain ⟨given, hwires, hfront, hsub, -⟩ := h.given
    refine { fd := .inr hfd, given := ⟨([], []) :: given, ?_, ?_, ?_, fun _ ↦ ⟨[], given, rfl⟩⟩ }
    · rw [List.map_cons, hwires]
    · exact List.forall_mem_cons.mpr ⟨List.nil_prefix, hfront⟩
    · rw [List.map_cons, List.reverse_cons, List.flatten_append, List.flatten_singleton,
        List.append_nil]
      exact hsub

/-- A payload is given to the client there is; to none, it is dropped. -/
theorem Serves.send (h : Serves s.clientFd wires ps) {payload : Bytes} {sentPrefix sentData : Int}
    (hfull : sentPrefix < 0 ∨ sentPrefix = 4 ∧ (sentData < 0 ∨ sentData = payload.length)) :
    Serves (bridgeServerSend s payload sentPrefix sentData).1.clientFd
      (putOnWire (bridgeServerSend s payload sentPrefix sentData).2 wires) (ps ++ [payload]) := by
  obtain ⟨given, rfl, hfront, hsub, hopen⟩ := h.given
  rcases h.fd with hnone | hclient
  · have hdropped : bridgeServerSend s payload sentPrefix sentData = (s, []) :=
      bridgeServerSend_disconnected (by omega) payload sentPrefix sentData
    have hnot : ¬ 0 ≤ s.clientFd := by omega
    rw [hdropped]
    refine { fd := h.fd, given := ⟨given, ?_, hfront, hsub.trans (List.sublist_append_left _ _),
      fun hopen' ↦ absurd hopen' hnot⟩ }
    cases given with
    | nil => rfl
    | cons x older => rw [List.map_cons, putOnWire, List.append_nil]
  obtain ⟨msgs, older, rfl⟩ := hopen hclient
  -- with the payload, the connection was given one more message
  have hgiven : ∀ bytes, bytes <+: tcpMessage payload →
      ∀ x ∈ (encodeAll tcpMessage msgs ++ bytes, msgs ++ [payload]) :: older,
        x.1 <+: encodeAll tcpMessage x.2 := by
    intro bytes hbytes
    refine List.forall_mem_cons.mpr ⟨?_, (List.forall_mem_cons.mp hfront).2⟩
    rw [encodeAll_append, encodeAll_cons, encodeAll_nil, List.append_nil]
    exact (List.prefix_append_right_inj _).mpr hbytes
  have hsub' : ((((encodeAll tcpMessage msgs, msgs ++ [payload]) :: older).map (·.2)).reverse.flatten).Sublist
      (ps ++ [payload]) := by
    rw [List.map_cons, List.reverse_cons, List.flatten_append, List.flatten_singleton] at hsub ⊢
    rw [← List.append_assoc]
    exact hsub.append_right [payload]
  by_cases hclosed : (bridgeServerSend s payload sentPrefix sentData).1.clientFd = -1
  · have hbytes := bridgeServerSend_closed hclient hclosed
    exact { fd := .inl hclosed, given := ⟨_, rfl, hgiven _ hbytes, hsub', fun hopen' ↦ by omega⟩ }
  · have hwhole : bridgeServerSend s payload sentPrefix sentData = (s, tcpMessage payload) := by
      rcases hfull with hfail | ⟨rfl, hfail | rfl⟩
      · rw [bridgeServerSend, if_neg (by omega), if_pos hfail] at hclosed
        exact absurd rfl hclosed
      · rw [bridgeServerSend, if_neg (by omega), if_neg (by decide)] at hclosed
        dsimp only at hclosed
        rw [if_pos hfail] at hclosed
        exact absurd rfl hclosed
      · exact bridgeServerSend_whole hclient payload
    rw [hwhole]
    refine { fd := h.fd, given := ⟨_, rfl, hgiven _ (List.prefix_refl _), hsub', fun _ ↦
      ⟨msgs ++ [payload], older, ?_⟩⟩ }
    rw [encodeAll_append, encodeAll_cons, encodeAll_nil, List.append_nil]

theorem Serves.downlink (h : Serves s.clientFd wires ps) (stack : DownlinkStack)
    (outcome : RecvOutcome) : Serves (downlinkStep s stack outcome).1.clientFd wires ps := by
  rcases downlinkStep_clientFd s stack outcome with hsame | ⟨-, hclosed⟩
  · rw [hsame]
    exact h
  · rw [hclosed]
    exact h.closed

end Step

def payloadsOf (os : List IterationOutput) : List Bytes := os.filterMap (·.uplinkPayload)

theorem payloadsOf_one (w : ServedState) (i : IterationInput) :
    payloadsOf [(serveStep w i).2] = (uplinkStep w.bridge.uplink i.uartChunk).2.toList := by
  cases hup : (uplinkStep w.bridge.uplink i.uartChunk).2 with
  | none => exact List.filterMap_cons_none hup
  | some payload => exact List.filterMap_cons_some hup

theorem Serves.step {w : ServedState} {os : List IterationOutput} {i : IterationInput}
    (h : Serves w.bridge.server.clientFd w.wires (payloadsOf os)) (hfull : SendsFully w i) :
    Serves (serveStep w i).1.bridge.server.clientFd (serveStep w i).1.wires
      (payloadsOf (os ++ [(serveStep w i).2])) := by
  have haccept := h.accept i.acceptFd
  rw [payloadsOf, List.filterMap_append]
  change Serves _ _ (payloadsOf os ++ payloadsOf [(serveStep w i).2])
  rw [payloadsOf_one]
  rw [serveStep, bridgeIteration]
  dsimp only
  cases hup : (uplinkStep w.bridge.uplink i.uartChunk).2 with
  | none =>
      dsimp only
      have hnothing : ∀ wires, putOnWire [] wires = wires := by
        intro wires
        cases wires with
        | nil => rfl
        | cons wire older => rw [putOnWire, List.append_nil]
      rw [hnothing, Option.toList_none, List.append_nil]
      exact haccept.downlink i.stack i.recvOutcome
  | some payload =>
      exact (haccept.send (hfull payload hup)).downlink i.stack i.recvOutcome

/-! ## 4. Runs -/

theorem serveStep_outputs (w : ServedState) (is : List IterationInput) :
    runOutputs serveStep w is = runOutputs bridgeIteration w.bridge is := by
  induction is generalizing w with
  | nil => rfl
  | cons i is ih =>
      rw [runOutputs, runOutputs, ih]
      rfl

/-- Over a whole run each payload goes to one connection or to none. -/
theorem clients_served {w : ServedState} {is : List IterationInput} (hw : w.Initial)
    (hfull : Allowed serveStep SendsFully w is) :
    Serves (runState serveStep w is).bridge.server.clientFd (runState serveStep w is).wires
      (forwarded w.bridge is) := by
  have hstart : Serves w.bridge.server.clientFd w.wires (payloadsOf []) := by
    rw [hw.clientFd, hw.wires]
    exact { fd := .inl rfl, given := ⟨[], rfl, fun x hx ↦ absurd hx List.not_mem_nil,
      List.Sublist.refl _, fun hopen ↦ absurd hopen (by decide)⟩ }
  have hrun := @run_history_allowed _ _ _ serveStep SendsFully
    (fun w os ↦ Serves w.bridge.server.clientFd w.wires (payloadsOf os))
    (fun _ _ _ h hok ↦ h.step hok) w [] is hstart hfull
  rw [List.nil_append, serveStep_outputs] at hrun
  exact hrun

/-! ## 5. A client that stays -/

structure KeepsClient (w : ServedState) (i : IterationInput) : Prop where
  sends : ∀ payload, (uplinkStep w.bridge.uplink i.uartChunk).2 = some payload →
    i.sentPrefix = 4 ∧ i.sentData = payload.length
  stays : i.recvOutcome ≠ .closed

theorem KeepsClient.sendsFully {w : ServedState} {i : IterationInput} (h : KeepsClient w i) :
    SendsFully w i := fun payload hup ↦
  .inr ⟨(h.sends payload hup).1, .inr (h.sends payload hup).2⟩

structure ServesOne (clientFd : Int) (wires : List Bytes) (ps : List Bytes) : Prop where
  fd : 0 ≤ clientFd
  wires : wires = [encodeAll tcpMessage ps]

/-- Behind the `accept` of an iteration the client is there, and it stays. -/
theorem ServesOne.step {w : ServedState} {os : List IterationOutput} {i : IterationInput}
    (h : ServesOne (bridgeServerAccept w.bridge.server i.acceptFd).2.clientFd
      (if TakesClient w.bridge i then [] :: w.wires else w.wires) (payloadsOf os))
    (hkeeps : KeepsClient w i) :
    ServesOne (serveStep w i).1.bridge.server.clientFd (serveStep w i).1.wires
      (payloadsOf (os ++ [(serveStep w i).2])) := by
  obtain ⟨hfd, hwires⟩ := h
  have hstays : ∀ s : BridgeServer, (downlinkStep s i.stack i.recvOutcome).1.clientFd = s.clientFd := by
    intro s
    rcases downlinkStep_clientFd s i.stack i.recvOutcome with hsame | ⟨hclosed, -⟩
    · exact hsame
    · exact absurd hclosed hkeeps.stays
  rw [payloadsOf, List.filterMap_append]
  change ServesOne _ _ (payloadsOf os ++ payloadsOf [(serveStep w i).2])
  rw [payloadsOf_one, serveStep, bridgeIteration]
  dsimp only
  rw [hwires, hstays]
  cases hup : (uplinkStep w.bridge.uplink i.uartChunk).2 with
  | none =>
      rw [Option.toList_none, List.append_nil]
      exact { fd := hfd, wires := congrArg (fun wire ↦ [wire]) (List.append_nil _) }
  | some payload =>
      obtain ⟨hfour, hdata⟩ := hkeeps.sends payload hup
      dsimp only
      rw [hfour, hdata, bridgeServerSend_whole hfd, Option.toList_some]
      refine { fd := hfd, wires := ?_ }
      rw [encodeAll_append, encodeAll_cons, encodeAll_nil, List.append_nil]
      rfl

/-- One client that is taken in the first iteration and stays is sent all of the payloads. -/
theorem one_client_served {w : ServedState} {i : IterationInput} {is : List IterationInput}
    (hw : w.Initial) (hlisten : 0 ≤ w.bridge.server.listenFd) (haccept : 0 ≤ i.acceptFd)
    (hkeeps : Allowed serveStep KeepsClient w (i :: is)) :
    (runState serveStep w (i :: is)).wires =
      [encodeAll tcpMessage (forwarded w.bridge (i :: is))] := by
  obtain ⟨hfirst, hlater⟩ := (allowed_cons _ _ _ _ _).mp hkeeps
  have htaken : bridgeServerAccept w.bridge.server i.acceptFd =
      (true, { w.bridge.server with clientFd := i.acceptFd, recvLen := 0 }) := by
    rw [bridgeServerAccept, if_neg (not_not_intro hw.clientFd), if_neg (by omega), if_neg (by omega)]
  have hone : ServesOne (serveStep w i).1.bridge.server.clientFd (serveStep w i).1.wires
      (payloadsOf ([] ++ [(serveStep w i).2])) := by
    refine ServesOne.step ?_ hfirst
    have htakes : TakesClient w.bridge i := ⟨hw.clientFd, by rw [htaken]⟩
    rw [if_pos htakes, htaken, hw.wires]
    exact { fd := haccept, wires := rfl }
  have hstep : ∀ (w : ServedState) os i, ServesOne w.bridge.server.clientFd w.wires (payloadsOf os) →
      KeepsClient w i → ServesOne (serveStep w i).1.bridge.server.clientFd (serveStep w i).1.wires
        (payloadsOf (os ++ [(serveStep w i).2])) := by
    intro w os i h hok
    refine ServesOne.step ?_ hok
    have hbusy : w.bridge.server.clientFd ≠ -1 := by
      have hopen := h.fd
      omega
    rw [if_neg fun htakes : TakesClient w.bridge i ↦ hbusy htakes.1, bridgeServerAccept,
      if_pos hbusy]
    exact h
  have hrun := run_history_allowed hstep hone hlater
  rw [List.nil_append, List.singleton_append] at hrun
  rw [runState_cons, forwarded, ← serveStep_outputs, runOutputs]
  exact hrun.wires

end SubmarineMonitor
