import Mathlib.Data.List.Sublists
import SubmarineMonitor.Bridge.Accumulator
import SubmarineMonitor.Protocol.TcpMessage
import SubmarineMonitor.Reasoning.StreamCode

/-!
# Senders — what `Transport_Send` and `BridgeServer_Send` put on their links

Both descriptors are non-blocking, so that `write` and `send` may take a part of what they are given, or
nothing.
-/

open Reasoning

namespace SubmarineMonitor

/-! ## 1. The UART -/

/-- `written` is what `write` returns; the second output is what it puts on the line. -/
def serialSend (fd : Int) (data : Bytes) (written : Int) : Bool × Bytes :=
  if fd < 0 then (false, [])
  else (written == data.length, data.take written.toNat)

/-- The result of `Serial_Send` is not looked at. -/
def transportSend (fd : Int) (data : Bytes) (written : Int) : Bytes :=
  (serialSend fd data written).2

/-! ## 2. Runs of both senders -/

/-- The two descriptors, all that was put on the UART, what was put on the last TCP connection, and what
    the senders were given for them. -/
structure LinkState where
  serialFd : Int
  server : BridgeServer
  uart : Bytes
  frames : List Bytes
  wire : Bytes
  payloads : List Bytes

inductive LinkCall
  | transportSend (frame : Bytes) (written : Int)
  | server (call : ServerCall)

def linkStep (w : LinkState) : LinkCall → LinkState × Bytes × Bytes
  | .transportSend frame written =>
      let out := transportSend w.serialFd frame written
      ({ w with uart := w.uart ++ out, frames := w.frames ++ [frame] }, out, [])
  | .server (.send payload sentPrefix sentData) =>
      let out := bridgeServerSend w.server payload sentPrefix sentData
      ({ w with server := out.1, wire := w.wire ++ out.2, payloads := w.payloads ++ [payload] },
        [], out.2)
  | .server (.accept fd) =>
      let accepted := bridgeServerAccept w.server fd
      -- a connection begins when a client is taken from the queue
      if w.server.clientFd = -1 ∧ accepted.1 = true then
        ({ w with server := accepted.2, wire := [], payloads := [] }, [], [])
      else ({ w with server := accepted.2 }, [], [])
  | .server (.tryRecv outBuf maxLen outcome) =>
      ({ w with server := (bridgeServerTryRecv w.server outBuf maxLen outcome).server }, [], [])

def LinkCallAllowed (w : LinkState) : LinkCall → Prop
  | .transportSend frame written => written ≤ frame.length
  | .server (.send payload sentPrefix sentData) => sentPrefix ≤ 4 ∧ sentData ≤ payload.length
  | .server call => CallAllowed w.server call

/-- A call puts its frame on the link as a whole or not at all; on TCP it may also put a part of it there
    and close the connection. -/
def SendsWhole (w : LinkState) : LinkCall → Prop
  | .transportSend frame written =>
      (linkStep w (.transportSend frame written)).2.1 = [] ∨
        (linkStep w (.transportSend frame written)).2.1 = frame
  | .server (.send payload sentPrefix sentData) =>
      (linkStep w (.server (.send payload sentPrefix sentData))).2.2 = [] ∨
        (linkStep w (.server (.send payload sentPrefix sentData))).2.2 = tcpMessage payload ∨
        (linkStep w (.server (.send payload sentPrefix sentData))).1.server.clientFd = -1
  | .server _ => True

/-- No `write` takes a part of a frame, and no two `send`s take a part of a message between them. -/
def NoShortSend (w : LinkState) : LinkCall → Prop
  | .transportSend frame written => w.serialFd < 0 ∨ written ≤ 0 ∨ written = frame.length
  | .server (.send payload sentPrefix sentData) =>
      w.server.clientFd < 0 ∨ sentPrefix < 0 ∨ sentData < 0 ∨ (sentPrefix = 0 ∧ sentData = 0) ∨
        (sentPrefix = 4 ∧ sentData = payload.length)
  | .server _ => True

/-- Each link carries complete frames, some of those it was given and in their order; behind them there
    may be a part of one on a TCP connection that is closed. -/
structure StreamsWhole (w : LinkState) : Prop where
  uart : ∃ sent : List Bytes, sent.Sublist w.frames ∧ w.uart = sent.flatten
  wire : ∃ (sent : List Bytes) (cut : Bytes), sent.Sublist w.payloads ∧
    w.wire = encodeAll tcpMessage sent ++ cut ∧
    (cut = [] ∨ w.server.clientFd = -1 ∧ ∃ p ∈ w.payloads, cut <+: tcpMessage p)

/-! ## 3. One call -/

theorem transportSend_whole_iff {w : LinkState} {frame : Bytes} {written : Int}
    (hok : LinkCallAllowed w (.transportSend frame written)) :
    SendsWhole w (.transportSend frame written) ↔ NoShortSend w (.transportSend frame written) := by
  have hle : written ≤ frame.length := hok
  show transportSend w.serialFd frame written = [] ∨ transportSend w.serialFd frame written = frame ↔
    w.serialFd < 0 ∨ written ≤ 0 ∨ written = frame.length
  unfold transportSend serialSend
  by_cases hfd : w.serialFd < 0
  · rw [if_pos hfd]
    exact iff_of_true (.inl rfl) (.inl hfd)
  rw [if_neg hfd]
  dsimp only
  have hlength : (frame.take written.toNat).length = written.toNat := by
    rw [List.length_take]
    omega
  constructor
  · rintro (hnil | hall)
    · rw [hnil, List.length_nil] at hlength
      exact .inr (.inl (by omega))
    · rw [hall] at hlength
      exact .inr (by omega)
  · rintro (hneg | hzero | rfl)
    · exact absurd hneg hfd
    · rw [Int.toNat_of_nonpos hzero]
      exact .inl rfl
    · rw [Int.toNat_natCast, List.take_length]
      exact .inr rfl

theorem send_whole_iff {w : LinkState} {payload : Bytes} {sentPrefix sentData : Int}
    (hok : LinkCallAllowed w (.server (.send payload sentPrefix sentData))) :
    SendsWhole w (.server (.send payload sentPrefix sentData)) ↔
      NoShortSend w (.server (.send payload sentPrefix sentData)) := by
  obtain ⟨hfront, hdata⟩ : sentPrefix ≤ 4 ∧ sentData ≤ payload.length := hok
  show (bridgeServerSend w.server payload sentPrefix sentData).2 = [] ∨
      (bridgeServerSend w.server payload sentPrefix sentData).2 = tcpMessage payload ∨
      (bridgeServerSend w.server payload sentPrefix sentData).1.clientFd = -1 ↔
    w.server.clientFd < 0 ∨ sentPrefix < 0 ∨ sentData < 0 ∨ (sentPrefix = 0 ∧ sentData = 0) ∨
      (sentPrefix = 4 ∧ sentData = payload.length)
  unfold bridgeServerSend
  by_cases hfd : w.server.clientFd < 0
  · rw [if_pos hfd]
    exact iff_of_true (.inl rfl) (.inl hfd)
  rw [if_neg hfd]
  by_cases hfail : sentPrefix < 0
  · rw [if_pos hfail]
    exact iff_of_true (.inl rfl) (.inr (.inl hfail))
  rw [if_neg hfail]
  dsimp only
  by_cases hfail' : sentData < 0
  · rw [if_pos hfail']
    exact iff_of_true (.inr (.inr rfl)) (.inr (.inr (.inl hfail')))
  rw [if_neg hfail']
  dsimp only
  have hlength : ((protocolPutU32 payload.length).take sentPrefix.toNat ++
      payload.take sentData.toNat).length = sentPrefix.toNat + sentData.toNat := by
    rw [List.length_append, List.length_take, List.length_take, protocolPutU32_length]
    omega
  constructor
  · -- the number of bytes on the wire says how much of each part there is
    rintro (hnil | hall | hclosed)
    · rw [hnil, List.length_nil] at hlength
      exact .inr (.inr (.inr (.inl (by omega))))
    · rw [hall, tcpMessage_length] at hlength
      exact .inr (.inr (.inr (.inr (by omega))))
    · omega
  · rintro (hneg | hneg | hneg | ⟨rfl, rfl⟩ | ⟨rfl, rfl⟩)
    · exact absurd hneg hfd
    · exact absurd hneg hfail
    · exact absurd hneg hfail'
    · exact .inl rfl
    · refine .inr (.inl ?_)
      rw [Int.toNat_natCast, List.take_length]
      rfl

theorem sendsWhole_iff {w : LinkState} {call : LinkCall} (hok : LinkCallAllowed w call) :
    SendsWhole w call ↔ NoShortSend w call := by
  cases call with
  | transportSend frame written => exact transportSend_whole_iff hok
  | server call =>
      cases call with
      | accept fd => exact Iff.rfl
      | send payload sentPrefix sentData => exact send_whole_iff hok
      | tryRecv outBuf maxLen outcome => exact Iff.rfl

/-! ## 4. Runs -/

structure LinkState.Initial (w : LinkState) : Prop where
  server : ∃ listenFd recvBuf, w.server = bridgeServerInit listenFd recvBuf
  uart : w.uart = []
  wire : w.wire = []

theorem LinkState.Initial.streamsWhole {w : LinkState} (h : w.Initial) : StreamsWhole w where
  uart := ⟨[], List.nil_sublist _, h.uart⟩
  wire := ⟨[], [], List.nil_sublist _, h.wire, .inl rfl⟩

theorem linkStep_server (w : LinkState) (call : ServerCall) :
    (linkStep w (.server call)).1.server = (serverStep w.server call).1 := by
  cases call with
  | accept fd =>
      simp only [linkStep, serverStep]
      split <;> rfl
  | send payload sentPrefix sentData => rfl
  | tryRecv outBuf maxLen outcome => rfl

theorem serverInv_linkStep {w : LinkState} {call : LinkCall} (h : ServerInv w.server)
    (hok : LinkCallAllowed w call) : ServerInv (linkStep w call).1.server := by
  cases call with
  | transportSend frame written => exact h
  | server call =>
      rw [linkStep_server]
      apply serverInv_step w.server call h
      cases call with
      | accept fd => trivial
      | send payload sentPrefix sentData => trivial
      | tryRecv outBuf maxLen outcome => exact hok

theorem streamsWhole_transportSend {w : LinkState} {frame : Bytes} {written : Int}
    (h : StreamsWhole w) (hwhole : SendsWhole w (.transportSend frame written)) :
    StreamsWhole (linkStep w (.transportSend frame written)).1 := by
  obtain ⟨sent, hsent, huart⟩ := h.uart
  refine ⟨?_, h.wire⟩
  have hcases : transportSend w.serialFd frame written = [] ∨
      transportSend w.serialFd frame written = frame := hwhole
  rcases hcases with hnone | hall
  · refine ⟨sent, hsent.trans (List.sublist_append_left _ _), ?_⟩
    show w.uart ++ transportSend w.serialFd frame written = sent.flatten
    rw [hnone, List.append_nil, huart]
  · refine ⟨sent ++ [frame], hsent.append (List.Sublist.refl [frame]), ?_⟩
    show w.uart ++ transportSend w.serialFd frame written = (sent ++ [frame]).flatten
    rw [hall, huart, List.flatten_append, List.flatten_singleton]

theorem bridgeServerSend_disconnected {s : BridgeServer} (h : s.clientFd < 0) (data : Bytes)
    (sentPrefix sentData : Int) : bridgeServerSend s data sentPrefix sentData = (s, []) := by
  rw [bridgeServerSend, if_pos h]

/-- A connection is closed with no more than a part of the length prefix on it. -/
theorem bridgeServerSend_closed {s : BridgeServer} (hfd : 0 ≤ s.clientFd) {data : Bytes}
    {sentPrefix sentData : Int}
    (h : (bridgeServerSend s data sentPrefix sentData).1.clientFd = -1) :
    (bridgeServerSend s data sentPrefix sentData).2 <+: tcpMessage data := by
  unfold bridgeServerSend at h ⊢
  rw [if_neg (by omega)] at h ⊢
  by_cases hfail : sentPrefix < 0
  · rw [if_pos hfail]
    exact List.nil_prefix
  rw [if_neg hfail] at h ⊢
  dsimp only at h ⊢
  by_cases hfail' : sentData < 0
  · rw [if_pos hfail']
    exact (List.take_prefix _ _).trans (List.prefix_append _ _)
  · rw [if_neg hfail'] at h
    dsimp only at h
    omega

theorem streamsWhole_send {w : LinkState} {payload : Bytes} {sentPrefix sentData : Int}
    (hfd : w.server.clientFd = -1 ∨ 0 ≤ w.server.clientFd) (h : StreamsWhole w)
    (hwhole : SendsWhole w (.server (.send payload sentPrefix sentData))) :
    StreamsWhole (linkStep w (.server (.send payload sentPrefix sentData))).1 := by
  obtain ⟨sent, cut, hsent, hwire, hcut⟩ := h.wire
  refine ⟨h.uart, ?_⟩
  show ∃ (sent : List Bytes) (cut : Bytes), sent.Sublist (w.payloads ++ [payload]) ∧
    w.wire ++ (bridgeServerSend w.server payload sentPrefix sentData).2 =
      encodeAll tcpMessage sent ++ cut ∧
    (cut = [] ∨ (bridgeServerSend w.server payload sentPrefix sentData).1.clientFd = -1 ∧
      ∃ p ∈ w.payloads ++ [payload], cut <+: tcpMessage p)
  rcases hfd with hnone | hconnected
  · -- no client: what there was stays the last of it
    rw [bridgeServerSend_disconnected (by omega)]
    refine ⟨sent, cut, hsent.trans (List.sublist_append_left _ _), ?_, ?_⟩
    · rw [List.append_nil, hwire]
    · refine hcut.imp_right fun ⟨hclosed, p, hp, hfront⟩ ↦ ⟨hclosed, p, ?_, hfront⟩
      exact List.mem_append_left _ hp
  · obtain rfl : cut = [] := hcut.resolve_right fun hclosed ↦ by omega
    have hcases : (bridgeServerSend w.server payload sentPrefix sentData).2 = [] ∨
        (bridgeServerSend w.server payload sentPrefix sentData).2 = tcpMessage payload ∨
        (bridgeServerSend w.server payload sentPrefix sentData).1.clientFd = -1 := hwhole
    rw [hwire, List.append_nil]
    rcases hcases with habsent | hall | hclosed
    · refine ⟨sent, [], hsent.trans (List.sublist_append_left _ _), ?_, .inl rfl⟩
      rw [habsent]
    · refine ⟨sent ++ [payload], [], hsent.append (List.Sublist.refl _), ?_, .inl rfl⟩
      rw [hall, encodeAll_append, encodeAll_cons, encodeAll_nil, List.append_nil, List.append_nil]
    · refine ⟨sent, _, hsent.trans (List.sublist_append_left _ _), rfl, .inr ⟨hclosed, payload, ?_, ?_⟩⟩
      · exact List.mem_append_right _ List.mem_cons_self
      · exact bridgeServerSend_closed hconnected hclosed

theorem streamsWhole_accept {w : LinkState} (fd : Int) (h : StreamsWhole w) :
    StreamsWhole (linkStep w (.server (.accept fd))).1 := by
  simp only [linkStep]
  rcases bridgeServerAccept_cases w.server fd with ⟨b, haccept, hsame⟩ | ⟨hfree, hfd, haccept⟩
  · rw [haccept, if_neg hsame]
    exact ⟨h.uart, h.wire⟩
  · rw [haccept, if_pos ⟨hfree, rfl⟩]
    exact ⟨h.uart, [], [], List.nil_sublist _, rfl, .inl rfl⟩

theorem streamsWhole_tryRecv {w : LinkState} (outBuf : Mem) (maxLen : Nat) (outcome : RecvOutcome)
    (h : StreamsWhole w) : StreamsWhole (linkStep w (.server (.tryRecv outBuf maxLen outcome))).1 := by
  obtain ⟨sent, cut, hsent, hwire, hcut⟩ := h.wire
  refine ⟨h.uart, sent, cut, hsent, hwire, hcut.imp_right fun ⟨hclosed, hfront⟩ ↦ ⟨?_, hfront⟩⟩
  show (bridgeServerTryRecv w.server outBuf maxLen outcome).server.clientFd = -1
  rw [tryRecv_disconnected (by omega)]
  exact hclosed

theorem streamsWhole_step (w : LinkState) (call : LinkCall)
    (h : ServerInv w.server ∧ StreamsWhole w) (hok : LinkCallAllowed w call ∧ SendsWhole w call) :
    ServerInv (linkStep w call).1.server ∧ StreamsWhole (linkStep w call).1 := by
  refine ⟨serverInv_linkStep h.1 hok.1, ?_⟩
  cases call with
  | transportSend frame written => exact streamsWhole_transportSend h.2 hok.2
  | server call =>
      cases call with
      | accept fd => exact streamsWhole_accept fd h.2
      | send payload sentPrefix sentData => exact streamsWhole_send h.1.fd h.2 hok.2
      | tryRecv outBuf maxLen outcome => exact streamsWhole_tryRecv outBuf maxLen outcome h.2

/-- In every run: each call puts its frame on the link as a whole or not at all, and so the links carry
    complete frames, exactly when no call sends a part of one. -/
theorem senders_never_tear_iff {w : LinkState} (hw : w.Initial) {calls : List LinkCall}
    (hok : Allowed linkStep LinkCallAllowed w calls) :
    (∀ p ∈ runSteps linkStep w calls, SendsWhole p.1 p.2) ∧ StreamsWhole (runState linkStep w calls) ↔
      ∀ p ∈ runSteps linkStep w calls, NoShortSend p.1 p.2 := by
  have hwhole : (∀ p ∈ runSteps linkStep w calls, SendsWhole p.1 p.2) ↔
      ∀ p ∈ runSteps linkStep w calls, NoShortSend p.1 p.2 :=
    forall₂_congr fun p hp ↦ sendsWhole_iff (hok p hp)
  rw [← hwhole]
  refine ⟨fun h ↦ h.1, fun h ↦ ⟨h, ?_⟩⟩
  have hserver : ServerInv w.server := by
    obtain ⟨listenFd, recvBuf, hinit⟩ := hw.server
    rw [hinit]
    exact serverInv_init listenFd recvBuf
  have hrun := run_invariant streamsWhole_step ⟨hserver, hw.streamsWhole⟩
    (fun p hp ↦ ⟨hok p hp, h p hp⟩)
  exact hrun.1.2

def linkStart : LinkState :=
  { serialFd := 5, server := bridgeServerInit 3 fun _ ↦ 0, uart := [], frames := [], wire := []
    payloads := [] }

def smallFrame : Bytes := [0x7E, 0x00, 0x01, 0x2A, 0x7A, 0x85]

theorem linkStart_initial : linkStart.Initial := ⟨⟨3, fun _ ↦ 0, rfl⟩, rfl, rfl⟩

-- a frame that cannot be written at once, one that can, and a connection that fails in a message
theorem senders_never_tear_example :
    StreamsWhole (runState linkStep linkStart [.transportSend smallFrame (-1),
      .transportSend smallFrame 6, .server (.accept 4), .server (.send [0x2A] 4 1),
      .server (.send [0x2B] 4 (-1))]) := by
  have hok : Allowed linkStep LinkCallAllowed linkStart [.transportSend smallFrame (-1),
      .transportSend smallFrame 6, .server (.accept 4), .server (.send [0x2A] 4 1),
      .server (.send [0x2B] 4 (-1))] := by
    simp only [allowed_cons, LinkCallAllowed, CallAllowed]
    exact ⟨by decide, by decide, trivial, by decide, by decide, allowed_nil _ _ _⟩
  refine ((senders_never_tear_iff linkStart_initial hok).mpr ?_).2
  simp only [runSteps, List.forall_mem_cons, NoShortSend]
  exact ⟨by decide, by decide, trivial, by decide, by decide, fun p hp ↦ absurd hp List.not_mem_nil⟩

-- `write` takes three of six bytes, and the next frame follows them
theorem senders_tear_on_short_write :
    Allowed linkStep LinkCallAllowed linkStart
        [.transportSend smallFrame 3, .transportSend smallFrame 6] ∧
      (runState linkStep linkStart [.transportSend smallFrame 3, .transportSend smallFrame 6]).uart =
        [0x7E, 0x00, 0x01, 0x7E, 0x00, 0x01, 0x2A, 0x7A, 0x85] ∧
      ¬ StreamsWhole
        (runState linkStep linkStart [.transportSend smallFrame 3, .transportSend smallFrame 6]) := by
  have hok : Allowed linkStep LinkCallAllowed linkStart
      [.transportSend smallFrame 3, .transportSend smallFrame 6] := by
    simp only [allowed_cons, LinkCallAllowed]
    exact ⟨by decide, by decide, allowed_nil _ _ _⟩
  refine ⟨hok, by decide, fun h ↦ ?_⟩
  obtain ⟨sent, hsent, huart⟩ := h.uart
  have hall : ∀ sent ∈ [smallFrame, smallFrame].sublists, sent.flatten ≠
      [0x7E, 0x00, 0x01, 0x7E, 0x00, 0x01, 0x2A, 0x7A, 0x85] := by decide
  exact hall sent (List.mem_sublists.mpr hsent) huart.symm

end SubmarineMonitor
