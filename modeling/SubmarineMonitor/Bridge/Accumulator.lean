import SubmarineMonitor.Bridge.Downlink
import SubmarineMonitor.Bridge.MainLoop

/-!
# Accumulator — when the downlink accumulator fills up for good

A full `g_recvBuf` stops `recv`, and with it the check for the peer's close.  It stays full when its
first frame is never complete.  The client may send any bytes here, in any chunks.
-/

open Reasoning

namespace SubmarineMonitor

/-! ## 1. Runs of the server -/

inductive ServerCall
  | accept (fd : Int)
  | send (data : Bytes) (sentPrefix sentData : Int)
  | tryRecv (outBuf : Mem) (maxLen : Nat) (outcome : RecvOutcome)

def serverStep (s : BridgeServer) : ServerCall → BridgeServer × Option (Nat × Mem)
  | .accept fd => ((bridgeServerAccept s fd).2, none)
  | .send data sentPrefix sentData => ((bridgeServerSend s data sentPrefix sentData).1, none)
  | .tryRecv outBuf maxLen outcome =>
      let out := bridgeServerTryRecv s outBuf maxLen outcome
      (out.server, some (out.count, out.outBuf))

def CallAllowed (s : BridgeServer) : ServerCall → Prop
  | .accept _ => True
  | .send _ _ _ => True
  | .tryRecv _ _ outcome => RecvFits s outcome

/-! ## 2. A full accumulator -/

/-- The accumulator is not full with an incomplete frame in front, so the next call reads what there is
    to read or finds that the client has left, and then another client is let in. -/
structure HasRoom (s : BridgeServer) : Prop where
  notFull : ¬ (s.recvLen = bridgeRecvBufSize ∧ bridgeRecvBufSize < 4 + prefixLen s.live)
  reads : 0 ≤ s.clientFd → ∀ bytes, bytesRead s (.data bytes) = bytes
  leaves : ∀ outBuf maxLen, (bridgeServerTryRecv s outBuf maxLen .closed).server.clientFd = -1
  admits : ∀ outBuf maxLen fd, 0 ≤ s.listenFd → 0 ≤ fd →
    (bridgeServerAccept (bridgeServerTryRecv s outBuf maxLen .closed).server fd).2.clientFd = fd

/-- The bytes that wait after this call's `recv` do not fill the accumulator, or begin with a frame that
    the call removes at least in part. -/
def KeepsRoom (s : BridgeServer) (outcome : RecvOutcome) : Prop :=
  (receivedBytes s outcome).length < bridgeRecvBufSize ∨
    prefixLen (receivedBytes s outcome) ≤ 508 ∨
    4294967292 < prefixLen (receivedBytes s outcome)

structure ServerInv (s : BridgeServer) : Prop where
  len : s.recvLen ≤ bridgeRecvBufSize
  fd : s.clientFd = -1 ∨ 0 ≤ s.clientFd
  full : s.recvLen = bridgeRecvBufSize → 508 < prefixLen s.live ∧ prefixLen s.live ≤ 4294967292

theorem serverInv_init (listenFd : Int) (recvBuf : Mem) :
    ServerInv (bridgeServerInit listenFd recvBuf) where
  len := Nat.zero_le _
  fd := .inl rfl
  full := fun h ↦ absurd h (by decide : ¬ 0 = bridgeRecvBufSize)

theorem ServerInv.hasRoom_iff {s : BridgeServer} (h : ServerInv s) :
    HasRoom s ↔ s.recvLen ≠ bridgeRecvBufSize := by
  constructor
  · intro hroom hfull
    apply hroom.notFull
    have hfront := (h.full hfull).1
    unfold bridgeRecvBufSize
    exact ⟨hfull, by omega⟩
  · intro hne
    have hlt : s.recvLen < bridgeRecvBufSize := Nat.lt_of_le_of_ne h.len hne
    have hleaves : ∀ outBuf maxLen,
        (bridgeServerTryRecv s outBuf maxLen .closed).server.clientFd = -1 := by
      intro outBuf maxLen
      rcases h.fd with hfd | hfd
      · rw [tryRecv_disconnected (by omega)]
        exact hfd
      · rw [tryRecv_closed hfd ⟨hlt, rfl⟩]
    refine ⟨fun hfull ↦ hne hfull.1, fun hfd bytes ↦ ?_, hleaves, fun outBuf maxLen fd hl hf ↦ ?_⟩
    · rw [bytesRead, if_neg (by omega), if_pos hlt]
    · have hlisten : (bridgeServerTryRecv s outBuf maxLen .closed).server.listenFd = s.listenFd := by
        rcases h.fd with hfd | hfd
        · rw [tryRecv_disconnected (by omega)]
        · rw [tryRecv_closed hfd ⟨hlt, rfl⟩]
      rw [bridgeServerAccept, if_neg (not_not.mpr (hleaves outBuf maxLen)), hlisten,
        if_neg (by omega), if_neg (by omega)]

/-! ## 3. One call -/

def leftBytes (l : Bytes) : Bytes :=
  if l.length < 4 ∨ l.length < u32 (4 + prefixLen l) then l else l.drop (u32 (4 + prefixLen l))

theorem takeFrame_live {s : BridgeServer} (outBuf : Mem) (maxLen : Nat)
    (hlen : s.recvLen ≤ bridgeRecvBufSize) :
    (bridgeServerTakeFrame s outBuf maxLen).server.live = leftBytes s.live ∧
      (bridgeServerTakeFrame s outBuf maxLen).server.clientFd = s.clientFd := by
  unfold bridgeRecvBufSize at hlen
  unfold bridgeServerTakeFrame leftBytes
  rw [BridgeServer.live_length]
  by_cases h4 : s.recvLen < 4
  · rw [if_pos h4, if_pos (.inl h4)]
    exact ⟨rfl, rfl⟩
  have hget := prefixLen_live (show 4 ≤ s.recvLen by omega)
  simp only [if_neg h4, hget]
  generalize u32 (4 + prefixLen s.live) = frameLen
  by_cases hwait : s.recvLen < frameLen
  · rw [if_pos hwait, if_pos (.inr hwait)]
    exact ⟨rfl, rfl⟩
  · have htake : ¬ (s.recvLen < 4 ∨ s.recvLen < frameLen) := by omega
    have hremaining : u16 (s.recvLen - frameLen) = s.recvLen - frameLen := u16_of_lt (by omega)
    rw [if_neg hwait, if_neg htake, hremaining]
    refine ⟨?_, rfl⟩
    show slice (store s.recvBuf 0 (slice s.recvBuf frameLen (s.recvLen - frameLen))) 0
      (s.recvLen - frameLen) = s.live.drop frameLen
    rw [slice_store_of_length _ _ _ (slice_length _ _ _), BridgeServer.live,
      slice_drop _ _ (by omega), Nat.zero_add]

theorem leftBytes_length_le (l : Bytes) : (leftBytes l).length ≤ l.length := by
  unfold leftBytes
  by_cases hwait : l.length < 4 ∨ l.length < u32 (4 + prefixLen l)
  · rw [if_pos hwait]
  · rw [if_neg hwait, List.length_drop]
    exact Nat.sub_le _ _

/-- The waiting bytes still fill the accumulator exactly when nothing of them was removed and they
    filled it before. -/
theorem leftBytes_full {l : Bytes} (hlen : l.length ≤ bridgeRecvBufSize) :
    (leftBytes l).length = bridgeRecvBufSize ↔
      l.length = bridgeRecvBufSize ∧ 508 < prefixLen l ∧ prefixLen l ≤ 4294967292 := by
  have hk : prefixLen l < 4294967296 := u32_lt _
  unfold bridgeRecvBufSize at hlen ⊢
  unfold leftBytes
  by_cases hwrap : 4294967292 ≤ prefixLen l
  · -- the frame length is 0, 1, 2 or 3
    have hsmall : u32 (4 + prefixLen l) = prefixLen l - 4294967292 := by
      unfold u32
      omega
    rw [hsmall]
    by_cases hwait : l.length < 4 ∨ l.length < prefixLen l - 4294967292
    · rw [if_pos hwait]
      omega
    · rw [if_neg hwait, List.length_drop]
      omega
  · rw [u32_of_lt (by omega)]
    by_cases hwait : l.length < 4 ∨ l.length < 4 + prefixLen l
    · rw [if_pos hwait]
      omega
    · rw [if_neg hwait, List.length_drop]
      omega

theorem leftBytes_of_full {l : Bytes} (hfull : (leftBytes l).length = l.length) :
    leftBytes l = l := by
  unfold leftBytes at hfull ⊢
  by_cases hwait : l.length < 4 ∨ l.length < u32 (4 + prefixLen l)
  · rw [if_pos hwait]
  · rw [if_neg hwait] at hfull ⊢
    rw [List.length_drop] at hfull
    rw [show u32 (4 + prefixLen l) = 0 by omega, List.drop_zero]

/-- A call keeps the invariant, and leaves the accumulator full exactly when it does not keep room. -/
theorem tryRecv_full {s : BridgeServer} (h : ServerInv s) (outBuf : Mem) (maxLen : Nat)
    {outcome : RecvOutcome} (hfits : RecvFits s outcome) :
    ServerInv (bridgeServerTryRecv s outBuf maxLen outcome).server ∧
      ((bridgeServerTryRecv s outBuf maxLen outcome).server.recvLen ≠ bridgeRecvBufSize ↔
        KeepsRoom s outcome) := by
  by_cases hfd : s.clientFd < 0
  · -- no client: nothing happens
    rw [tryRecv_disconnected hfd]
    refine ⟨h, ?_⟩
    have hreceived : receivedBytes s outcome = s.live := by
      unfold receivedBytes bytesRead
      rw [if_pos hfd, List.append_nil]
    have hfull := h.full
    have hlen := h.len
    unfold KeepsRoom
    rw [hreceived, BridgeServer.live_length]
    dsimp only
    omega
  have hconnected : 0 ≤ s.clientFd := by omega
  by_cases hclose : SeesClose s outcome
  · -- the peer has closed: the accumulator is emptied
    rw [tryRecv_closed hconnected hclose]
    have hreceived : receivedBytes s outcome = s.live := by
      unfold receivedBytes bytesRead
      rw [if_neg hfd, if_pos hclose.1, hclose.2]
      exact List.append_nil _
    refine ⟨⟨Nat.zero_le _, .inl rfl, fun hz ↦ ?_⟩, ?_⟩
    · exact absurd (show 0 = bridgeRecvBufSize from hz) (by decide)
    refine iff_of_true (by decide : 0 ≠ bridgeRecvBufSize) (.inl ?_)
    rw [hreceived, BridgeServer.live_length]
    exact hclose.1
  · obtain ⟨s', hlive, hlen', hfd', htry⟩ := tryRecv_open h.len hconnected hfits hclose
    obtain ⟨hleft, hclient⟩ := takeFrame_live (s := s') outBuf maxLen hlen'
    have hlen : s'.live.length ≤ bridgeRecvBufSize := by
      rw [BridgeServer.live_length]
      exact hlen'
    have hfull := leftBytes_full hlen
    have hle := leftBytes_length_le s'.live
    rw [htry, ← BridgeServer.live_length, hleft]
    unfold KeepsRoom
    rw [← hlive]
    constructor
    · constructor
      · rw [← BridgeServer.live_length, hleft]
        omega
      · rw [hclient, hfd']
        exact .inr hconnected
      · rw [← BridgeServer.live_length, hleft]
        intro heq
        obtain ⟨hlength, hfront⟩ := hfull.mp heq
        rw [leftBytes_of_full (heq.trans hlength.symm)]
        exact hfront
    · omega

/-! ## 4. Runs -/

theorem serverInv_step (s : BridgeServer) (call : ServerCall) (h : ServerInv s)
    (hok : CallAllowed s call) : ServerInv (serverStep s call).1 := by
  cases call with
  | accept fd =>
      rcases bridgeServerAccept_cases s fd with ⟨b, haccept, -⟩ | ⟨-, hfd, haccept⟩
      · show ServerInv (bridgeServerAccept s fd).2
        rw [haccept]
        exact h
      · show ServerInv (bridgeServerAccept s fd).2
        rw [haccept]
        exact ⟨Nat.zero_le _, .inr hfd, fun hz ↦
          absurd (show 0 = bridgeRecvBufSize from hz) (by decide)⟩
  | send data sentPrefix sentData =>
      show ServerInv (bridgeServerSend s data sentPrefix sentData).1
      rcases bridgeServerSend_cases s data sentPrefix sentData with hsend | hsend
      · rw [hsend]
        exact h
      · rw [hsend]
        exact ⟨h.len, .inl rfl, h.full⟩
  | tryRecv outBuf maxLen outcome => exact (tryRecv_full h outBuf maxLen hok).1

/-- In every run, with any bytes from the clients in any chunks: behind each call of
    `BridgeServer_TryRecv` there is room exactly when each call keeps room. -/
theorem accumulator_never_wedges_iff (listenFd : Int) (recvBuf : Mem) {calls : List ServerCall}
    (hok : Allowed serverStep CallAllowed (bridgeServerInit listenFd recvBuf) calls) :
    (∀ p ∈ runSteps serverStep (bridgeServerInit listenFd recvBuf) calls,
        ∀ outBuf maxLen outcome, p.2 = .tryRecv outBuf maxLen outcome →
          HasRoom (serverStep p.1 p.2).1) ↔
      ∀ p ∈ runSteps serverStep (bridgeServerInit listenFd recvBuf) calls,
        ∀ outBuf maxLen outcome, p.2 = .tryRecv outBuf maxLen outcome → KeepsRoom p.1 outcome := by
  have hinv := (run_invariant serverInv_step (serverInv_init listenFd recvBuf) hok).2
  refine forall₂_congr fun p hp ↦ forall₃_congr fun outBuf maxLen outcome ↦ ?_
  refine imp_congr_right fun hcall ↦ ?_
  have hfits : CallAllowed p.1 p.2 := hok p hp
  rw [hcall] at hfits ⊢
  obtain ⟨hafter, hkeeps⟩ := tryRecv_full (hinv p hp) outBuf maxLen hfits
  exact hafter.hasRoom_iff.trans hkeeps

/-- A full accumulator stays as it is, whatever the client does. -/
theorem ServerInv.full_for_good {s : BridgeServer} (h : ServerInv s)
    (hfull : s.recvLen = bridgeRecvBufSize) (outBuf : Mem) (maxLen : Nat) (outcome : RecvOutcome) :
    (bridgeServerTryRecv s outBuf maxLen outcome).server.live = s.live ∧
      (bridgeServerTryRecv s outBuf maxLen outcome).server.clientFd = s.clientFd ∧
      bytesRead s outcome = [] := by
  have hread : bytesRead s outcome = [] := by
    unfold bytesRead
    rw [if_neg (show ¬ s.recvLen < bridgeRecvBufSize by omega), ite_self]
  rcases h.fd with hfd | hfd
  · rw [tryRecv_disconnected (by omega)]
    exact ⟨rfl, rfl, hread⟩
  · have hrecv : bridgeServerRecv s outcome = some s := by
      unfold bridgeServerRecv
      rw [if_neg (by omega)]
    have htake := takeFrame_live outBuf maxLen h.len
    have hlength : (leftBytes s.live).length = s.live.length := by
      rw [BridgeServer.live_length, hfull]
      apply (leftBytes_full (by rw [BridgeServer.live_length]; exact h.len)).mpr
      rw [BridgeServer.live_length]
      exact ⟨hfull, h.full hfull⟩
    rw [bridgeServerTryRecv, if_neg (by omega), hrecv]
    exact ⟨htake.1.trans (leftBytes_of_full hlength), htake.2, hread⟩

def fullChunk : Bytes := [0x00, 0x00, 0x01, 0x00] ++ List.replicate 508 0x00

theorem accumulator_never_wedges_full :
    HasRoom (serverStep (serverStep (bridgeServerInit 3 fun _ ↦ 0) (.accept 4)).1
      (.tryRecv (fun _ ↦ 0) 256 (.data fullChunk))).1 := by
  have hok : Allowed serverStep CallAllowed (bridgeServerInit 3 fun _ ↦ 0)
      [.accept 4, .tryRecv (fun _ ↦ 0) 256 (.data fullChunk)] := by
    rw [allowed_cons, allowed_cons]
    exact ⟨trivial, ⟨by decide, by decide +kernel⟩, allowed_nil _ _ _⟩
  have hkeeps : ∀ p ∈ runSteps serverStep (bridgeServerInit 3 fun _ ↦ 0)
      [.accept 4, .tryRecv (fun _ ↦ 0) 256 (.data fullChunk)], ∀ outBuf maxLen outcome,
      p.2 = .tryRecv outBuf maxLen outcome → KeepsRoom p.1 outcome := by
    intro p hp outBuf maxLen outcome hcall
    rcases List.mem_cons.mp hp with rfl | hp
    · exact nomatch hcall
    · obtain rfl := List.mem_singleton.mp hp
      obtain ⟨-, -, rfl⟩ := ServerCall.tryRecv.inj hcall
      exact .inr (.inl (by decide +kernel))
  exact (accumulator_never_wedges_iff 3 (fun _ ↦ 0) hok).mpr hkeeps
    ((serverStep (bridgeServerInit 3 fun _ ↦ 0) (.accept 4)).1,
      .tryRecv (fun _ ↦ 0) 256 (.data fullChunk))
    (List.mem_cons_of_mem _ List.mem_cons_self) _ _ _ rfl

def oversizedRun : List ServerCall :=
  [.accept 4,
    .tryRecv (fun _ ↦ 0) 256 (.data ([0x00, 0x00, 0x01, 0xFD] ++ List.replicate 508 0x2A))]

-- the accumulator is full for good: nothing is read, no close is seen, nobody else is let in
theorem accumulator_wedges_on_oversized :
    Allowed serverStep CallAllowed (bridgeServerInit 3 fun _ ↦ 0) oversizedRun ∧
      (¬ ∀ p ∈ runSteps serverStep (bridgeServerInit 3 fun _ ↦ 0) oversizedRun,
        ∀ outBuf maxLen outcome, p.2 = .tryRecv outBuf maxLen outcome →
          HasRoom (serverStep p.1 p.2).1) ∧
      ∀ outBuf maxLen outcome,
        (bridgeServerTryRecv (runState serverStep (bridgeServerInit 3 fun _ ↦ 0) oversizedRun)
          outBuf maxLen outcome).server.clientFd = 4 := by
  have hok : Allowed serverStep CallAllowed (bridgeServerInit 3 fun _ ↦ 0) oversizedRun := by
    rw [oversizedRun, allowed_cons, allowed_cons]
    exact ⟨trivial, ⟨by decide, by decide +kernel⟩, allowed_nil _ _ _⟩
  have hinv := (run_invariant serverInv_step (serverInv_init 3 fun _ ↦ 0) hok).1
  have hfull : (runState serverStep (bridgeServerInit 3 fun _ ↦ 0) oversizedRun).recvLen =
      bridgeRecvBufSize := by decide +kernel
  have hclient : (runState serverStep (bridgeServerInit 3 fun _ ↦ 0) oversizedRun).clientFd = 4 := by
    decide +kernel
  refine ⟨hok, fun hroom ↦ ?_, fun outBuf maxLen outcome ↦ ?_⟩
  · have hlast := hroom _ (List.mem_cons_of_mem _ List.mem_cons_self) _ _ _ rfl
    exact hinv.hasRoom_iff.mp hlast hfull
  · exact (hinv.full_for_good hfull outBuf maxLen outcome).2.1.trans hclient

end SubmarineMonitor
