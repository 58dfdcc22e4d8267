import SubmarineMonitor.Bridge.Server

/-!
# Downlink — one call of `BridgeServer_TryRecv`

What a call returns and removes in terms of the bytes received from the client, and for which
length prefixes that is all it touches.
-/

open Reasoning

namespace SubmarineMonitor

/-- `g_recvBuf[0..g_recvLen)`. -/
def BridgeServer.live (s : BridgeServer) : Bytes := slice s.recvBuf 0 s.recvLen

@[simp] theorem BridgeServer.live_length (s : BridgeServer) : s.live.length = s.recvLen :=
  slice_length _ _ _

def bytesRead (s : BridgeServer) (outcome : RecvOutcome) : Bytes :=
  if s.clientFd < 0 then []
  else if s.recvLen < bridgeRecvBufSize then
    match outcome with
    | .data bytes => bytes
    | .closed => []
    | .error => []
  else []

/-- `recv` returns at least one byte and at most as many as it is offered room for. -/
def RecvFits (s : BridgeServer) : RecvOutcome → Prop
  | .data bytes => bytes ≠ [] ∧ bytes.length ≤ bridgeRecvBufSize - s.recvLen
  | .closed => True
  | .error => True

def SeesClose (s : BridgeServer) (outcome : RecvOutcome) : Prop :=
  s.recvLen < bridgeRecvBufSize ∧ outcome = .closed

/-! ## 1. Receiving -/

theorem bridgeServerRecv_closed {s : BridgeServer} {outcome : RecvOutcome}
    (h : SeesClose s outcome) : bridgeServerRecv s outcome = none := by
  unfold bridgeServerRecv
  rw [if_pos h.1, h.2]

/-- What waits after `recv` is what waited before and what was read. -/
theorem bridgeServerRecv_open {s : BridgeServer} {outcome : RecvOutcome}
    (hlen : s.recvLen ≤ bridgeRecvBufSize) (hfd : 0 ≤ s.clientFd) (hfits : RecvFits s outcome)
    (h : ¬ SeesClose s outcome) :
    ∃ s', bridgeServerRecv s outcome = some s' ∧ s'.live = s.live ++ bytesRead s outcome ∧
      s'.recvLen ≤ bridgeRecvBufSize ∧ s'.clientFd = s.clientFd ∧ s'.listenFd = s.listenFd := by
  unfold bridgeRecvBufSize at hlen
  unfold bridgeServerRecv bytesRead
  rw [if_neg (show ¬ s.clientFd < 0 by omega)]
  by_cases hroom : s.recvLen < bridgeRecvBufSize
  · rw [if_pos hroom, if_pos hroom]
    cases outcome with
    | data bytes =>
        have hbytes := hfits.2
        unfold bridgeRecvBufSize at hroom hbytes
        have hstore := slice_store_append s.recvBuf 0 s.recvLen bytes
        rw [Nat.zero_add] at hstore
        refine ⟨_, rfl, ?_, ?_, rfl, rfl⟩
        · simp only [BridgeServer.live]
          rw [u16_of_lt (by omega), hstore]
        · simp only [bridgeRecvBufSize]
          rw [u16_of_lt (by omega)]
          omega
    | closed => exact absurd ⟨hroom, rfl⟩ h
    | error => exact ⟨s, rfl, (List.append_nil _).symm, hlen, rfl, rfl⟩
  · rw [if_neg hroom, if_neg hroom]
    exact ⟨s, rfl, (List.append_nil _).symm, hlen, rfl, rfl⟩

/-! ## 2. Taking a frame out -/

def prefixLen (l : Bytes) : Nat := protocolGetU32 (ofList l 0)

theorem protocolGetU32_congr {m m' : Mem} (h : slice m 0 4 = slice m' 0 4) :
    protocolGetU32 m = protocolGetU32 m' := by
  simp only [slice_succ, slice_zero, Nat.zero_add, List.cons.injEq, and_true] at h
  rw [protocolGetU32_eq, protocolGetU32_eq, h.1, h.2.1, h.2.2.1, h.2.2.2]

theorem prefixLen_live {s : BridgeServer} (h : 4 ≤ s.recvLen) :
    protocolGetU32 s.recvBuf = prefixLen s.live := by
  apply protocolGetU32_congr
  have hlive := congrArg (List.take 4) (slice_ofList s.live 0)
  rw [BridgeServer.live_length, slice_take _ _ h, BridgeServer.live, slice_take _ _ h] at hlive
  exact hlive.symm

/-- `BridgeServer_TryRecv` behind `recv` on the waiting bytes: the count, the caller's buffer and what
    keeps waiting. -/
def takeMessage (outBuf : Mem) (maxLen : Nat) (l : Bytes) : Nat × Mem × Bytes :=
  if l.length < 4 ∨ l.length < u32 (4 + prefixLen l) then (0, outBuf, l)
  else
    let copyLen := min (prefixLen l) maxLen
    (copyLen, store outBuf 0 ((l.drop 4).take copyLen), l.drop (u32 (4 + prefixLen l)))

/-- The call touches nothing but the waiting bytes unless the frame length wraps. -/
theorem takeFrame_eq {s : BridgeServer} (outBuf : Mem) {maxLen : Nat}
    (hlen : s.recvLen ≤ bridgeRecvBufSize)
    (hsafe : maxLen = 0 ∨ s.recvLen < 4 ∨ prefixLen s.live < 4294967292) :
    let out := bridgeServerTakeFrame s outBuf maxLen
    (out.count, out.outBuf, out.server.live) = takeMessage outBuf maxLen s.live ∧
      out.server.recvLen ≤ bridgeRecvBufSize ∧ out.server.clientFd = s.clientFd := by
  unfold bridgeRecvBufSize at hlen ⊢
  unfold bridgeServerTakeFrame takeMessage
  rw [BridgeServer.live_length]
  by_cases h4 : s.recvLen < 4
  · rw [if_pos h4, if_pos (.inl h4)]
    exact ⟨rfl, hlen, rfl⟩
  have hget := prefixLen_live (show 4 ≤ s.recvLen by omega)
  generalize prefixLen s.live = k at hsafe hget ⊢
  simp only [if_neg h4, hget]
  by_cases hwait : s.recvLen < u32 (4 + k)
  · rw [if_pos hwait, if_pos (.inr hwait)]
    exact ⟨rfl, hlen, rfl⟩
  have hcopy : (if k < maxLen then u16 k else maxLen) = min k maxLen := by
    by_cases hmax : k < maxLen
    · -- a payload length below the caller's room is a complete message
      rw [u32_of_lt (by omega)] at hwait
      rw [if_pos hmax, u16_of_lt (by omega)]
      omega
    · rw [if_neg hmax]
      omega
  -- what is copied has been received
  have hmin : min k maxLen ≤ s.recvLen - 4 := by
    rcases hsafe with rfl | hlt | hlt
    · omega
    · omega
    · rw [u32_of_lt (by omega)] at hwait
      omega
  have hpayload : slice s.recvBuf 4 (min k maxLen) = (s.live.drop 4).take (min k maxLen) := by
    rw [BridgeServer.live, slice_drop _ _ (show 4 ≤ s.recvLen by omega), slice_take _ _ hmin,
      Nat.zero_add]
  have htake : ¬ (s.recvLen < 4 ∨ s.recvLen < u32 (4 + k)) := by omega
  rw [if_neg hwait, if_neg htake, hcopy, hpayload, u16_of_lt (by omega)]
  refine ⟨?_, Nat.le_trans (Nat.sub_le _ _) hlen, rfl⟩
  simp only [BridgeServer.live, Prod.mk.injEq, true_and]
  rw [slice_store_of_length _ _ _ (slice_length _ _ _), slice_drop _ _ (by omega), Nat.zero_add]

/-! ## 3. A call -/

def receivedBytes (s : BridgeServer) (outcome : RecvOutcome) : Bytes :=
  s.live ++ bytesRead s outcome

theorem tryRecv_disconnected {s : BridgeServer} (h : s.clientFd < 0) (outBuf : Mem)
    (maxLen : Nat) (outcome : RecvOutcome) :
    bridgeServerTryRecv s outBuf maxLen outcome = { count := 0, outBuf, server := s } := by
  rw [bridgeServerTryRecv, if_pos h]

theorem tryRecv_closed {s : BridgeServer} {outcome : RecvOutcome} (hfd : 0 ≤ s.clientFd)
    (h : SeesClose s outcome) (outBuf : Mem) (maxLen : Nat) :
    bridgeServerTryRecv s outBuf maxLen outcome =
      { count := 0, outBuf, server := { s with clientFd := -1, recvLen := 0 } } := by
  rw [bridgeServerTryRecv, if_neg (by omega), bridgeServerRecv_closed h]

theorem tryRecv_open {s : BridgeServer} {outcome : RecvOutcome}
    (hlen : s.recvLen ≤ bridgeRecvBufSize) (hfd : 0 ≤ s.clientFd) (hfits : RecvFits s outcome)
    (h : ¬ SeesClose s outcome) :
    ∃ s', s'.live = receivedBytes s outcome ∧ s'.recvLen ≤ bridgeRecvBufSize ∧
      s'.clientFd = s.clientFd ∧ ∀ outBuf maxLen,
        bridgeServerTryRecv s outBuf maxLen outcome = bridgeServerTakeFrame s' outBuf maxLen := by
  obtain ⟨s', hrecv, hlive, hlen', hfd', -⟩ := bridgeServerRecv_open hlen hfd hfits h
  refine ⟨s', hlive, hlen', hfd', fun outBuf maxLen ↦ ?_⟩
  rw [bridgeServerTryRecv, if_neg (by omega), hrecv]

/-- What a call should do: hand out a complete message of the current client and remove it, and not
    depend on the stale bytes behind what waits. -/
structure TakesOnlyReceived (s : BridgeServer) (outBuf : Mem) (maxLen : Nat)
    (outcome : RecvOutcome) : Prop where
  taken : (bridgeServerTryRecv s outBuf maxLen outcome).count ≠ 0 →
    4 ≤ (receivedBytes s outcome).length ∧
      4 + prefixLen (receivedBytes s outcome) ≤ (receivedBytes s outcome).length ∧
      (bridgeServerTryRecv s outBuf maxLen outcome).count =
        min (prefixLen (receivedBytes s outcome)) maxLen ∧
      (bridgeServerTryRecv s outBuf maxLen outcome).outBuf =
        store outBuf 0 (((receivedBytes s outcome).drop 4).take
          (bridgeServerTryRecv s outBuf maxLen outcome).count) ∧
      (bridgeServerTryRecv s outBuf maxLen outcome).server.live =
        (receivedBytes s outcome).drop (4 + prefixLen (receivedBytes s outcome))
  untouched : (bridgeServerTryRecv s outBuf maxLen outcome).count = 0 →
    (bridgeServerTryRecv s outBuf maxLen outcome).outBuf = outBuf
  stale : ∀ recvBuf, slice recvBuf 0 s.recvLen = s.live →
    (bridgeServerTryRecv { s with recvBuf } outBuf maxLen outcome).count =
        (bridgeServerTryRecv s outBuf maxLen outcome).count ∧
      (bridgeServerTryRecv { s with recvBuf } outBuf maxLen outcome).outBuf =
        (bridgeServerTryRecv s outBuf maxLen outcome).outBuf ∧
      (bridgeServerTryRecv { s with recvBuf } outBuf maxLen outcome).server.live =
        (bridgeServerTryRecv s outBuf maxLen outcome).server.live

/-- A call in which the frame length does not wrap is `takeMessage` on the received bytes. -/
theorem tryRecv_eq {s : BridgeServer} (outBuf : Mem) {maxLen : Nat} {outcome : RecvOutcome}
    (hlen : s.recvLen ≤ bridgeRecvBufSize) (hfd : 0 ≤ s.clientFd) (hfits : RecvFits s outcome)
    (hopen : ¬ SeesClose s outcome)
    (hsafe : maxLen = 0 ∨ (receivedBytes s outcome).length < 4 ∨
      prefixLen (receivedBytes s outcome) < 4294967292) :
    let out := bridgeServerTryRecv s outBuf maxLen outcome
    (out.count, out.outBuf, out.server.live) =
        takeMessage outBuf maxLen (receivedBytes s outcome) ∧
      out.server.recvLen ≤ bridgeRecvBufSize ∧ out.server.clientFd = s.clientFd := by
  obtain ⟨s', hlive, hlen', hfd', htry⟩ := tryRecv_open hlen hfd hfits hopen
  rw [← hlive, BridgeServer.live_length] at hsafe
  simp only [htry outBuf maxLen, ← hlive, ← hfd']
  exact takeFrame_eq outBuf hlen' hsafe

theorem takeMessage_untouched {outBuf : Mem} {maxLen : Nat} {l : Bytes}
    (h : (takeMessage outBuf maxLen l).1 = 0) : (takeMessage outBuf maxLen l).2.1 = outBuf := by
  unfold takeMessage at h ⊢
  by_cases hwait : l.length < 4 ∨ l.length < u32 (4 + prefixLen l)
  · rw [if_pos hwait]
  · rw [if_neg hwait] at h ⊢
    simp only at h ⊢
    rw [h, List.take_zero, store_nil]

theorem takeMessage_taken {outBuf : Mem} {maxLen : Nat} {l : Bytes}
    (hsafe : maxLen = 0 ∨ l.length < 4 ∨ prefixLen l < 4294967292)
    (h : (takeMessage outBuf maxLen l).1 ≠ 0) :
    4 ≤ l.length ∧ 4 + prefixLen l ≤ l.length ∧
      takeMessage outBuf maxLen l =
        (min (prefixLen l) maxLen,
          store outBuf 0 ((l.drop 4).take (min (prefixLen l) maxLen)),
          l.drop (4 + prefixLen l)) := by
  unfold takeMessage at h ⊢
  by_cases hwait : l.length < 4 ∨ l.length < u32 (4 + prefixLen l)
  · rw [if_pos hwait] at h
    exact absurd rfl h
  rw [if_neg hwait] at h ⊢
  simp only at h
  have hlt : prefixLen l < 4294967292 := by omega
  rw [u32_of_lt (by omega)] at hwait ⊢
  exact ⟨by omega, by omega, rfl⟩

/-! ## 4. For which prefixes a call takes only what was received -/

section Prefixes

variable {s : BridgeServer} {outBuf : Mem} {maxLen : Nat} {outcome : RecvOutcome}

-- no client: nothing happens
theorem takesOnlyReceived_disconnected (hfd : s.clientFd < 0) :
    TakesOnlyReceived s outBuf maxLen outcome := by
  refine ⟨?_, ?_, fun recvBuf hbuf ↦ ?_⟩
  · rw [tryRecv_disconnected hfd]
    exact fun h ↦ absurd rfl h
  · rw [tryRecv_disconnected hfd]
    exact fun _ ↦ rfl
  · rw [tryRecv_disconnected hfd, tryRecv_disconnected (s := { s with recvBuf }) hfd]
    exact ⟨rfl, rfl, hbuf⟩

-- the peer has closed: the accumulator is emptied
theorem takesOnlyReceived_closed (hfd : 0 ≤ s.clientFd) (hclose : SeesClose s outcome) :
    TakesOnlyReceived s outBuf maxLen outcome := by
  refine ⟨?_, ?_, fun recvBuf _ ↦ ?_⟩
  · rw [tryRecv_closed hfd hclose]
    exact fun h ↦ absurd rfl h
  · rw [tryRecv_closed hfd hclose]
    exact fun _ ↦ rfl
  · rw [tryRecv_closed hfd hclose, tryRecv_closed (s := { s with recvBuf }) hfd hclose]
    exact ⟨rfl, rfl, rfl⟩

theorem takesOnlyReceived_safe (hlen : s.recvLen ≤ bridgeRecvBufSize) (hfd : 0 ≤ s.clientFd)
    (hfits : RecvFits s outcome) (hopen : ¬ SeesClose s outcome)
    (hsafe : maxLen = 0 ∨ (receivedBytes s outcome).length < 4 ∨
      prefixLen (receivedBytes s outcome) < 4294967292) :
    TakesOnlyReceived s outBuf maxLen outcome := by
  have heq := (tryRecv_eq outBuf hlen hfd hfits hopen hsafe).1
  have hcount := congrArg Prod.fst heq
  have hout := congrArg (·.2.1) heq
  have hlive := congrArg (·.2.2) heq
  simp only at hcount hout hlive
  refine ⟨fun hne ↦ ?_, fun hzero ↦ ?_, fun recvBuf hbuf ↦ ?_⟩
  · rw [hcount] at hne
    obtain ⟨h4, hall, htake⟩ := takeMessage_taken hsafe hne
    rw [hcount, hout, hlive, htake]
    exact ⟨h4, hall, rfl, rfl, rfl⟩
  · rw [hcount] at hzero
    rw [hout, takeMessage_untouched hzero]
  · -- a call sees of the accumulator only what waits in it
    have hreceived : receivedBytes { s with recvBuf } outcome = receivedBytes s outcome := by
      unfold receivedBytes
      rw [← hbuf]
      rfl
    have heq' := (tryRecv_eq (s := { s with recvBuf }) outBuf hlen hfd hfits hopen
      (by rw [hreceived]; exact hsafe)).1
    rw [hreceived, ← heq] at heq'
    simp only [Prod.mk.injEq] at heq'
    exact heq'

/-- A frame length that wraps is less than four, so `maxLen` bytes are handed out at once. -/
theorem tryRecv_wraps (hlen : s.recvLen ≤ bridgeRecvBufSize) (hmax : maxLen < 65536)
    (hfd : 0 ≤ s.clientFd) (hfits : RecvFits s outcome) (hopen : ¬ SeesClose s outcome)
    (h4 : 4 ≤ (receivedBytes s outcome).length)
    (hwrap : 4294967292 ≤ prefixLen (receivedBytes s outcome)) :
    (bridgeServerTryRecv s outBuf maxLen outcome).count = maxLen ∧
      (receivedBytes s outcome).length ≤ bridgeRecvBufSize := by
  obtain ⟨s', hlive, hlen', -, htry⟩ := tryRecv_open hlen hfd hfits hopen
  rw [← hlive] at h4 hwrap ⊢
  rw [BridgeServer.live_length] at h4 ⊢
  refine ⟨?_, hlen'⟩
  have hget := prefixLen_live h4
  have hk : prefixLen s'.live < 4294967296 := u32_lt _
  have hsmall : u32 (4 + prefixLen s'.live) < 4 := by
    unfold u32
    omega
  rw [htry, bridgeServerTakeFrame, if_neg (by omega)]
  simp only [hget]
  rw [if_neg (by omega), if_neg (by omega)]

theorem tryRecv_takesOnlyReceived_iff (hlen : s.recvLen ≤ bridgeRecvBufSize)
    (hmax : maxLen < 65536) (hfits : RecvFits s outcome) :
    TakesOnlyReceived s outBuf maxLen outcome ↔
      maxLen = 0 ∨ s.clientFd < 0 ∨ SeesClose s outcome ∨
        (receivedBytes s outcome).length < 4 ∨ prefixLen (receivedBytes s outcome) < 4294967292 := by
  by_cases hfd : s.clientFd < 0
  · exact iff_of_true (takesOnlyReceived_disconnected hfd) (.inr (.inl hfd))
  have hconnected : 0 ≤ s.clientFd := by omega
  by_cases hclose : SeesClose s outcome
  · exact iff_of_true (takesOnlyReceived_closed hconnected hclose) (.inr (.inr (.inl hclose)))
  by_cases hsafe : maxLen = 0 ∨ (receivedBytes s outcome).length < 4 ∨
      prefixLen (receivedBytes s outcome) < 4294967292
  · exact iff_of_true (takesOnlyReceived_safe hlen hconnected hfits hclose hsafe) (by tauto)
  · -- more is handed out than the accumulator can hold of the message
    refine iff_of_false (fun h ↦ ?_) (by tauto)
    simp only [not_or] at hsafe
    have hwraps := @tryRecv_wraps s outBuf maxLen outcome hlen hmax hconnected hfits hclose (by omega)
      (by omega)
    have htaken := h.taken (by rw [hwraps.1]; exact hsafe.1)
    have hbound := hwraps.2
    unfold bridgeRecvBufSize at hbound
    omega

end Prefixes

def connectedServer (bytes : Bytes) : BridgeServer :=
  { listenFd := 3, clientFd := 4, recvBuf := ofList bytes 0xAA, recvLen := bytes.length }

-- one message of one byte
theorem tryRecv_takesOnlyReceived_message :
    TakesOnlyReceived (connectedServer [0x00, 0x00, 0x00, 0x01, 0x2A]) (fun _ ↦ 0) 256 .error := by
  have hfits : RecvFits (connectedServer [0x00, 0x00, 0x00, 0x01, 0x2A]) .error := trivial
  exact (tryRecv_takesOnlyReceived_iff (by decide) (by decide) hfits).mpr
    (.inr (.inr (.inr (.inr (by decide +kernel)))))

-- `4 + 0xFFFFFFFC` is 0: stale bytes go out, nothing is removed
theorem tryRecv_hands_out_stale :
    (bridgeServerTryRecv (connectedServer [0xFF, 0xFF, 0xFF, 0xFC]) (fun _ ↦ 0) 256 .error).count =
        256 ∧
      slice (bridgeServerTryRecv (connectedServer [0xFF, 0xFF, 0xFF, 0xFC]) (fun _ ↦ 0) 256
        .error).outBuf 0 2 = [0xAA, 0xAA] ∧
      (bridgeServerTryRecv (connectedServer [0xFF, 0xFF, 0xFF, 0xFC]) (fun _ ↦ 0) 256
        .error).server.recvLen = 4 ∧
      ¬ TakesOnlyReceived (connectedServer [0xFF, 0xFF, 0xFF, 0xFC]) (fun _ ↦ 0) 256 .error := by
  have hcount : (bridgeServerTryRecv (connectedServer [0xFF, 0xFF, 0xFF, 0xFC]) (fun _ ↦ 0) 256
      .error).count = 256 := by decide +kernel
  refine ⟨hcount, by decide +kernel, by decide +kernel, fun h ↦ ?_⟩
  have hall := (h.taken (by rw [hcount]; decide)).2.1
  exact absurd hall (by decide +kernel)

end SubmarineMonitor
