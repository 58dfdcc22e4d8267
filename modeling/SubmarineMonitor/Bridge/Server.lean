import SubmarineMonitor.Protocol.Words

/-!
# Server — the TCP side of `lnc_bridge`

`bridge_server.cpp`: the accumulator `g_recvBuf` and the calls on it.  What the kernel answers to
`accept`, `send` and `recv` is an argument of the call.
-/

open Reasoning

namespace SubmarineMonitor

def bridgeRecvBufSize : Nat := 512

/-- `g_listenFd`, `g_clientFd`, `g_recvBuf` and `g_recvLen`. -/
structure BridgeServer where
  listenFd : Int
  clientFd : Int
  recvBuf : Mem
  recvLen : Nat

def bridgeServerInit (listenFd : Int) (recvBuf : Mem) : BridgeServer :=
  { listenFd, clientFd := -1, recvBuf, recvLen := 0 }

/-- `fd` is what `accept` returns if it is called. -/
def bridgeServerAccept (s : BridgeServer) (fd : Int) : Bool × BridgeServer :=
  if s.clientFd ≠ -1 then (true, s)
  else if s.listenFd < 0 then (false, s)
  else if fd < 0 then (false, s)
  else (true, { s with clientFd := fd, recvLen := 0 })

/-- `sentPrefix` and `sentData` are what the two `send` calls return; the second output is what they
    put on the connection. -/
def bridgeServerSend (s : BridgeServer) (data : Bytes) (sentPrefix sentData : Int) :
    BridgeServer × Bytes :=
  if s.clientFd < 0 then (s, [])
  else if sentPrefix < 0 then ({ s with clientFd := -1 }, [])
  else
    let onWire := (protocolPutU32 data.length).take sentPrefix.toNat
    if sentData < 0 then ({ s with clientFd := -1 }, onWire)
    else (s, onWire ++ data.take sentData.toNat)

/-- What `recv` does on a non-blocking socket: it returns bytes, 0 after the peer's close, or -1. -/
inductive RecvOutcome
  | data (bytes : Bytes)
  | closed
  | error
  deriving DecidableEq, Repr

/-- The return value of `BridgeServer_TryRecv` with `outBuf` and the state it leaves. -/
structure TryRecvOut where
  count : Nat
  outBuf : Mem
  server : BridgeServer

/-- The `recv` part: `none` when the peer has closed. -/
def bridgeServerRecv (s : BridgeServer) (outcome : RecvOutcome) : Option BridgeServer :=
  if s.recvLen < bridgeRecvBufSize then
    match outcome with
    | .data bytes =>
        some { s with recvBuf := store s.recvBuf s.recvLen bytes,
                      recvLen := u16 (s.recvLen + bytes.length) }
    | .closed => none
    | .error => some s
  else some s

/-- The part behind `recv`: hand out the first buffered frame and slide the rest down. -/
def bridgeServerTakeFrame (s : BridgeServer) (outBuf : Mem) (maxLen : Nat) : TryRecvOut :=
  if s.recvLen < 4 then { count := 0, outBuf, server := s }
  else
    let payloadLen := protocolGetU32 s.recvBuf
    -- a sum of `uint32_t` values, which wraps for the four largest lengths
    let frameLen := u32 (4 + payloadLen)
    if s.recvLen < frameLen then { count := 0, outBuf, server := s }
    else
      -- a payload over `maxLen` is cut, and removed as a whole
      let copyLen := if payloadLen < maxLen then u16 payloadLen else maxLen
      let remaining := u16 (s.recvLen - frameLen)
      { count := copyLen
        outBuf := store outBuf 0 (slice s.recvBuf 4 copyLen)
        server := { s with recvBuf := store s.recvBuf 0 (slice s.recvBuf frameLen remaining),
                           recvLen := remaining } }

def bridgeServerTryRecv (s : BridgeServer) (outBuf : Mem) (maxLen : Nat)
    (outcome : RecvOutcome) : TryRecvOut :=
  if s.clientFd < 0 then { count := 0, outBuf, server := s }
  else
    match bridgeServerRecv s outcome with
    | none => { count := 0, outBuf, server := { s with clientFd := -1, recvLen := 0 } }
    | some s => bridgeServerTakeFrame s outBuf maxLen

def bridgeServerIsConnected (s : BridgeServer) : Bool := s.clientFd != -1

theorem bridgeServerAccept_cases (s : BridgeServer) (fd : Int) :
    (∃ b, bridgeServerAccept s fd = (b, s) ∧ ¬ (s.clientFd = -1 ∧ b = true)) ∨
      (s.clientFd = -1 ∧ 0 ≤ fd ∧
        bridgeServerAccept s fd = (true, { s with clientFd := fd, recvLen := 0 })) := by
  unfold bridgeServerAccept
  by_cases hconnected : s.clientFd ≠ -1
  · rw [if_pos hconnected]
    exact .inl ⟨true, rfl, fun hnew ↦ hconnected hnew.1⟩
  rw [if_neg hconnected]
  by_cases hlisten : s.listenFd < 0
  · rw [if_pos hlisten]
    exact .inl ⟨false, rfl, fun hnew ↦ absurd hnew.2 (by decide)⟩
  rw [if_neg hlisten]
  by_cases hnobody : fd < 0
  · rw [if_pos hnobody]
    exact .inl ⟨false, rfl, fun hnew ↦ absurd hnew.2 (by decide)⟩
  · rw [if_neg hnobody]
    exact .inr ⟨not_not.mp hconnected, by omega, rfl⟩

theorem bridgeServerSend_cases (s : BridgeServer) (data : Bytes) (sentPrefix sentData : Int) :
    (bridgeServerSend s data sentPrefix sentData).1 = s ∨
      (bridgeServerSend s data sentPrefix sentData).1 = { s with clientFd := -1 } := by
  unfold bridgeServerSend
  by_cases hnone : s.clientFd < 0
  · rw [if_pos hnone]
    exact .inl rfl
  rw [if_neg hnone]
  by_cases hfail : sentPrefix < 0
  · rw [if_pos hfail]
    exact .inr rfl
  rw [if_neg hfail]
  simp only
  by_cases hfail' : sentData < 0
  · rw [if_pos hfail']
    exact .inr rfl
  · rw [if_neg hfail']
    exact .inl rfl

end SubmarineMonitor
