import SubmarineMonitor.Bridge.Server
import SubmarineMonitor.Protocol.Frame
import SubmarineMonitor.Reasoning.Runs

/-!
# MainLoop — one iteration of `lnc_bridge`'s main loop

Uplink: `Transport_Recv`, `Frame_Decode`, `BridgeServer_Send`.  Downlink: `BridgeServer_TryRecv`,
`Frame_Encode`, `Transport_Send`.
-/

open Reasoning

namespace SubmarineMonitor

/-! ## 1. Uplink -/

def uartRxBufSize : Nat := 256

/-- `uartRxBuf` and `uartRxLen`. -/
structure Uplink where
  uartRxBuf : Mem
  uartRxLen : Nat

def Uplink.pending (u : Uplink) : Bytes := slice u.uartRxBuf 0 u.uartRxLen

/-- `Transport_Recv` wrote `chunk` behind what is buffered. -/
def uplinkRecv (u : Uplink) (chunk : Bytes) : Uplink :=
  { uartRxBuf := store u.uartRxBuf u.uartRxLen chunk
    uartRxLen := u16 (u.uartRxLen + chunk.length) }

/-- The `memmove` that drops the first `consumed` bytes. -/
def uplinkDiscard (u : Uplink) (consumed : Nat) : Uplink :=
  { uartRxBuf := store u.uartRxBuf 0 (slice u.uartRxBuf consumed (u.uartRxLen - consumed))
    uartRxLen := u16 (u.uartRxLen - consumed) }

/-- The `Frame_Decode` step, with the payload passed to `BridgeServer_Send`, if any. -/
def uplinkDecode (u : Uplink) : Uplink × Option Bytes :=
  if u.uartRxLen > 0 then
    match frameDecode u.uartRxBuf u.uartRxLen 256 with
    | .ok payload consumed => (uplinkDiscard u consumed, some payload)
    | .malformed consumed => (uplinkDiscard u consumed, none)
    -- the frame will never fit: everything that waits is dropped
    | .bufferTooSmall => ({ u with uartRxLen := 0 }, none)
    -- wait for more bytes
    | .incomplete => (u, none)
  else (u, none)

def uplinkStep (u : Uplink) (chunk : Bytes) : Uplink × Option Bytes :=
  uplinkDecode (uplinkRecv u chunk)

/-! ## 2. Downlink -/

/-- What an iteration finds on its stack: `tcpPayload`, `framed` and `framedLen`, uninitialised. -/
structure DownlinkStack where
  tcpPayload : Mem
  framed : Mem
  framedLen : Nat

def downlinkStep (s : BridgeServer) (stack : DownlinkStack) (outcome : RecvOutcome) :
    BridgeServer × Option Bytes :=
  let received := bridgeServerTryRecv s stack.tcpPayload 256 outcome
  if received.count > 0 then
    let enc := frameEncode received.outBuf received.count stack.framed 600 stack.framedLen
    (received.server, some (slice enc.outBuf 0 enc.outWritten))
  else (received.server, none)

/-! ## 3. The loop -/

structure BridgeState where
  server : BridgeServer
  uplink : Uplink

structure IterationInput where
  acceptFd : Int
  uartChunk : Bytes
  sentPrefix : Int
  sentData : Int
  recvOutcome : RecvOutcome
  stack : DownlinkStack

structure IterationOutput where
  uplinkPayload : Option Bytes
  tcpBytes : Bytes
  uartBytes : Option Bytes

def bridgeIteration (s : BridgeState) (i : IterationInput) : BridgeState × IterationOutput :=
  let accepted := (bridgeServerAccept s.server i.acceptFd).2
  let up := uplinkStep s.uplink i.uartChunk
  let sent :=
    match up.2 with
    | some payload => bridgeServerSend accepted payload i.sentPrefix i.sentData
    | none => (accepted, [])
  let down := downlinkStep sent.1 i.stack i.recvOutcome
  ({ server := down.1, uplink := up.1 },
    { uplinkPayload := up.2, tcpBytes := sent.2, uartBytes := down.2 })

/-- `Transport_Recv` returns at most the bytes it is offered room for. -/
def ChunkFits (s : BridgeState) (i : IterationInput) : Prop :=
  i.uartChunk.length ≤ u16 (uartRxBufSize - s.uplink.uartRxLen)

instance (s : BridgeState) (i : IterationInput) : Decidable (ChunkFits s i) :=
  inferInstanceAs (Decidable (_ ≤ _))

def BridgeState.Initial (s : BridgeState) : Prop := s.uplink.uartRxLen = 0

@[simp] theorem bridgeIteration_uplink (s : BridgeState) (i : IterationInput) :
    (bridgeIteration s i).1.uplink = (uplinkStep s.uplink i.uartChunk).1 := rfl

@[simp] theorem bridgeIteration_payload (s : BridgeState) (i : IterationInput) :
    (bridgeIteration s i).2.uplinkPayload = (uplinkStep s.uplink i.uartChunk).2 := rfl

def forwarded (s : BridgeState) (is : List IterationInput) : List Bytes :=
  (runOutputs bridgeIteration s is).filterMap (·.uplinkPayload)

/-! ## 4. Iterations in which only the UART delivers -/

def bridgeStart : BridgeState :=
  { server := bridgeServerInit 3 fun _ ↦ 0
    uplink := { uartRxBuf := fun _ ↦ 0, uartRxLen := 0 } }

def uartIteration (chunk : Bytes) : IterationInput :=
  { acceptFd := -1, uartChunk := chunk, sentPrefix := -1, sentData := -1, recvOutcome := .error
    stack := { tcpPayload := fun _ ↦ 0, framed := fun _ ↦ 0, framedLen := 0 } }

end SubmarineMonitor
