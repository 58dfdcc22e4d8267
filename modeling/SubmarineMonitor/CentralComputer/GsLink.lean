import SubmarineMonitor.GroundStation.CompleteResponses
import SubmarineMonitor.Protocol.TcpMessage
import SubmarineMonitor.Reasoning.OpenNetwork

/-!
# GsLink — one connection of `CC_GsLink_Run`

The thread that serves the Ground Station, from `accept` to `close`: the handshake, and then
`CC_GsLink_Dispatch` for as long as it returns `true`.  Each `send` and `recv` is an action of its own.  The
mutex of `data_collection.cpp` is held for the whole of a store and for the whole of a read, so a query is
one question about what has been stored so far.
-/

open Reasoning

namespace SubmarineMonitor

/-! ## 1. The handshake -/

def gsHandshakeGreeting : Bytes := [0x47, 0x53, 0x5F, 0x48, 0x45, 0x4C, 0x4C, 0x4F]

def gsHandshakeReply : Bytes :=
  [0x43, 0x43, 0x5F, 0x48, 0x45, 0x4C, 0x4C, 0x4F, 0x5F, 0x41, 0x43, 0x4B]

/-- The string that starts a buffer of zeros into which these bytes were read. -/
def cString (bytes : Bytes) : Bytes := bytes.takeWhile (· ≠ 0)

/-- The length that a prefix announces, if all four bytes of it have come and it is below 64. -/
def handshakeLength (lengthBytes : Bytes) : Option Nat :=
  if lengthBytes.length ≠ 4 then none
  else
    let len := protocolGetU32 (ofList lengthBytes 0)
    if len ≥ 64 then none else some len

/-! ## 2. The connection -/

/-- What the uninitialised variables of one connection hold: `storage[512]` of each dispatch, and the
    frames of its handler. -/
structure GsLinkMemory where
  storage : Nat → Mem
  stack : Nat → Nat → StackFrame

inductive GsLinkState
  | greetingLength
  | greeting (len : Nat)
  | replyLength (greetingOk : Bool)
  | reply (greetingOk : Bool)
  | dispatch (k : Nat)
  | message (k : Nat) (lengthBytes : Bytes)
  | handle (k : Nat) (m : RequestMessage)
  | respondLength (k : Nat) (message : Bytes)
  | respond (k : Nat) (message : Bytes)
  | close
  | accept
  | hangs

/-- Behind a handler, `none` when a lookup in the request does not return. -/
def GsLinkState.answered (k : Nat) : Option GsReply → GsLinkState
  | none => .hangs
  | some r => .respondLength k r.message

def diskBehind (dataDir : Text) (disk : Disk) (history : List StoreCall) : Disk :=
  runState (dcaStore dataDir) disk history

/-- `CC_GsLink_HandleGetLog` or `CC_GsLink_HandleGetEvents`, on the disk that the handler finds. -/
def ccGsLinkHandle (dataDir : Text) (disk : Disk) (stack : Nat → StackFrame) (m : RequestMessage) :
    Option GsReply :=
  if m.tag = protoTagGsGetLogReq then
    ccGsLinkHandleGetLog (storedMeasurements dataDir disk) stack m.value m.valueLen
  else ccGsLinkHandleGetEvents (storedEvents dataDir disk) stack m.value m.valueLen

def GsLinkState.received (k : Nat) : Option (RequestMessage × Bytes) → GsLinkState
  | none => .close
  | some (m, _) =>
      if m.tag = protoTagGsGetLogReq ∨ m.tag = protoTagGsGetEventsReq then .handle k m
      -- an unhandled tag is printed, and the client is served on
      else .dispatch (k + 1)

/-- One connection of `CC_GsLink_Run`, on a disk to which others store. -/
def ccGsLink (dataDir : Text) (disk : Disk) (memory : GsLinkMemory) :
    GsLinkState → Action GsLinkState UInt8 (List StoreCall)
  | .greetingLength => .recv 4 fun lengthBytes ↦
      match handshakeLength lengthBytes with
      | none => .close
      | some len => .greeting len
  | .greeting len => .recv len fun greeting ↦
      if greeting.length ≠ len then .close
      else .replyLength (decide (cString greeting = gsHandshakeGreeting))
  -- the reply is sent to any greeting, and the requests are served behind the right one only
  | .replyLength ok => .send (protocolPutU32 (u16 gsHandshakeReply.length)) (.reply ok)
  | .reply ok => .send gsHandshakeReply (if ok then .dispatch 0 else .close)
  | .dispatch k => .recv 4 fun lengthBytes ↦
      if lengthBytes.length ≠ 4 then .close
      else
        let msgLen := protocolGetU32 (ofList lengthBytes 0)
        if msgLen = 0 ∨ 512 < msgLen then .close else .message k lengthBytes
  | .message k lengthBytes => .recv (protocolGetU32 (ofList lengthBytes 0)) fun body ↦
      .received k (commGsRecvMessage (memory.storage k) 512 (lengthBytes ++ body))
  | .handle k m => .ask fun history ↦
      .answered k (ccGsLinkHandle dataDir (diskBehind dataDir disk history) (memory.stack k) m)
  | .respondLength k message =>
      .send (protocolPutU32 (u32 message.length)) (.respond k message)
  | .respond k message => .send message (.dispatch (k + 1))
  | .close => .close .accept
  | .accept => .halt
  | .hangs => .halt

end SubmarineMonitor
