import SubmarineMonitor.GroundStation.GsQueries
import SubmarineMonitor.CentralComputer.GsLink

/-!
# GsMain — `main` of the Ground Station

From `connect` to `close`: the handshake, what the operator is asked, and the two requests.  A line that is
entered is the bytes of it; how a date is read (`strptime` and `mktime`) is a parameter.
-/

open Reasoning

namespace SubmarineMonitor

/-! ## 1. Prompts -/

/-- `PromptLine`: the next line, and the others; a line that cannot be read is empty. -/
def gsPromptLine : List Bytes → Bytes × List Bytes
  | [] => ([], [])
  | line :: lines => (line, lines)

/-- Asks until a line is empty or reads as a date. -/
def promptDateTimeOrDefault (parse : Bytes → Option UInt32) (defaultValue : UInt32) :
    List Bytes → UInt32 × List Bytes
  | [] => (defaultValue, [])
  | line :: lines =>
      if line = [] then (defaultValue, lines)
      else
        match parse line with
        | some t => (t, lines)
        | none => promptDateTimeOrDefault parse defaultValue lines

def defaultSubmarineId : Bytes := [0x4C, 0x4E, 0x43, 0x2D, 0x30, 0x31]

structure GsRange where
  submarineId : Bytes
  rangeStart : UInt32
  rangeEnd : UInt32
  deriving DecidableEq, Repr

/-- The prompts behind the handshake, for the lines the operator enters at the time `nowTs`. -/
def gsPrompts (parse : Bytes → Option UInt32) (nowTs : UInt32) (lines : List Bytes) : GsRange :=
  let id := gsPromptLine lines
  let defaultStart := if nowTs > 86400 then nowTs - 86400 else 0
  let start := promptDateTimeOrDefault parse defaultStart id.2
  let stop := promptDateTimeOrDefault parse nowTs start.2
  { submarineId := if id.1 = [] then defaultSubmarineId else id.1
    rangeStart := if start.1 > stop.1 then stop.1 else start.1
    rangeEnd := if start.1 > stop.1 then start.1 else stop.1 }

/-! ## 2. The connection -/

/-- What the two requests leave uninitialised, and what the heap holds for their responses. -/
structure GsMemory where
  logFrame : RequestFrame
  eventsFrame : RequestFrame
  logHeap : Mem
  eventsHeap : Mem

inductive GsQuery
  | log
  | events
  deriving DecidableEq, Repr

inductive GsPhase
  | greetingLength
  | greeting
  | replyLength
  | reply (len : Nat)
  | requestLength (q : GsQuery)
  | request (q : GsQuery)
  | responseLength (q : GsQuery)
  | response (q : GsQuery) (lengthBytes : Bytes)
  | close (exitCode : Nat)
  | exited (exitCode : Nat)
  | hangs

structure GsState where
  phase : GsPhase
  log : Option (GsOutcome PrintedMeasurement) := none
  events : Option (GsOutcome PrintedEvent) := none

def gsRequestSends (memory : GsMemory) (range : GsRange) : GsQuery → Bytes
  | .log => gsRequestLogSends memory.logFrame range.submarineId range.rangeStart range.rangeEnd
  | .events =>
      gsRequestEventsSends memory.eventsFrame range.submarineId range.rangeStart range.rangeEnd

/-- A request behind its `GsSend`, on the bytes that have come. -/
def GsState.answered (memory : GsMemory) (s : GsState) (stream : Bytes) : GsQuery → GsState
  | .log =>
      match gsRequestLog memory.logHeap stream with
      | none => { s with phase := .hangs }
      | some outcome => { s with phase := .requestLength .events, log := some outcome }
  | .events =>
      match gsRequestEvents memory.eventsHeap stream with
      | none => { s with phase := .hangs }
      | some outcome => { s with phase := .close 0, events := some outcome }

/-- `main` behind `connect`. -/
def groundStation (memory : GsMemory) (range : GsRange) (s : GsState) :
    Action GsState UInt8 (List StoreCall) :=
  match s.phase with
  | .greetingLength =>
      .send [0, 0, UInt8.ofNat (u16 gsHandshakeGreeting.length >>> 8),
        UInt8.ofNat (u16 gsHandshakeGreeting.length)] { s with phase := .greeting }
  | .greeting => .send gsHandshakeGreeting { s with phase := .replyLength }
  | .replyLength => .recv 4 fun lengthBytes ↦
      match handshakeLength lengthBytes with
      | none => { s with phase := .close 1 }
      | some len => { s with phase := .reply len }
  | .reply len => .recv len fun reply ↦
      if reply.length = len ∧ cString reply = gsHandshakeReply then
        { s with phase := .requestLength .log }
      else { s with phase := .close 1 }
  | .requestLength q =>
      .send ((gsRequestSends memory range q).take 4) { s with phase := .request q }
  | .request q =>
      .send ((gsRequestSends memory range q).drop 4) { s with phase := .responseLength q }
  | .responseLength q => .recv 4 fun lengthBytes ↦
      -- without a length, or with a length of 0, nothing more is read
      if lengthBytes.length ≠ 4 ∨ protocolGetU32 (ofList lengthBytes 0) = 0 then
        s.answered memory lengthBytes q
      else { s with phase := .response q lengthBytes }
  | .response q lengthBytes => .recv (protocolGetU32 (ofList lengthBytes 0)) fun body ↦
      s.answered memory (lengthBytes ++ body) q
  | .close exitCode => .close { s with phase := .exited exitCode }
  | .exited _ => .halt
  | .hangs => .halt

end SubmarineMonitor
