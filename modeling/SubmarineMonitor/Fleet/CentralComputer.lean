import SubmarineMonitor.CentralComputer.ManagementCommand

/-!
# CentralComputer — the fleet's link to one submarine, `oop_fleet/central_computer.cpp`

The class wraps the modules of `central_computer`.  `fd_` is a flag and the socket behind it.
-/

open Reasoning

namespace SubmarineMonitor

/-! ## 1. The object -/

/-- `connected` is `fd_ >= 0`; the socket of a closed connection is never read again. -/
structure CentralComputer where
  connected : Bool
  link : LncLink
  haveLatest : Bool
  latest : DcaMeasurement
  deriving DecidableEq, Repr

def CentralComputer.disconnect (cc : CentralComputer) : CentralComputer :=
  { cc with connected := false, haveLatest := false }

/-- A field that is missing keeps its cached value; the timestamp does not. -/
def CentralComputer.cacheMeasurementFields (cc : CentralComputer) (value : Mem) (valueLen : Nat) :
    Option CentralComputer := do
  let timestamp ← readField value valueLen protoFieldTimestamp 0 getU32
  let nested ← protocolFindField value valueLen protoFieldMeasurementRecord
  match nested with
  | .error _ => return cc
  | .ok f =>
      let record := advance value f.off
      let temperature ← readField record f.len protoFieldTemperature cc.latest.temperature getI16
      let humidity ← readField record f.len protoFieldHumidity cc.latest.humidity getU8
      let light ← readField record f.len protoFieldLight cc.latest.light getU16
      let batteryVoltage ←
        readField record f.len protoFieldBatteryVoltage cc.latest.batteryVoltage getU16
      let mode ← readField record f.len protoFieldMode cc.latest.mode getU8
      return { cc with
        haveLatest := true
        latest := { timestamp, temperature, humidity, light, batteryVoltage, mode } }

/-! ## 2. Polling -/

/-- What one iteration of a poll meets: the bytes in the socket buffer when it looks for a prefix,
    whether the peer has closed behind the last of its bytes, the bytes of the payload that come
    within the 500 ms, and the fresh `storage`. -/
structure PollArrival where
  arrived : Nat
  closed : Bool
  payloadArrived : Nat
  storage : Mem

/-- What a call does; `returned` is false when a lookup in it does not return. -/
structure CallOut where
  cc : CentralComputer
  reads : List PrefixRead := []
  stores : List DcaStore := []
  returned : Bool := true

def CallOut.after (out : CallOut) (read : PrefixRead) (stores : List DcaStore) : CallOut :=
  { out with reads := read :: out.reads, stores := stores ++ out.stores }

/-- A decoded message goes to its handler and to the cache; one of another tag is dropped. -/
def CentralComputer.takeTelemetry (cc : CentralComputer) (tag : UInt8) (value : Mem)
    (valueLen : Nat) : Option (CentralComputer × List DcaStore) := do
  let stores ← telemetryHandler tag value valueLen
  match stores with
  | none => return (cc, [])
  | some stores => return (← cc.cacheMeasurementFields value valueLen, stores)

inductive PollFound
  | nothing
  | hungUp
  | malformed
  | message (tag : UInt8) (value : Mem) (valueLen : Nat)

structure PollIteration where
  read : PrefixRead
  link : LncLink
  found : PollFound

def pollOnce (link : LncLink) (a : PollArrival) : PollIteration :=
  let head := link.recv (min 4 a.arrived)
  let len := protocolGetU32 (ofList head.1 0)
  let read : PrefixRead := { pos := link.taken, got := head.1.length, len, cap := 256 }
  -- `recv` returned 0 or -1
  if head.1.length = 0 then
    { read, link := head.2
      found := if a.closed ∧ head.2.incoming = [] then .hungUp else .nothing }
  -- a split prefix: its first bytes are gone
  else if head.1.length < 4 then { read, link := head.2, found := .nothing }
  -- refused: a message over 256 bytes leaves its payload behind
  else if len = 0 ∨ len > 256 then { read, link := head.2, found := .nothing }
  else
    let data := head.2.recv (min len a.payloadArrived)
    -- fatal, so that no leftover is read as a prefix
    if data.1.length ≠ len then { read, link := data.2, found := .hungUp }
    else
      let storage := store a.storage 0 data.1
      match protocolDecodeTLV storage (u16 len) with
      | .error _ => { read, link := data.2, found := .malformed }
      | .ok d =>
          { read, link := data.2
            found := .message d.tag (advance storage d.valueOff) d.valueLen }

def pollLoop : Nat → (Nat → PollArrival) → CentralComputer → CallOut
  | 0, _, cc => { cc }
  | i + 1, arrivals, cc =>
      let once := pollOnce cc.link (arrivals 0)
      let cc := { cc with link := once.link }
      match once.found with
      | .nothing => { cc, reads := [once.read] }
      | .hungUp => { cc := cc.disconnect, reads := [once.read] }
      -- the poll goes on with the next message
      | .malformed => (pollLoop i (fun i ↦ arrivals (i + 1)) cc).after once.read []
      | .message tag value valueLen =>
          match cc.takeTelemetry tag value valueLen with
          | none => { cc, reads := [once.read], returned := false }
          | some (cc, stores) => (pollLoop i (fun i ↦ arrivals (i + 1)) cc).after once.read stores

def CentralComputer.pollLatestTelemetry (cc : CentralComputer) (arrivals : Nat → PollArrival) :
    CallOut :=
  if cc.connected then pollLoop 5 arrivals cc else { cc }

/-! ## 3. Queries -/

def CentralComputer.query {α : Type} (cc : CentralComputer) (run : LncLink → QueryOut α) : CallOut :=
  if cc.connected then
    let out := run cc.link
    { cc := { cc with link := out.link }, reads := out.reads, stores := out.stores
      returned := out.returned }
  else { cc }

def CentralComputer.queryMeasurements (cc : CentralComputer) (startTime endTime : UInt32)
    (stack : Nat → PageFrame) : CallOut :=
  cc.query (ccCoreGetMeasurements startTime endTime stack)

def CentralComputer.queryEvents (cc : CentralComputer) (startTime endTime : UInt32)
    (stack : Nat → PageFrame) : CallOut :=
  cc.query (ccCoreGetEvents startTime endTime stack)

/-! ## 4. Calls in any order -/

inductive CcCall
  | poll (arrivals : Nat → PollArrival)
  | queryMeasurements (startTime endTime : UInt32) (stack : Nat → PageFrame)
  | queryEvents (startTime endTime : UInt32) (stack : Nat → PageFrame)

def CentralComputer.call (cc : CentralComputer) : CcCall → CallOut
  | .poll arrivals => cc.pollLatestTelemetry arrivals
  | .queryMeasurements startTime endTime stack => cc.queryMeasurements startTime endTime stack
  | .queryEvents startTime endTime stack => cc.queryEvents startTime endTime stack

/-- A run stands still behind a call that does not return. -/
def ccStep (s : CentralComputer × Bool) (call : CcCall) : (CentralComputer × Bool) × CallOut :=
  if s.2 then
    let out := s.1.call call
    ((out.cc, out.returned), out)
  else (s, { cc := s.1, returned := false })

/-! ## 5. Telemetry leaves the socket alone -/

theorem cacheMeasurementFields_link {cc cc' : CentralComputer} {value : Mem} {valueLen : Nat}
    (h : cc.cacheMeasurementFields value valueLen = some cc') :
    cc'.link = cc.link ∧ cc'.connected = cc.connected := by
  simp only [CentralComputer.cacheMeasurementFields, Option.bind_eq_bind,
    Option.bind_eq_some_iff] at h
  obtain ⟨timestamp, -, nested, -, h⟩ := h
  cases nested with
  | error e =>
      cases h
      exact ⟨rfl, rfl⟩
  | ok f =>
      simp only [Option.bind_eq_some_iff] at h
      obtain ⟨temperature, -, humidity, -, light, -, battery, -, mode, -, h⟩ := h
      cases h
      exact ⟨rfl, rfl⟩

theorem takeTelemetry_link {cc cc' : CentralComputer} {tag : UInt8} {value : Mem} {valueLen : Nat}
    {stores : List DcaStore} (h : cc.takeTelemetry tag value valueLen = some (cc', stores)) :
    cc'.link = cc.link ∧ cc'.connected = cc.connected := by
  simp only [CentralComputer.takeTelemetry, Option.bind_eq_bind, Option.bind_eq_some_iff] at h
  obtain ⟨handled, -, h⟩ := h
  cases handled with
  | none =>
      cases h
      exact ⟨rfl, rfl⟩
  | some stores =>
      simp only [Option.bind_eq_some_iff] at h
      obtain ⟨cached, hcached, h⟩ := h
      cases h
      exact cacheMeasurementFields_link hcached

end SubmarineMonitor
