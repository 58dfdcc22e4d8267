import SubmarineMonitor.Fleet.Submarine
import SubmarineMonitor.Reasoning.Keyed
import SubmarineMonitor.Reasoning.Runs

/-!
# Fleet — the menu operations of `oop_fleet/fleet.cpp`

An operation reads the lines the operator enters and meets a world: the bridges it may connect to, what
arrives on the links when a display polls them, the clock, and the memory its queries run in.
-/

open Reasoning

namespace SubmarineMonitor

/-! ## 1. The container -/

abbrev Fleet := List Submarine

def Fleet.findBySerial (fleet : Fleet) (serial : Text) : Option Submarine :=
  findKey Submarine.serialNumber serial fleet

/-- `dynamic_cast<CombatSubmarine *>(FindBySerial(serial))` -/
def Fleet.findCombat (fleet : Fleet) (serial : Text) : Option CombatSubmarine :=
  (fleet.findBySerial serial).bind Submarine.combat?

/-- A change through the pointer that `FindBySerial` returns. -/
def Fleet.edit (fleet : Fleet) (serial : Text) (f : Submarine → Submarine) : Fleet :=
  updateKey Submarine.serialNumber serial f fleet

/-! ## 2. What an operation meets and what it does -/

structure FleetWorld where
  lncConnect : Text → UInt16 → Option Bytes
  arrivals : Text → Nat → PollArrival
  now : UInt32
  measurementsStack : Nat → PageFrame
  eventsStack : Nat → PageFrame

inductive FleetReport
  | submarineExists
  | unknownType
  | added
  | fleetEmpty
  | shown (submarines : List Submarine)
  | noSubmarine
  | alreadyAssigned
  | missionAssigned
  | notAssigned
  | updated
  | missionEnded
  | noCombatSubmarine
  | associated
  | notSameMission
  | messageSent (receiverSerial : Text) (message : Message)
  | noMessages
  | messages (received : List Message)
  | notConnected
  | history
  deriving DecidableEq, Repr

/-- `stores` are the calls of the DCA, each with the submarine it is made for; `returned` is false when a
    query in the operation does not return. -/
structure FleetOut where
  fleet : Fleet
  report : FleetReport
  stores : List (Text × DcaStore) := []
  returned : Bool := true
  deriving DecidableEq, Repr

/-! ## 3. The operations -/

def Fleet.addSubmarine (fleet : Fleet) : Prompt FleetOut := do
  let serialNumber ← promptLine
  if (fleet.findBySerial serialNumber).isSome then return { fleet, report := .submarineExists }
  else
    let name ← promptLine
    let type ← promptInt
    if type = 1 then
      return { fleet := fleet ++ [.research { serialNumber, name }], report := .added }
    else if type = 2 then
      return { fleet := fleet ++ [.combat { serialNumber, name }], report := .added }
    else return { fleet, report := .unknownType }

def Submarine.displayFor (world : FleetWorld) (sub : Submarine) :
    Except Halt (Submarine × List (Text × DcaStore)) := do
  let (shown, stores) ← sub.display world.arrivals
  return (shown, stores.map fun s ↦
    ((shown.combat?.map CombatSubmarine.submarineId).getD [], s))

def displayLoop (world : FleetWorld) : Fleet → Except Halt (Fleet × List (Text × DcaStore))
  | [] => .ok ([], [])
  | sub :: subs => do
      let (sub, stores) ← sub.displayFor world
      let (subs, rest) ← displayLoop world subs
      return (sub :: subs, stores ++ rest)

def Fleet.displayAll (fleet : Fleet) (world : FleetWorld) : Prompt FleetOut := do
  if fleet = [] then return { fleet, report := .fleetEmpty }
  else
    let (shown, stores) ← displayLoop world fleet
    return { fleet := shown, report := .shown shown, stores }

def Fleet.searchAndDisplay (fleet : Fleet) (world : FleetWorld) : Prompt FleetOut := do
  let serial ← promptLine
  match fleet.findBySerial serial with
  | none => return { fleet, report := .noSubmarine }
  | some sub =>
      let (shown, stores) ← sub.displayFor world
      return { fleet := fleet.edit serial fun _ ↦ shown, report := .shown [shown], stores }

def Fleet.assignMission (fleet : Fleet) (world : FleetWorld) : Prompt FleetOut := do
  let serial ← promptLine
  match fleet.findBySerial serial with
  | none => return { fleet, report := .noSubmarine }
  | some sub =>
      if sub.isAssignedToMission then return { fleet, report := .alreadyAssigned }
      else
        let sub ← sub.assignMission world.lncConnect
        return { fleet := fleet.edit serial fun _ ↦ sub, report := .missionAssigned }

def Fleet.updateMissionDetails (fleet : Fleet) : Prompt FleetOut := do
  let serial ← promptLine
  match fleet.findBySerial serial with
  | none => return { fleet, report := .noSubmarine }
  | some sub =>
      if ¬ sub.isAssignedToMission then return { fleet, report := .notAssigned }
      else
        let sub ← sub.updateMissionDetails
        return { fleet := fleet.edit serial fun _ ↦ sub, report := .updated }

/-- `RemoveParticipant` on every participant of the combat submarine `own`.  A participant that is
    `own` itself would have the vector edited that the loop iterates over. -/
def unlinkLoop (own : Text) : List Text → Fleet → Except Halt Fleet
  | [], fleet => .ok fleet
  | otherSerial :: rest, fleet =>
      if otherSerial = own then .error .undefined
      else unlinkLoop own rest (fleet.edit otherSerial (.onCombat (·.removeParticipant own)))

def Fleet.endMission (fleet : Fleet) : Prompt FleetOut := do
  let serial ← promptLine
  match fleet.findBySerial serial with
  | none => return { fleet, report := .noSubmarine }
  | some sub =>
      if ¬ sub.isAssignedToMission then return { fleet, report := .notAssigned }
      else
        let participants :=
          (sub.combat?.map CombatSubmarine.participatingSubmarines).getD []
        let unlinked ← unlinkLoop serial participants fleet
        return { fleet := unlinked.edit serial .endMission, report := .missionEnded }

def Fleet.associateCombatSubmarines (fleet : Fleet) : Prompt FleetOut := do
  let serialA ← promptLine
  match fleet.findCombat serialA with
  | none => return { fleet, report := .noCombatSubmarine }
  | some a =>
      if ¬ a.assignedToMission then return { fleet, report := .notAssigned }
      else
        let serialB ← promptLine
        match fleet.findCombat serialB with
        | none => return { fleet, report := .noCombatSubmarine }
        | some b =>
            if ¬ b.assignedToMission then return { fleet, report := .notAssigned }
            else
              let fleet := fleet.edit serialA (.onCombat (·.addParticipant b.serialNumber))
              let fleet := fleet.edit serialB (.onCombat (·.addParticipant a.serialNumber))
              return { fleet, report := .associated }

def Fleet.sendMessage (fleet : Fleet) : Prompt FleetOut := do
  let senderSerial ← promptLine
  match fleet.findCombat senderSerial with
  | none => return { fleet, report := .noCombatSubmarine }
  | some sender =>
      let receiverSerial ← promptLine
      match fleet.findCombat receiverSerial with
      | none => return { fleet, report := .noCombatSubmarine }
      | some _ =>
          if ¬ sender.hasParticipant receiverSerial then return { fleet, report := .notSameMission }
          else
            let content ← promptLine
            return {
              fleet := fleet.edit receiverSerial
                (.onCombat (·.receiveMessage sender.serialNumber content))
              report := .messageSent receiverSerial
                { content, senderSerialNumber := sender.serialNumber } }

def Fleet.displayReceivedMessages (fleet : Fleet) : Prompt FleetOut := do
  let serial ← promptLine
  match fleet.findCombat serial with
  | none => return { fleet, report := .noCombatSubmarine }
  | some c =>
      if c.receivedMessages = [] then return { fleet, report := .noMessages }
      else return { fleet, report := .messages c.receivedMessages }

/-- The time a number of hours back; the product is one of 32 bits, and nothing is before 0. -/
def hoursBack (now : UInt32) (hours : Int) : UInt32 :=
  let ago := UInt32.ofInt hours * 3600
  if ago > now then 0 else now - ago

/-- The two queries, of which the second one follows if the first one returns. -/
def CentralComputer.queryHistory (cc : CentralComputer) (startTime endTime : UInt32)
    (measurementsStack eventsStack : Nat → PageFrame) : CallOut :=
  let measurements := cc.queryMeasurements startTime endTime measurementsStack
  if measurements.returned then
    let events := measurements.cc.queryEvents startTime endTime eventsStack
    { events with
      reads := measurements.reads ++ events.reads
      stores := measurements.stores ++ events.stores }
  else measurements

def Fleet.viewHistoricalData (fleet : Fleet) (world : FleetWorld) : Prompt FleetOut := do
  let serial ← promptLine
  match fleet.findCombat serial with
  | none => return { fleet, report := .noCombatSubmarine }
  | some c =>
      if ¬ c.centralComputer.connected then return { fleet, report := .notConnected }
      else
        let hoursBackStart ← promptInt
        let hoursBackEnd ← promptInt
        let start := hoursBack world.now hoursBackStart
        let stop := hoursBack world.now hoursBackEnd
        let range := if start > stop then (stop, start) else (start, stop)
        let out := c.centralComputer.queryHistory range.1 range.2 world.measurementsStack
          world.eventsStack
        return {
          fleet := fleet.edit serial (.onCombat fun c ↦ { c with centralComputer := out.cc })
          report := .history
          stores := out.stores.map fun s ↦ (c.submarineId, s)
          returned := out.returned }

/-! ## 4. The menu -/

inductive FleetOp
  | addSubmarine
  | displayAll
  | searchAndDisplay
  | assignMission
  | updateMissionDetails
  | endMission
  | associateCombatSubmarines
  | sendMessage
  | displayReceivedMessages
  | viewHistoricalData
  deriving DecidableEq, Repr

def Fleet.perform (fleet : Fleet) (world : FleetWorld) : FleetOp → Prompt FleetOut
  | .addSubmarine => fleet.addSubmarine
  | .displayAll => fleet.displayAll world
  | .searchAndDisplay => fleet.searchAndDisplay world
  | .assignMission => fleet.assignMission world
  | .updateMissionDetails => fleet.updateMissionDetails
  | .endMission => fleet.endMission
  | .associateCombatSubmarines => fleet.associateCombatSubmarines
  | .sendMessage => fleet.sendMessage
  | .displayReceivedMessages => fleet.displayReceivedMessages
  | .viewHistoricalData => fleet.viewHistoricalData world

structure FleetInput where
  op : FleetOp
  lines : List Text
  world : FleetWorld

/-- One round of the menu loop; behind an operation that does not return there is none. -/
def fleetStep (s : Except Halt Fleet) (i : FleetInput) :
    Except Halt Fleet × Option FleetOut :=
  match s with
  | .error e => (.error e, none)
  | .ok fleet =>
      match fleet.perform i.world i.op i.lines with
      | .ok (out, _) => (if out.returned then .ok out.fleet else .error .hangs, some out)
      | .error e => (.error e, none)

end SubmarineMonitor
