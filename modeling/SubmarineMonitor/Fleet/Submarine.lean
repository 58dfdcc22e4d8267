import SubmarineMonitor.Fleet.CentralComputer
import SubmarineMonitor.Reasoning.Text

/-!
# Submarine — the submarine classes of `oop_fleet`

`submarine.cpp`, `research_submarine.cpp` and `combat_submarine.cpp`.  The console is the list of lines
that the operator enters; at the end of the input `getline` leaves an empty line.
-/

open Reasoning

namespace SubmarineMonitor

/-! ## 1. Prompts -/

inductive Halt
  /-- It does not return. -/
  | hangs
  /-- A vector is edited while a loop iterates over it. -/
  | undefined
  deriving DecidableEq, Repr

abbrev Prompt := StateT (List Text) (Except Halt)

def promptLine : Prompt Text := fun lines ↦ .ok (lines.headD [], lines.tail)

/-- `std::stoi`: what follows the number is ignored, `none` is an exception. -/
def stoi (s : Text) : Option Int :=
  match readNumber s with
  | none => none
  | some (negative, magnitude, _) =>
      let value : Int := if negative then -magnitude else magnitude
      if -2 ^ 31 ≤ value ∧ value < 2 ^ 31 then some value else none

def promptIntLoop : List Text → Except Halt (Int × List Text)
  -- an empty line is no number, and at the end of the input there are only empty lines
  | [] => .error .hangs
  | line :: lines =>
      match stoi line with
      | some value => .ok (value, lines)
      | none => promptIntLoop lines

def promptInt : Prompt Int := promptIntLoop

/-! ## 2. What every submarine has -/

structure SubmarineBase where
  serialNumber : Text
  name : Text
  assignedToMission : Bool := false
  deriving DecidableEq, Repr

/-! ## 3. Research submarines -/

structure ResearchSubmarine extends SubmarineBase where
  researchTopic : Text := []
  researchers : List Text := []
  deriving DecidableEq, Repr

/-- The names up to a blank line, and the lines behind it. -/
def researcherLines : List Text → List Text × List Text
  | [] => ([], [])
  | line :: lines =>
      if line = [] then ([], lines)
      else (line :: (researcherLines lines).1, (researcherLines lines).2)

def ResearchSubmarine.addResearchers (r : ResearchSubmarine) : Prompt ResearchSubmarine :=
  fun lines ↦
    let names := researcherLines lines
    .ok ({ r with researchers := r.researchers ++ names.1 }, names.2)

def ResearchSubmarine.assignMission (r : ResearchSubmarine) : Prompt ResearchSubmarine := do
  let researchTopic ← promptLine
  let r ← { r with researchTopic }.addResearchers
  return { r with assignedToMission := true }

def ResearchSubmarine.updateMissionDetails (r : ResearchSubmarine) : Prompt ResearchSubmarine := do
  let topic ← promptLine
  let r := if topic ≠ [] then { r with researchTopic := topic } else r
  let answer ← promptLine
  if answer.head? = some 'y' ∨ answer.head? = some 'Y' then r.addResearchers else return r

def ResearchSubmarine.endMission (r : ResearchSubmarine) : ResearchSubmarine :=
  { r with researchTopic := [], researchers := [], assignedToMission := false }

/-! ## 4. Combat submarines -/

structure Message where
  content : Text
  senderSerialNumber : Text
  deriving DecidableEq, Repr

/-- `fd_` is -1 and nothing is cached. -/
def CentralComputer.initial : CentralComputer where
  connected := false
  link := { incoming := [], taken := 0 }
  haveLatest := false
  latest := { timestamp := 0, temperature := 0, humidity := 0, light := 0, batteryVoltage := 0
              mode := 0 }

/-- `Connect`, whose `CcCore_LncConnect` gives a socket with the bytes that will come on it, or -1. -/
def CentralComputer.connect (cc : CentralComputer) (outcome : Option Bytes) :
    CentralComputer × Bool :=
  let cc := if cc.connected then cc.disconnect else cc
  match outcome with
  | none => ({ cc with connected := false }, false)
  | some incoming => ({ cc with connected := true, link := { incoming, taken := 0 } }, true)

/-- `submarineId` is the `submarineId_` of the central computer. -/
structure CombatSubmarine extends SubmarineBase where
  missionDescription : Text := []
  commanderName : Text := []
  personnelCount : Int := 0
  centralComputer : CentralComputer := .initial
  submarineId : Text := []
  participatingSubmarines : List Text := []
  missionHistory : List Text := []
  receivedMessages : List Message := []
  deriving DecidableEq, Repr

def CombatSubmarine.connect (c : CombatSubmarine) (outcome : Option Bytes) : CombatSubmarine :=
  let r := c.centralComputer.connect outcome
  { c with
    centralComputer := r.1
    submarineId := if r.2 then c.serialNumber else c.submarineId }

def CombatSubmarine.assignMission (c : CombatSubmarine)
    (lncConnect : Text → UInt16 → Option Bytes) : Prompt CombatSubmarine := do
  let missionDescription ← promptLine
  let commanderName ← promptLine
  let personnelCount ← promptInt
  let c := { c with missionDescription, commanderName, personnelCount, assignedToMission := true }
  let host ← promptLine
  if host = [] then return c
  else
    let port ← promptInt
    return c.connect (lncConnect host (UInt16.ofInt port))

def CombatSubmarine.updateMissionDetails (c : CombatSubmarine) : Prompt CombatSubmarine := do
  let value ← promptLine
  let c := if value ≠ [] then { c with missionDescription := value } else c
  let value ← promptLine
  let c := if value ≠ [] then { c with commanderName := value } else c
  let value ← promptLine
  -- a blank line and a line without a number both keep the count
  match stoi value with
  | some personnelCount => return { c with personnelCount }
  | none => return c

def CombatSubmarine.endMission (c : CombatSubmarine) : CombatSubmarine :=
  { c with
    missionHistory :=
      if c.missionDescription ≠ [] then c.missionHistory ++ [c.missionDescription]
      else c.missionHistory
    missionDescription := []
    commanderName := []
    personnelCount := 0
    participatingSubmarines := []
    centralComputer := c.centralComputer.disconnect
    assignedToMission := false }

/-- What `Display` does beside printing: it polls the live link, if there is one. -/
def CombatSubmarine.display (c : CombatSubmarine) (arrivals : Nat → PollArrival) :
    Except Halt (CombatSubmarine × List DcaStore) :=
  if c.centralComputer.connected then
    let out := c.centralComputer.pollLatestTelemetry arrivals
    if out.returned then .ok ({ c with centralComputer := out.cc }, out.stores)
    else .error .hangs
  else .ok (c, [])

def CombatSubmarine.hasParticipant (c : CombatSubmarine) (otherSerial : Text) : Bool :=
  c.participatingSubmarines.contains otherSerial

def CombatSubmarine.addParticipant (c : CombatSubmarine) (otherSerial : Text) : CombatSubmarine :=
  if otherSerial = c.serialNumber then c
  else if c.hasParticipant otherSerial then c
  else { c with participatingSubmarines := c.participatingSubmarines ++ [otherSerial] }

def CombatSubmarine.removeParticipant (c : CombatSubmarine) (otherSerial : Text) :
    CombatSubmarine :=
  { c with participatingSubmarines := c.participatingSubmarines.filter (· ≠ otherSerial) }

def CombatSubmarine.receiveMessage (c : CombatSubmarine) (senderSerial content : Text) :
    CombatSubmarine :=
  { c with receivedMessages :=
      c.receivedMessages ++ [{ content, senderSerialNumber := senderSerial }] }

/-! ## 5. Either of the two -/

inductive Submarine
  | research (r : ResearchSubmarine)
  | combat (c : CombatSubmarine)
  deriving DecidableEq, Repr

def Submarine.base : Submarine → SubmarineBase
  | .research r => r.toSubmarineBase
  | .combat c => c.toSubmarineBase

def Submarine.serialNumber (sub : Submarine) : Text := sub.base.serialNumber

def Submarine.isAssignedToMission (sub : Submarine) : Bool := sub.base.assignedToMission

/-- `dynamic_cast<CombatSubmarine *>` -/
def Submarine.combat? : Submarine → Option CombatSubmarine
  | .research _ => none
  | .combat c => some c

def Submarine.onCombat (f : CombatSubmarine → CombatSubmarine) : Submarine → Submarine
  | .research r => .research r
  | .combat c => .combat (f c)

def Submarine.assignMission (lncConnect : Text → UInt16 → Option Bytes) :
    Submarine → Prompt Submarine
  | .research r => do return .research (← r.assignMission)
  | .combat c => do return .combat (← c.assignMission lncConnect)

def Submarine.updateMissionDetails : Submarine → Prompt Submarine
  | .research r => do return .research (← r.updateMissionDetails)
  | .combat c => do return .combat (← c.updateMissionDetails)

def Submarine.endMission : Submarine → Submarine
  | .research r => .research r.endMission
  | .combat c => .combat c.endMission

def Submarine.display (arrivals : Text → Nat → PollArrival) :
    Submarine → Except Halt (Submarine × List DcaStore)
  | .research r => .ok (.research r, [])
  | .combat c => do
      let (c, stores) ← c.display (arrivals c.serialNumber)
      return (.combat c, stores)

end SubmarineMonitor
