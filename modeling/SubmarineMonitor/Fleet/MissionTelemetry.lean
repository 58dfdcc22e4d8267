import SubmarineMonitor.Fleet.Snapshot
import SubmarineMonitor.Fleet.Submarine
import SubmarineMonitor.Reasoning.Overlay
import SubmarineMonitor.Reasoning.Runs

/-!
# MissionTelemetry — what the telemetry shown for a mission depends on

`Disconnect` marks the cache as empty and leaves its fields as they are, and a record that lacks a
field keeps the one that is there.  So a field shown for a mission may be one of an earlier mission.
What is cached of the messages of one connection is an overlay over the fields that were there before
it, and nothing of these shows exactly when the overlay covers every sensor field
(`telemetry_isolated_iff`).
-/

open Reasoning

namespace SubmarineMonitor

/-! ## 1. Histories -/

inductive MissionCall
  | disconnect
  | call (c : CcCall)

inductive HistoryCall
  | connect (outcome : Option Bytes)
  | mission (c : MissionCall)

def CallOut.next (out : CallOut) : Option CentralComputer :=
  if out.returned then some out.cc else none

def CentralComputer.missionCall (cc : CentralComputer) : MissionCall → Option CentralComputer
  | .disconnect => some cc.disconnect
  | .call c => (cc.call c).next

def CentralComputer.historyCall (cc : CentralComputer) : HistoryCall → Option CentralComputer
  | .connect outcome => some (cc.connect outcome).1
  | .mission c => cc.missionCall c

/-- `HasLatestTelemetry`, and what the getters return if it is true. -/
def CentralComputer.shown (cc : CentralComputer) : Option DcaMeasurement :=
  if cc.haveLatest then some cc.latest else none

/-- What is shown behind a history that goes on with a `Connect` and the calls of a mission; `none`
    when a call does not return. -/
def shownAfter (history : List HistoryCall) (outcome : Option Bytes) (calls : List MissionCall) :
    Option (Option DcaMeasurement) :=
  ((history ++ HistoryCall.connect outcome :: calls.map HistoryCall.mission).foldlM
    CentralComputer.historyCall .initial).map CentralComputer.shown

def Completes (history : List HistoryCall) : Prop :=
  (history.foldlM CentralComputer.historyCall .initial).isSome

instance (history : List HistoryCall) : Decidable (Completes history) :=
  inferInstanceAs (Decidable ((history.foldlM CentralComputer.historyCall .initial).isSome = true))

/-- Two calls that meet the same bytes at the same time; their uninitialised variables may differ. -/
inductive SameBytes : MissionCall → MissionCall → Prop
  | disconnect : SameBytes .disconnect .disconnect
  | poll (arrivals : Nat → PollArrival) (storages : Nat → Mem) :
      SameBytes (.call (.poll arrivals))
        (.call (.poll fun i ↦ { arrivals i with storage := storages i }))
  | queryMeasurements (startTime endTime : UInt32) (stack stack' : Nat → PageFrame) :
      SameBytes (.call (.queryMeasurements startTime endTime stack))
        (.call (.queryMeasurements startTime endTime stack'))
  | queryEvents (startTime endTime : UInt32) (stack stack' : Nat → PageFrame) :
      SameBytes (.call (.queryEvents startTime endTime stack))
        (.call (.queryEvents startTime endTime stack'))

def TelemetryIsolated (outcome : Option Bytes) (calls : List MissionCall) : Prop :=
  ∀ history history' calls', Completes history → Completes history' →
    List.Forall₂ SameBytes calls calls' →
      shownAfter history outcome calls = shownAfter history' outcome calls'

/-! ## 2. What the messages of a connection say -/

inductive Sensor
  | temperature
  | humidity
  | light
  | battery
  | mode
  deriving DecidableEq, Repr

abbrev SensorValue : Sensor → Type
  | .temperature => Int16
  | .humidity => UInt8
  | .light => UInt16
  | .battery => UInt16
  | .mode => UInt8

def DcaMeasurement.sensors (m : DcaMeasurement) : (s : Sensor) → SensorValue s
  | .temperature => m.temperature
  | .humidity => m.humidity
  | .light => m.light
  | .battery => m.batteryVoltage
  | .mode => m.mode

@[ext]
structure Sighting where
  timestamp : UInt32
  found : Overlay SensorValue

def Sighting.onto (s : Sighting) (latest : DcaMeasurement) : DcaMeasurement where
  timestamp := s.timestamp
  temperature := s.found.onto latest.sensors .temperature
  humidity := s.found.onto latest.sensors .humidity
  light := s.found.onto latest.sensors .light
  batteryVoltage := s.found.onto latest.sensors .battery
  mode := s.found.onto latest.sensors .mode

def findValue {α : Type} (buf : Mem) (len : Nat) (tag : UInt8) (read : Mem → α) : Option (Option α) :=
  readField buf len tag none fun field ↦ some (read field)

def sightingOf (value : Mem) (valueLen : Nat) : Option (Option Sighting) := do
  let timestamp ← readField value valueLen protoFieldTimestamp 0 getU32
  let nested ← protocolFindField value valueLen protoFieldMeasurementRecord
  match nested with
  | .error _ => return none
  | .ok f =>
      let record := advance value f.off
      let temperature ← findValue record f.len protoFieldTemperature getI16
      let humidity ← findValue record f.len protoFieldHumidity getU8
      let light ← findValue record f.len protoFieldLight getU16
      let battery ← findValue record f.len protoFieldBatteryVoltage getU16
      let mode ← findValue record f.len protoFieldMode getU8
      return some {
        timestamp
        found := fun
          | .temperature => temperature
          | .humidity => humidity
          | .light => light
          | .battery => battery
          | .mode => mode }

/-- A connection without the cache: the socket, and what has been seen on it since it was opened. -/
structure Reading where
  connected : Bool
  link : LncLink
  seen : Option Sighting

def Reading.opened (outcome : Option Bytes) : Reading where
  connected := outcome.isSome
  link := { incoming := outcome.getD [], taken := 0 }
  seen := none

def Reading.disconnect (r : Reading) : Reading := { r with connected := false }

/-- The timestamp of the last record counts, and its fields go over those before. -/
def Reading.see (r : Reading) (s : Sighting) : Reading :=
  { r with seen := some (r.seen.elim s fun t ↦ { s with found := s.found.above t.found }) }

def Reading.take (r : Reading) (tag : UInt8) (value : Mem) (valueLen : Nat) : Option Reading := do
  let stores ← telemetryHandler tag value valueLen
  match stores with
  | none => return r
  -- what is stored does not matter here, only that the handler returns
  | some _ => return (← sightingOf value valueLen).elim r r.see

def Reading.pollLoop : Nat → (Nat → PollArrival) → Reading → Option Reading
  | 0, _, r => some r
  | i + 1, arrivals, r =>
      let once := pollOnce r.link (arrivals 0)
      let r := { r with link := once.link }
      match once.found with
      | .nothing => some r
      | .hungUp => some r.disconnect
      | .malformed => pollLoop i (fun i ↦ arrivals (i + 1)) r
      | .message tag value valueLen =>
          match r.take tag value valueLen with
          | none => none
          | some r => pollLoop i (fun i ↦ arrivals (i + 1)) r

def Reading.query {α : Type} (r : Reading) (run : LncLink → QueryOut α) : Option Reading :=
  if r.connected then
    let out := run r.link
    if out.returned then some { r with link := out.link } else none
  else some r

def Reading.missionCall (r : Reading) : MissionCall → Option Reading
  | .disconnect => some r.disconnect
  | .call (.poll arrivals) => if r.connected then r.pollLoop 5 arrivals else some r
  | .call (.queryMeasurements startTime endTime stack) =>
      r.query (ccCoreGetMeasurements startTime endTime stack)
  | .call (.queryEvents startTime endTime stack) => r.query (ccCoreGetEvents startTime endTime stack)

def missionTelemetry (outcome : Option Bytes) (calls : List MissionCall) : Option (Option Sighting) :=
  (calls.foldlM Reading.missionCall (.opened outcome)).map fun r ↦ if r.connected then r.seen else none

def FromBytes (outcome : Option Bytes) (calls : List MissionCall) : Prop :=
  ∀ calls', List.Forall₂ SameBytes calls calls' →
    missionTelemetry outcome calls' = missionTelemetry outcome calls

def EverySensorSeen (outcome : Option Bytes) (calls : List MissionCall) : Prop :=
  ∀ s, missionTelemetry outcome calls = some (some s) → s.found.Covers

/-! ## 3. The cache is an overlay -/

/-- The object on this connection, if these fields were cached before it was opened. -/
def Reading.object (r : Reading) (latest : DcaMeasurement) : CentralComputer where
  connected := r.connected
  link := r.link
  haveLatest := r.connected && r.seen.isSome
  latest := r.seen.elim latest fun s ↦ s.onto latest

section Cache

variable {value : Mem} {valueLen : Nat}

theorem readField_findValue {α : Type} (tag : UInt8) (init : α) (read : Mem → α) :
    readField value valueLen tag init read =
      (findValue value valueLen tag read).map fun found ↦ found.getD init := by
  rw [findValue, readField, readField]
  cases protocolFindField value valueLen tag with
  | none => rfl
  | some found =>
      cases found with
      | error e => rfl
      | ok f => rfl

/-- The cache takes what the record has and keeps the rest. -/
theorem cacheMeasurementFields_eq (cc : CentralComputer) :
    cc.cacheMeasurementFields value valueLen = (sightingOf value valueLen).map fun seen ↦
      seen.elim cc fun s ↦ { cc with haveLatest := true, latest := s.onto cc.latest } := by
  rw [CentralComputer.cacheMeasurementFields, sightingOf]
  simp only [Option.bind_eq_bind, Option.map_bind, Function.comp_def]
  refine Option.bind_congr fun timestamp _ ↦ Option.bind_congr fun nested _ ↦ ?_
  cases nested with
  | error e => rfl
  | ok f =>
      simp only [readField_findValue protoFieldTemperature cc.latest.temperature,
        readField_findValue protoFieldHumidity cc.latest.humidity,
        readField_findValue protoFieldLight cc.latest.light,
        readField_findValue protoFieldBatteryVoltage cc.latest.batteryVoltage,
        readField_findValue protoFieldMode cc.latest.mode, Option.bind_map, Option.map_bind,
        Function.comp_def]
      rfl

theorem Sighting.onto_sensors (s : Sighting) (latest : DcaMeasurement) :
    (s.onto latest).sensors = s.found.onto latest.sensors := by
  funext sensor
  cases sensor with
  | temperature => rfl
  | humidity => rfl
  | light => rfl
  | battery => rfl
  | mode => rfl

theorem Sighting.onto_eq_iff {s s' : Sighting} {latest latest' : DcaMeasurement} :
    s.onto latest = s'.onto latest' ↔ s.timestamp = s'.timestamp ∧
      s.found.onto latest.sensors = s'.found.onto latest'.sensors := by
  rw [← Sighting.onto_sensors, ← Sighting.onto_sensors]
  constructor
  · intro h
    exact ⟨congrArg DcaMeasurement.timestamp h, congrArg DcaMeasurement.sensors h⟩
  · rintro ⟨htimestamp, hsensors⟩
    have hfield := fun sensor ↦ congrFun hsensors sensor
    rw [Sighting.onto, Sighting.onto, DcaMeasurement.mk.injEq]
    exact ⟨htimestamp, hfield .temperature, hfield .humidity,
      hfield .light, hfield .battery, hfield .mode⟩

theorem Sighting.onto_onto (s t : Sighting) (latest : DcaMeasurement) :
    s.onto (t.onto latest) = { s with found := s.found.above t.found }.onto latest := by
  rw [Sighting.onto_eq_iff, Sighting.onto_sensors, Overlay.above_onto]
  exact ⟨rfl, rfl⟩

end Cache

section Simulation

variable {r : Reading} {latest : DcaMeasurement}

theorem Reading.object_see (hconnected : r.connected = true) (s : Sighting) :
    { r.object latest with haveLatest := true, latest := s.onto (r.object latest).latest } =
      (r.see s).object latest := by
  have hlatest : s.onto (r.seen.elim latest fun t ↦ t.onto latest) =
      (r.seen.elim s fun t ↦ { s with found := s.found.above t.found }).onto latest := by
    cases r.seen with
    | none => rfl
    | some t => exact s.onto_onto t latest
  simp only [Reading.object, Reading.see, hconnected, hlatest, Option.isSome_some, Bool.and_true,
    Option.elim_some]

theorem Reading.take_connected {r' : Reading} {tag : UInt8} {value : Mem} {valueLen : Nat}
    (h : r.take tag value valueLen = some r') : r'.connected = r.connected := by
  simp only [Reading.take, Option.bind_eq_bind, Option.bind_eq_some_iff] at h
  obtain ⟨stores, -, h⟩ := h
  cases stores with
  | none =>
      cases h
      rfl
  | some stores =>
      simp only [Option.bind_eq_some_iff] at h
      obtain ⟨seen, -, h⟩ := h
      cases h
      cases seen with
      | none => rfl
      | some s => rfl

theorem Reading.object_take (hconnected : r.connected = true) (tag : UInt8) (value : Mem)
    (valueLen : Nat) :
    ((r.object latest).takeTelemetry tag value valueLen).map Prod.fst =
      (r.take tag value valueLen).map fun r ↦ r.object latest := by
  rw [CentralComputer.takeTelemetry, Reading.take]
  simp only [Option.bind_eq_bind, Option.map_bind, Function.comp_def]
  refine Option.bind_congr fun stores _ ↦ ?_
  cases stores with
  | none => rfl
  | some stores =>
      simp only [cacheMeasurementFields_eq, Option.map_bind, Function.comp_def, Option.bind_map]
      refine Option.bind_congr fun seen _ ↦ ?_
      cases seen with
      | none => rfl
      | some s => exact congrArg some (Reading.object_see hconnected s)

theorem Reading.object_pollLoop (hconnected : r.connected = true) (i : Nat)
    (arrivals : Nat → PollArrival) :
    (SubmarineMonitor.pollLoop i arrivals (r.object latest)).next =
      (r.pollLoop i arrivals).map fun r ↦ r.object latest := by
  -- induction on the iterations that are left; both loops find the same on one socket
  induction i generalizing arrivals r with
  | zero => rfl
  | succ i ih =>
      have hlink : (r.object latest).link = r.link := rfl
      rw [SubmarineMonitor.pollLoop, Reading.pollLoop, hlink]
      generalize pollOnce r.link (arrivals 0) = once
      obtain ⟨read, link, found⟩ := once
      let r' : Reading := { r with link }
      have hobject : { r.object latest with link } = r'.object latest := rfl
      rw [hobject]
      cases found with
      | nothing => rfl
      | hungUp => rfl
      | malformed => exact @ih r' hconnected _
      | message tag value valueLen =>
          have htake := @Reading.object_take r' latest hconnected tag value valueLen
          dsimp only
          cases htaken : r'.take tag value valueLen with
          | none =>
              rw [htaken, Option.map_none, Option.map_eq_none_iff] at htake
              rw [htake]
              rfl
          | some next =>
              rw [htaken, Option.map_some, Option.map_eq_some_iff] at htake
              obtain ⟨⟨_, stores⟩, htake, rfl⟩ := htake
              rw [htake]
              exact ih ((Reading.take_connected htaken).trans hconnected) _

theorem Reading.object_query {α : Type} (r : Reading) (run : LncLink → QueryOut α) :
    ((r.object latest).query run).next = (r.query run).map fun r ↦ r.object latest := by
  have hconnected : (r.object latest).connected = r.connected := rfl
  have hlink : (r.object latest).link = r.link := rfl
  rw [CentralComputer.query, Reading.query, hconnected, hlink]
  by_cases hopen : r.connected = true
  · rw [if_pos hopen, if_pos hopen, CallOut.next]
    dsimp only
    by_cases hreturned : (run r.link).returned = true
    · rw [if_pos hreturned, if_pos hreturned]
      rfl
    · rw [if_neg hreturned, if_neg hreturned]
      rfl
  · rw [if_neg hopen, if_neg hopen]
    rfl

theorem Reading.object_missionCall (latest : DcaMeasurement) (r : Reading) (c : MissionCall) :
    (r.object latest).missionCall c = (r.missionCall c).map fun r ↦ r.object latest := by
  cases c with
  | disconnect => rfl
  | call c =>
      cases c with
      | poll arrivals =>
          have hconnected : (r.object latest).connected = r.connected := rfl
          rw [CentralComputer.missionCall, CentralComputer.call, Reading.missionCall,
            CentralComputer.pollLatestTelemetry, hconnected]
          by_cases hopen : r.connected = true
          · rw [if_pos hopen, if_pos hopen, Reading.object_pollLoop hopen]
          · rw [if_neg hopen, if_neg hopen]
            rfl
      | queryMeasurements startTime endTime stack => exact Reading.object_query r _
      | queryEvents startTime endTime stack => exact Reading.object_query r _

theorem Reading.object_shown (r : Reading) : (r.object latest).shown =
    (if r.connected then r.seen else none).map fun s ↦ s.onto latest := by
  rw [CentralComputer.shown, Reading.object]
  cases r.connected with
  | false => rfl
  | true =>
      cases r.seen with
      | none => rfl
      | some s => rfl

end Simulation

/-! ## 4. Histories -/

def HasReading (cc : CentralComputer) : Prop :=
  ∃ (r : Reading) (latest : DcaMeasurement), cc = r.object latest

theorem hasReading_initial : HasReading .initial :=
  ⟨.opened none, CentralComputer.initial.latest, rfl⟩

/-- A `Connect` starts with an empty cache over the fields of the connection before. -/
theorem connect_eq {cc : CentralComputer} (h : HasReading cc) (outcome : Option Bytes) :
    (cc.connect outcome).1 =
      { Reading.opened outcome with link := (cc.connect outcome).1.link }.object cc.latest := by
  obtain ⟨r, latest, rfl⟩ := h
  -- nothing is cached behind a `Disconnect`, nor on a connection that is not open
  have hempty : (if (r.object latest).connected then (r.object latest).disconnect
      else r.object latest) =
      { r.object latest with connected := false, haveLatest := false } := by
    rw [Reading.object]
    cases r.connected with
    | false => rfl
    | true => rfl
  cases outcome with
  | none =>
      rw [CentralComputer.connect, hempty]
      rfl
  | some incoming =>
      rw [CentralComputer.connect, hempty]
      rfl

theorem hasReading_historyCall {cc cc' : CentralComputer} {c : HistoryCall} (h : HasReading cc)
    (hc : cc.historyCall c = some cc') : HasReading cc' := by
  cases c with
  | connect outcome =>
      cases hc
      exact ⟨_, _, connect_eq h outcome⟩
  | mission c =>
      obtain ⟨r, latest, rfl⟩ := h
      rw [CentralComputer.historyCall, Reading.object_missionCall, Option.map_eq_some_iff] at hc
      obtain ⟨r', -, rfl⟩ := hc
      exact ⟨r', latest, rfl⟩

theorem Reading.missionCall_closed {r : Reading} (h : r.connected = false) (c : MissionCall) :
    r.missionCall c = some r := by
  have hopen : ¬ r.connected = true := Bool.eq_false_iff.mp h
  cases c with
  | disconnect =>
      rw [Reading.missionCall, Reading.disconnect, ← h]
  | call c =>
      cases c with
      | poll arrivals => exact if_neg hopen
      | queryMeasurements startTime endTime stack => exact if_neg hopen
      | queryEvents startTime endTime stack => exact if_neg hopen

theorem Reading.run_closed {r : Reading} (h : r.connected = false) (calls : List MissionCall) :
    calls.foldlM Reading.missionCall r = some r := by
  induction calls with
  | nil => rfl
  | cons c calls ih =>
      rw [List.foldlM_cons, Reading.missionCall_closed h]
      exact ih

/-- What is shown for a mission: the overlay of its connection over what was cached before. -/
theorem shownAfter_eq {history : List HistoryCall} {cc : CentralComputer}
    (h : history.foldlM CentralComputer.historyCall .initial = some cc) (outcome : Option Bytes)
    (calls : List MissionCall) :
    shownAfter history outcome calls =
      (missionTelemetry outcome calls).map fun seen ↦ seen.map fun s ↦ s.onto cc.latest := by
  have hreading : HasReading cc :=
    foldlM_invariant (fun _ _ _ hs hc ↦ hasReading_historyCall hs hc) hasReading_initial h
  let r : Reading := { Reading.opened outcome with link := (cc.connect outcome).1.link }
  have hconnect : cc.historyCall (.connect outcome) = some (r.object cc.latest) :=
    congrArg some (connect_eq hreading outcome)
  have hrun : shownAfter history outcome calls =
      ((calls.foldlM Reading.missionCall r).map fun r ↦ r.object cc.latest).map
        CentralComputer.shown := by
    rw [shownAfter, List.foldlM_append, h, Option.bind_eq_bind, Option.bind_some, List.foldlM_cons,
      hconnect, Option.bind_eq_bind, Option.bind_some, List.foldlM_map]
    exact congrArg _ (foldlM_simulates (Reading.object_missionCall cc.latest) r calls)
  rw [hrun, missionTelemetry, Option.map_map, Option.map_map]
  cases outcome with
  -- the socket of an earlier connection is still in the object, but it is not read
  | none =>
      rw [Reading.run_closed rfl, Reading.run_closed rfl]
      exact congrArg some r.object_shown
  | some incoming =>
      have hopened : r = .opened (some incoming) := rfl
      rw [hopened]
      exact congrArg (Option.map · _) (funext fun r ↦ r.object_shown)

/-! ## 5. Isolation -/

theorem SameBytes.refl (c : MissionCall) : SameBytes c c := by
  cases c with
  | disconnect => exact .disconnect
  | call c =>
      cases c with
      | poll arrivals => exact .poll arrivals fun i ↦ (arrivals i).storage
      | queryMeasurements startTime endTime stack => exact .queryMeasurements _ _ _ _
      | queryEvents startTime endTime stack => exact .queryEvents _ _ _ _

theorem sameBytes_self (calls : List MissionCall) : List.Forall₂ SameBytes calls calls :=
  List.forall₂_same.mpr fun c _ ↦ SameBytes.refl c

def brightTlvs : List Tlv :=
  [u8Tlv protoFieldMode 2,
    { tag := protoFieldMeasurementRecord
      value := tlvBytes [u16Tlv protoFieldTemperature 215, u8Tlv protoFieldHumidity 40,
        u16Tlv protoFieldLight 1000, u16Tlv protoFieldBatteryVoltage 3000, u8Tlv protoFieldMode 2]
      length_lt := by decide }]

def allThere (m : Bytes) : Nat → PollArrival := fun _ ↦
  { arrived := 4, closed := false, payloadArrived := m.length, storage := ofList [] 0 }

def oneMessage (m : Bytes) : List MissionCall := [.call (.poll (allThere m))]

def brightMessage : Bytes := tlvMessage protoTagKeepAlive (tlvBytes brightTlvs)

def brightHistory : List HistoryCall :=
  .connect (some (tcpMessage brightMessage)) :: (oneMessage brightMessage).map .mission

/-- The mission leaves other fields behind than those of an object that has received nothing. -/
theorem brightHistory_run :
    ∃ cc, brightHistory.foldlM CentralComputer.historyCall .initial = some cc ∧
      ∀ sensor, CentralComputer.initial.latest.sensors sensor ≠ cc.latest.sensors sensor := by
  let bright : DcaMeasurement :=
    { temperature := 215, humidity := 40, light := 1000, batteryVoltage := 3000, mode := 2 }
  have hlatest : ((brightHistory.foldlM CentralComputer.historyCall .initial).map
      fun cc ↦ cc.latest) = some bright := by decide
  obtain ⟨cc, hrun, hcc⟩ := Option.map_eq_some_iff.mp hlatest
  refine ⟨cc, hrun, fun sensor ↦ ?_⟩
  rw [hcc]
  cases sensor with
  | temperature => decide
  | humidity => decide
  | light => decide
  | battery => decide
  | mode => decide

section Isolation

variable {outcome : Option Bytes} {calls calls' : List MissionCall}

/-- A field that is not covered shows which of two missions came before. -/
theorem TelemetryIsolated.covers (h : TelemetryIsolated outcome calls)
    (hsame : List.Forall₂ SameBytes calls calls') : EverySensorSeen outcome calls' := by
  intro s hs
  -- two histories whose fields differ at every sensor, and the same messages behind them
  obtain ⟨cc, hrun, hdiffer⟩ := brightHistory_run
  have hcompletes : Completes brightHistory := by rw [Completes, hrun]; rfl
  have hshown := (h [] [] calls' rfl rfl hsame).symm.trans
    (h [] brightHistory calls' rfl hcompletes hsame)
  rw [shownAfter_eq rfl, shownAfter_eq hrun, hs] at hshown
  have honto := Option.some.inj (Option.some.inj hshown)
  exact Overlay.covers_of_onto_eq hdiffer (Sighting.onto_eq_iff.mp honto).2

/-- Overlays that cover every field are told apart by what they show. -/
theorem seen_eq_of_shown_eq {seen seen' : Option (Option Sighting)} {latest : DcaMeasurement}
    (hcovers : ∀ s, seen = some (some s) → s.found.Covers)
    (hcovers' : ∀ s, seen' = some (some s) → s.found.Covers)
    (h : (seen.map fun s ↦ s.map fun s ↦ s.onto latest) =
      seen'.map fun s ↦ s.map fun s ↦ s.onto latest) : seen = seen' := by
  match seen, seen' with
  | none, none => rfl
  | some none, some none => rfl
  | some (some s), some (some t) =>
      obtain ⟨htimestamp, hfound⟩ := Sighting.onto_eq_iff.mp (Option.some.inj (Option.some.inj h))
      have hsame := (hcovers s rfl).eq_of_onto_eq (hcovers' t rfl) hfound
      rw [Sighting.ext htimestamp hsame]

theorem TelemetryIsolated.fromBytes (h : TelemetryIsolated outcome calls) :
    FromBytes outcome calls := by
  intro calls' hsame
  have hcovers := h.covers (sameBytes_self calls)
  have hcovers' := h.covers hsame
  have hshown := (h [] [] calls' rfl rfl hsame).symm
  rw [shownAfter_eq rfl, shownAfter_eq rfl] at hshown
  exact seen_eq_of_shown_eq hcovers' hcovers hshown

end Isolation

/-- For every `Connect` and all the calls behind it. -/
theorem telemetry_isolated_iff (outcome : Option Bytes) (calls : List MissionCall) :
    TelemetryIsolated outcome calls ↔ FromBytes outcome calls ∧ EverySensorSeen outcome calls := by
  constructor
  · intro h
    exact ⟨h.fromBytes, h.covers (sameBytes_self calls)⟩
  · rintro ⟨hbytes, hseen⟩ history history' calls' hcompletes hcompletes' hsame
    obtain ⟨cc, hrun⟩ := Option.isSome_iff_exists.mp hcompletes
    obtain ⟨cc', hrun'⟩ := Option.isSome_iff_exists.mp hcompletes'
    rw [shownAfter_eq hrun, shownAfter_eq hrun', hbytes calls' hsame]
    refine Option.map_congr fun seen hs ↦ Option.map_congr fun s hs' ↦ ?_
    subst hs'
    exact Sighting.onto_eq_iff.mpr ⟨rfl, (hseen s hs).onto_eq _ _⟩

/-- Behind a full record nothing shows of the mission before. -/
example : shownAfter brightHistory (some (tcpMessage brightMessage)) (oneMessage brightMessage) =
    shownAfter [] (some (tcpMessage brightMessage)) (oneMessage brightMessage) := by decide

/-- The submarine reports its mode in front of the record only: behind a mission that ended in mode 2
    the next one shows that mode, and as the first one it shows mode 0. -/
theorem telemetry_leaks :
    ¬ ∀ (outcome : Option Bytes) (calls : List MissionCall), TelemetryIsolated outcome calls := by
  intro h
  let m := tlvMessage protoTagKeepAlive (tlvBytes warningTlvs)
  let sensors : DcaMeasurement :=
    { temperature := 215, humidity := 40, light := 1000, batteryVoltage := 3000 }
  let ended := brightHistory ++ [.mission .disconnect]
  have hfirst : shownAfter [] (some (tcpMessage m)) (oneMessage m) = some (some sensors) := by decide
  have hnext : shownAfter ended (some (tcpMessage m)) (oneMessage m) =
      some (some { sensors with mode := 2 }) := by decide
  have hleak := h (some (tcpMessage m)) (oneMessage m) [] ended (oneMessage m) rfl (by decide)
    (sameBytes_self _)
  rw [hfirst, hnext] at hleak
  exact absurd hleak (by decide)

end SubmarineMonitor
