import SubmarineMonitor.Reasoning.Runs
import SubmarineMonitor.Reasoning.Text
import Mathlib.Data.Finset.Sort

/-!
# DataCollection — the record files of `data_collection.cpp`

A directory is that of one submarine and one category.  Its files are a finite set, because the
order in which a directory is listed is unspecified and the code sorts what it lists.  File
operations succeed.
-/

open Reasoning

namespace SubmarineMonitor

/-! ## 1. Records -/

structure DcaMeasurement where
  timestamp : UInt32 := 0
  temperature : Int16 := 0
  humidity : UInt8 := 0
  light : UInt16 := 0
  batteryVoltage : UInt16 := 0
  mode : UInt8 := 0
  deriving DecidableEq, Repr

/-- `measurement` keeps its defaults unless `hasMeasurement`. -/
structure DcaEvent where
  timestamp : UInt32 := 0
  eventType : UInt8 := 0
  eventSource : UInt8 := 0
  hasMeasurement : Bool := false
  measurement : DcaMeasurement := {}
  deriving DecidableEq, Repr

/-! ## 2. Files -/

/-- A date of `gmtime_r`, with a year of at most four digits. -/
structure Date where
  year : Nat
  month : Nat
  day : Nat
  year_lt : year < 10000
  month_le : month ≤ 12
  day_le : day ≤ 31

/-- `TodayDateString` on the date `d`: `"%04d-%02d-%02d"`. -/
def todayDateString (d : Date) : Text :=
  padded 4 d.year ++ '-' :: (padded 2 d.month ++ '-' :: padded 2 d.day)

def fileName (d : Date) : Text := todayDateString d ++ ['.', 'l', 'o', 'g']

structure Directory where
  files : Finset Text
  content : Text → Text

def dcaMaxFiles : Nat := 7

def rotateIfNeeded (dir : Directory) : Directory :=
  if dir.files.card ≤ dcaMaxFiles then dir
  else
    match dir.files.sort (· ≤ ·) with
    | [] => dir
    | front :: _ => { dir with files := dir.files.erase front }

/-- A file that is not there is created empty. -/
def appendLine (dir : Directory) (today : Date) (line : Text) : Directory :=
  -- rotation comes first, and does not look at the file that is about to be written
  let dir := rotateIfNeeded dir
  let file := fileName today
  let old := if file ∈ dir.files then dir.content file else []
  { files := insert file dir.files
    content := Function.update dir.content file (old ++ (line ++ ['\n'])) }

def readAllLines (dir : Directory) : List Text :=
  (dir.files.sort (· ≤ ·)).flatMap fun f ↦
    (getLines [] (dir.content f)).filter fun line ↦ line ≠ []

/-- The loop of a query: lines that do not scan are skipped, records out of range too. -/
def dcaQuery {ρ : Type} (scan : Text → Option ρ) (timestamp : ρ → UInt32) (dir : Directory)
    (start stop : UInt32) : List ρ :=
  (readAllLines dir).filterMap fun line ↦
    match scan line with
    | none => none
    | some r => if timestamp r < start ∨ timestamp r > stop then none else some r

/-! ## 3. Measurements -/

def measurementLine (m : DcaMeasurement) : Text :=
  commaSeparated [m.timestamp.toNat, m.temperature.toInt, m.humidity.toNat, m.light.toNat,
    m.batteryVoltage.toNat, m.mode.toNat]

def dcaStoreMeasurement (dir : Directory) (today : Date) (m : DcaMeasurement) : Directory :=
  appendLine dir today (measurementLine m)

def measurementFormat : List Directive :=
  [.unsigned, .char ',', .signed, .char ',', .unsigned, .char ',', .unsigned, .char ',', .unsigned,
    .char ',', .unsigned]

def scanMeasurement (line : Text) : Option DcaMeasurement :=
  match sscanf measurementFormat line with
  | [timestamp, temperature, humidity, light, battery, mode] =>
      some { timestamp := .ofInt timestamp, temperature := .ofInt temperature,
             humidity := .ofInt humidity, light := .ofInt light, batteryVoltage := .ofInt battery,
             mode := .ofInt mode }
  | _ => none

def dcaQueryMeasurements : Directory → UInt32 → UInt32 → List DcaMeasurement :=
  dcaQuery scanMeasurement (·.timestamp)

/-! ## 4. Events -/

structure StoreEventArgs where
  timestamp : UInt32
  eventType : UInt8
  eventSource : UInt8
  hasMeasurement : Bool
  temperature : Int16
  humidity : UInt8
  light : UInt16
  batteryVoltage : UInt16
  mode : UInt8
  deriving DecidableEq, Repr

def eventLine (e : StoreEventArgs) : Text :=
  if e.hasMeasurement then
    commaSeparated [e.timestamp.toNat, e.eventType.toNat, e.eventSource.toNat,
      e.temperature.toInt, e.humidity.toNat, e.light.toNat, e.batteryVoltage.toNat, e.mode.toNat]
  else commaSeparated [e.timestamp.toNat, e.eventType.toNat, e.eventSource.toNat]

def dcaStoreEvent (dir : Directory) (today : Date) (e : StoreEventArgs) : Directory :=
  appendLine dir today (eventLine e)

def eventFormat : List Directive :=
  [.unsigned, .char ',', .unsigned, .char ',', .unsigned, .char ',', .signed, .char ',', .unsigned,
    .char ',', .unsigned, .char ',', .unsigned, .char ',', .unsigned]

def scanEvent (line : Text) : Option DcaEvent :=
  match sscanf eventFormat line with
  -- all eight fields scanned: the line has a measurement
  | [ts, eventType, eventSource, temperature, humidity, light, battery, mode] =>
      some { timestamp := .ofInt ts, eventType := .ofInt eventType,
             eventSource := .ofInt eventSource, hasMeasurement := true,
             measurement :=
               { timestamp := .ofInt ts, temperature := .ofInt temperature,
                 humidity := .ofInt humidity, light := .ofInt light,
                 batteryVoltage := .ofInt battery, mode := .ofInt mode } }
  | [ts, eventType, eventSource] =>
      some { timestamp := .ofInt ts, eventType := .ofInt eventType,
             eventSource := .ofInt eventSource, hasMeasurement := false }
  | _ => none

def dcaQueryEvents : Directory → UInt32 → UInt32 → List DcaEvent :=
  dcaQuery scanEvent (·.timestamp)

/-! ## 5. Runs of stores and queries -/

inductive DcaCall (α : Type)
  | store (today : Date) (a : α)
  | query (start stop : UInt32)

def measurementCall (dir : Directory) : DcaCall DcaMeasurement → Directory × List DcaMeasurement
  | .store today m => (dcaStoreMeasurement dir today m, [])
  | .query start stop => (dir, dcaQueryMeasurements dir start stop)

def eventCall (dir : Directory) : DcaCall StoreEventArgs → Directory × List DcaEvent
  | .store today e => (dcaStoreEvent dir today e, [])
  | .query start stop => (dir, dcaQueryEvents dir start stop)

def stored {α : Type} (calls : List (DcaCall α)) : List (Date × α) :=
  calls.filterMap fun
    | .store today a => some (today, a)
    | .query _ _ => none

def StoreEventArgs.event (e : StoreEventArgs) : DcaEvent :=
  { timestamp := e.timestamp, eventType := e.eventType, eventSource := e.eventSource
    hasMeasurement := e.hasMeasurement
    measurement :=
      if e.hasMeasurement then
        { timestamp := e.timestamp, temperature := e.temperature, humidity := e.humidity,
          light := e.light, batteryVoltage := e.batteryVoltage, mode := e.mode }
      else {} }

end SubmarineMonitor
