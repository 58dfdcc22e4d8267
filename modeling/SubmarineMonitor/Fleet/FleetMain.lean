import SubmarineMonitor.Fleet.FleetRuns

/-!
# FleetMain — `main` of the fleet program

The menu loop reads its choices and the answers of the operations from one standard input.  For every
input it goes through a run of menu operations, each of which reads on where the one before it has
stopped; it comes to `Exit`, it never ends, at the latest when the input does, or SIGPIPE ends it in a
query to a bridge that has closed its connection (`fleet_main`).
-/

open Reasoning

namespace SubmarineMonitor

/-! ## 1. The loop -/

inductive MenuItem
  | op (op : FleetOp)
  | exit
  | unknown
  deriving DecidableEq, Repr

def menuItem : Int → MenuItem
  | 1 => .op .addSubmarine
  | 2 => .op .displayAll
  | 3 => .op .searchAndDisplay
  | 4 => .op .assignMission
  | 5 => .op .updateMissionDetails
  | 6 => .op .endMission
  | 7 => .op .associateCombatSubmarines
  | 8 => .op .sendMessage
  | 9 => .op .displayReceivedMessages
  | 10 => .exit
  | 11 => .op .viewHistoricalData
  | _ => .unknown

inductive FleetEnd
  | exited
  | halted (h : Halt)
  /-- Nothing handles SIGPIPE, which a send on a connection that its bridge has closed can raise. -/
  | killed
  /-- There are rounds to go. -/
  | running
  deriving DecidableEq, Repr

/-- The fleet behind the last operation that has returned, and what the operations have said. -/
structure FleetMainOut where
  fleet : Fleet
  outs : List FleetOut := []
  ended : FleetEnd
  deriving DecidableEq, Repr

def FleetMainOut.after (rest : FleetMainOut) (out : FleetOut) : FleetMainOut :=
  { rest with outs := out :: rest.outs }

/-- Rounds of the menu, for the lines of the standard input, the world each operation meets, and whether
    SIGPIPE comes at one of its sends. -/
def fleetMainLoop : Nat → (Nat → FleetWorld) → (Nat → Bool) → Fleet → List Text → FleetMainOut
  | 0, _, _, fleet, _ => { fleet, ended := .running }
  | rounds + 1, worlds, signals, fleet, lines =>
      match promptInt lines with
      | .error e => { fleet, ended := .halted e }
      | .ok (choice, lines) =>
          match menuItem choice with
          | .exit => { fleet, ended := .exited }
          | .unknown => fleetMainLoop rounds worlds signals fleet lines
          | .op op =>
              match fleet.perform (worlds 0) op lines with
              | .error e => { fleet, ended := .halted e }
              | .ok (out, lines) =>
                  -- the requests of a query are the only sends there are
                  if op = .viewHistoricalData ∧ out.report = .history ∧ signals 0 then
                    { fleet, ended := .killed }
                  else if out.returned then
                    (fleetMainLoop rounds (fun n ↦ worlds (n + 1)) (fun n ↦ signals (n + 1)) out.fleet
                      lines).after out
                  else { fleet, ended := .halted .hangs }

/-- Every round takes a line. -/
def fleetMain (worlds : Nat → FleetWorld) (signals : Nat → Bool) (lines : List Text) : FleetMainOut :=
  fleetMainLoop (lines.length + 1) worlds signals [] lines

/-! ## 2. What an operation reads -/

theorem promptIntLoop_reads {lines rest : List Text} {value : Int}
    (h : promptIntLoop lines = .ok (value, rest)) :
    rest <:+ lines ∧ rest.length < lines.length ∧ ∃ line ∈ lines, stoi line = some value := by
  induction lines with
  | nil => cases h
  | cons line lines ih =>
      rw [promptIntLoop] at h
      cases hline : stoi line with
      | none =>
          rw [hline] at h
          obtain ⟨hsuffix, hshort, other, hother, hvalue⟩ := ih h
          exact ⟨hsuffix.trans (List.suffix_cons line lines), Nat.lt_succ_of_lt hshort, other,
            List.mem_cons_of_mem line hother, hvalue⟩
      | some n =>
          rw [hline] at h
          cases h
          exact ⟨List.suffix_cons line _, Nat.lt_succ_self _, line, List.mem_cons_self, hline⟩

theorem leavesEnd_promptLine : LeavesEnd promptLine :=
  fun lines ↦ gives_ok (List.tail_suffix lines)

theorem leavesEnd_promptInt : LeavesEnd promptInt :=
  fun _ ↦ ⟨fun _ hr ↦ (promptIntLoop_reads hr).1, fun _ _ ↦ trivial⟩

theorem researcherLines_suffix (lines : List Text) : (researcherLines lines).2 <:+ lines := by
  induction lines with
  | nil => exact List.suffix_refl _
  | cons line lines ih =>
      rw [researcherLines]
      by_cases hempty : line = []
      · rw [if_pos hempty]
        exact List.suffix_cons line lines
      · rw [if_neg hempty]
        exact ih.trans (List.suffix_cons line lines)

theorem leavesEnd_addResearchers (r : ResearchSubmarine) : LeavesEnd r.addResearchers :=
  fun lines ↦ gives_ok (researcherLines_suffix lines)

theorem leavesEnd_assignMission (sub : Submarine) (lncConnect : Text → UInt16 → Option Bytes) :
    LeavesEnd (sub.assignMission lncConnect) := by
  cases sub with
  | research r =>
      apply leavesEnd_bind
      · apply leavesEnd_bind leavesEnd_promptLine
        intro topic
        exact leavesEnd_bind (leavesEnd_addResearchers _) fun _ ↦ leavesEnd_pure _
      · exact fun _ ↦ leavesEnd_pure _
  | combat c =>
      apply leavesEnd_bind
      · apply leavesEnd_bind leavesEnd_promptLine
        intro missionDescription
        apply leavesEnd_bind leavesEnd_promptLine
        intro commanderName
        apply leavesEnd_bind leavesEnd_promptInt
        intro personnelCount
        apply leavesEnd_bind leavesEnd_promptLine
        intro host
        apply leavesEnd_ite
        · exact leavesEnd_pure _
        · exact leavesEnd_bind leavesEnd_promptInt fun _ ↦ leavesEnd_pure _
      · exact fun _ ↦ leavesEnd_pure _

theorem leavesEnd_updateMissionDetails (sub : Submarine) : LeavesEnd sub.updateMissionDetails := by
  cases sub with
  | research r =>
      apply leavesEnd_bind
      · apply leavesEnd_bind leavesEnd_promptLine
        intro topic
        apply leavesEnd_bind leavesEnd_promptLine
        intro answer
        exact leavesEnd_ite (leavesEnd_addResearchers _) (leavesEnd_pure _)
      · exact fun _ ↦ leavesEnd_pure _
  | combat c =>
      apply leavesEnd_bind
      · apply leavesEnd_bind leavesEnd_promptLine
        intro missionDescription
        apply leavesEnd_bind leavesEnd_promptLine
        intro commanderName
        apply leavesEnd_bind leavesEnd_promptLine
        intro value
        cases stoi value with
        | none => exact leavesEnd_pure _
        | some count => exact leavesEnd_pure _
      · exact fun _ ↦ leavesEnd_pure _

/-- An operation leaves an end of the input to the next choice. -/
theorem leavesEnd_perform (fleet : Fleet) (world : FleetWorld) (op : FleetOp) :
    LeavesEnd (fleet.perform world op) := by
  cases op with
  | addSubmarine =>
      apply leavesEnd_bind leavesEnd_promptLine
      intro serialNumber
      apply leavesEnd_ite (leavesEnd_pure _)
      apply leavesEnd_bind leavesEnd_promptLine
      intro name
      apply leavesEnd_bind leavesEnd_promptInt
      intro type
      exact leavesEnd_ite (leavesEnd_pure _) (leavesEnd_ite (leavesEnd_pure _) (leavesEnd_pure _))
  | displayAll =>
      apply leavesEnd_ite (leavesEnd_pure _)
      exact leavesEnd_bind (leavesEnd_lift _) fun _ ↦ leavesEnd_pure _
  | searchAndDisplay =>
      apply leavesEnd_bind leavesEnd_promptLine
      intro serial
      cases fleet.findBySerial serial with
      | none => exact leavesEnd_pure _
      | some sub => exact leavesEnd_bind (leavesEnd_lift _) fun _ ↦ leavesEnd_pure _
  | assignMission =>
      apply leavesEnd_bind leavesEnd_promptLine
      intro serial
      cases fleet.findBySerial serial with
      | none => exact leavesEnd_pure _
      | some sub =>
          apply leavesEnd_ite (leavesEnd_pure _)
          exact leavesEnd_bind (leavesEnd_assignMission sub _) fun _ ↦ leavesEnd_pure _
  | updateMissionDetails =>
      apply leavesEnd_bind leavesEnd_promptLine
      intro serial
      cases fleet.findBySerial serial with
      | none => exact leavesEnd_pure _
      | some sub =>
          apply leavesEnd_ite (leavesEnd_pure _)
          exact leavesEnd_bind (leavesEnd_updateMissionDetails sub) fun _ ↦ leavesEnd_pure _
  | endMission =>
      apply leavesEnd_bind leavesEnd_promptLine
      intro serial
      cases fleet.findBySerial serial with
      | none => exact leavesEnd_pure _
      | some sub =>
          apply leavesEnd_ite (leavesEnd_pure _)
          exact leavesEnd_bind (leavesEnd_lift _) fun _ ↦ leavesEnd_pure _
  | associateCombatSubmarines =>
      apply leavesEnd_bind leavesEnd_promptLine
      intro serialA
      cases fleet.findCombat serialA with
      | none => exact leavesEnd_pure _
      | some a =>
          apply leavesEnd_ite (leavesEnd_pure _)
          apply leavesEnd_bind leavesEnd_promptLine
          intro serialB
          cases fleet.findCombat serialB with
          | none => exact leavesEnd_pure _
          | some b => exact leavesEnd_ite (leavesEnd_pure _) (leavesEnd_pure _)
  | sendMessage =>
      apply leavesEnd_bind leavesEnd_promptLine
      intro senderSerial
      cases fleet.findCombat senderSerial with
      | none => exact leavesEnd_pure _
      | some sender =>
          apply leavesEnd_bind leavesEnd_promptLine
          intro receiverSerial
          cases fleet.findCombat receiverSerial with
          | none => exact leavesEnd_pure _
          | some receiver =>
              apply leavesEnd_ite (leavesEnd_pure _)
              exact leavesEnd_bind leavesEnd_promptLine fun _ ↦ leavesEnd_pure _
  | displayReceivedMessages =>
      apply leavesEnd_bind leavesEnd_promptLine
      intro serial
      cases fleet.findCombat serial with
      | none => exact leavesEnd_pure _
      | some c => exact leavesEnd_ite (leavesEnd_pure _) (leavesEnd_pure _)
  | viewHistoricalData =>
      apply leavesEnd_bind leavesEnd_promptLine
      intro serial
      cases fleet.findCombat serial with
      | none => exact leavesEnd_pure _
      | some c =>
          apply leavesEnd_ite (leavesEnd_pure _)
          apply leavesEnd_bind leavesEnd_promptInt
          intro hoursBackStart
          apply leavesEnd_bind leavesEnd_promptInt
          exact fun hoursBackEnd ↦ leavesEnd_pure _

/-! ## 3. Runs -/

/-- The operations that return, as a run: each of them in the next world, and each behind a choice that is
    behind what the one before it has read. -/
structure MenuRun (worlds : Nat → FleetWorld) (fleet : Fleet) (lines : List Text)
    (out : FleetMainOut) (is : List FleetInput) : Prop where
  state : runState fleetStep (.ok fleet) is = .ok out.fleet
  outs : runOutputs fleetStep (.ok fleet) is = out.outs.map some
  worlds : is.map FleetInput.world = (List.range is.length).map worlds
  lines : (lines :: is.map FleetInput.lines).Pairwise fun a b ↦ b <:+ a ∧ b.length < a.length

section Loop

variable {worlds : Nat → FleetWorld} {signals : Nat → Bool} {fleet : Fleet} {lines rest : List Text}
  {out : FleetMainOut}

theorem menuRun_nil (worlds : Nat → FleetWorld) (fleet : Fleet) (lines : List Text) (ended : FleetEnd) :
    MenuRun worlds fleet lines { fleet, ended } [] where
  state := rfl
  outs := rfl
  worlds := rfl
  lines := List.pairwise_singleton _ _

theorem MenuRun.skip {is : List FleetInput} (h : MenuRun worlds fleet rest out is)
    (hsuffix : rest <:+ lines) (hshort : rest.length < lines.length) :
    MenuRun worlds fleet lines out is where
  state := h.state
  outs := h.outs
  worlds := h.worlds
  lines := by
    obtain ⟨hfirst, hothers⟩ := List.pairwise_cons.mp h.lines
    exact List.pairwise_cons.mpr ⟨fun other hin ↦ ⟨(hfirst other hin).1.trans hsuffix,
      Nat.lt_trans (hfirst other hin).2 hshort⟩, hothers⟩

theorem MenuRun.cons {is : List FleetInput} {op : FleetOp} {first : FleetOut} {left : List Text}
    (hperform : fleet.perform (worlds 0) op rest = .ok (first, left)) (hleft : left <:+ rest)
    (hreturned : first.returned = true)
    (h : MenuRun (fun n ↦ worlds (n + 1)) first.fleet left out is) (hsuffix : rest <:+ lines)
    (hshort : rest.length < lines.length) :
    MenuRun worlds fleet lines (out.after first) ({ op, lines := rest, world := worlds 0 } :: is) := by
  let i : FleetInput := { op, lines := rest, world := worlds 0 }
  have hstep : fleetStep (.ok fleet) i = (.ok first.fleet, some first) := by
    simp only [fleetStep, i, hperform, hreturned, if_true]
  refine { state := ?_, outs := ?_, worlds := ?_, lines := ?_ }
  · rw [runState_cons, hstep]
    exact h.state
  · rw [runOutputs, hstep]
    exact congrArg (some first :: ·) h.outs
  · rw [List.map_cons, h.worlds, List.length_cons, List.range_succ_eq_map, List.map_cons, List.map_map]
    rfl
  · obtain ⟨hfirst, hothers⟩ := List.pairwise_cons.mp h.lines
    have hlater : ∀ other ∈ is.map FleetInput.lines, other <:+ rest ∧ other.length < rest.length :=
      fun other hin ↦ ⟨(hfirst other hin).1.trans hleft,
        Nat.lt_of_lt_of_le (hfirst other hin).2 hleft.length_le⟩
    rw [List.map_cons, List.pairwise_cons, List.pairwise_cons]
    refine ⟨List.forall_mem_cons.mpr ⟨⟨hsuffix, hshort⟩, fun other hin ↦ ?_⟩, hlater, hothers⟩
    exact ⟨(hlater other hin).1.trans hsuffix, Nat.lt_trans (hlater other hin).2 hshort⟩

/-- The operation behind those that have returned asks a bridge, and SIGPIPE comes at one of its sends. -/
structure KilledAsking (worlds : Nat → FleetWorld) (signals : Nat → Bool) (lines : List Text)
    (out : FleetMainOut) : Prop where
  signal : signals out.outs.length = true
  asks : ∃ rest r, rest <:+ lines ∧
    out.fleet.perform (worlds out.outs.length) .viewHistoricalData rest = .ok r ∧
      r.1.report = .history

theorem KilledAsking.weaken (h : KilledAsking worlds signals rest out) (hsuffix : rest <:+ lines) :
    KilledAsking worlds signals lines out where
  signal := h.signal
  asks := by
    obtain ⟨left, r, hleft, hperform⟩ := h.asks
    exact ⟨left, r, hleft.trans hsuffix, hperform⟩

theorem KilledAsking.after (first : FleetOut)
    (h : KilledAsking (fun n ↦ worlds (n + 1)) (fun n ↦ signals (n + 1)) lines out) :
    KilledAsking worlds signals lines (out.after first) := ⟨h.signal, h.asks⟩

structure LoopEnds (worlds : Nat → FleetWorld) (signals : Nat → Bool) (fleet : Fleet)
    (lines : List Text) (out : FleetMainOut) : Prop where
  ended : out.ended = .exited ∨ out.ended = .halted .hangs ∨ out.ended = .killed
  exits : out.ended = .exited → ∃ line ∈ lines, stoi line = some 10
  killed : out.ended = .killed → KilledAsking worlds signals lines out
  run : ∃ is, MenuRun worlds fleet lines out is

theorem loopEnds_hangs (worlds : Nat → FleetWorld) (signals : Nat → Bool) (fleet : Fleet)
    (lines : List Text) :
    LoopEnds worlds signals fleet lines { fleet, ended := .halted .hangs } where
  ended := .inr (.inl rfl)
  exits h := nomatch h
  killed h := nomatch h
  run := ⟨[], menuRun_nil _ _ _ _⟩

theorem menuItem_exit {choice : Int} (h : menuItem choice = .exit) : choice = 10 := by
  unfold menuItem at h
  split at h <;> first | rfl | cases h

theorem fleetMainLoop_ends {rounds : Nat} (hok : FleetOk fleet) (hrounds : lines.length < rounds) :
    LoopEnds worlds signals fleet lines (fleetMainLoop rounds worlds signals fleet lines) := by
  -- induction on the rounds; each one leaves fewer lines
  induction rounds generalizing worlds signals fleet lines with
  | zero => omega
  | succ rounds ih =>
      rw [fleetMainLoop]
      cases hchoice : promptInt lines with
      | error e =>
          -- behind the last line `PromptInt` asks for ever
          rw [show e = .hangs from (meets_promptInt lines).2 e hchoice]
          exact loopEnds_hangs _ _ _ _
      | ok r =>
          obtain ⟨choice, rest⟩ := r
          obtain ⟨hsuffix, hshort, line, hline, hvalue⟩ := promptIntLoop_reads hchoice
          dsimp only
          cases hitem : menuItem choice with
          | exit =>
              exact { ended := .inl rfl
                      exits := fun _ ↦ ⟨line, hline, menuItem_exit hitem ▸ hvalue⟩
                      killed := nofun
                      run := ⟨[], menuRun_nil _ _ _ _⟩ }
          | unknown =>
              have hrest := @ih worlds signals fleet rest hok (by omega)
              obtain ⟨is, hrun⟩ := hrest.run
              refine { ended := hrest.ended, exits := fun hexit ↦ ?_
                       killed := fun hkill ↦ (hrest.killed hkill).weaken hsuffix
                       run := ⟨is, hrun.skip hsuffix hshort⟩ }
              obtain ⟨last, hlast, hten⟩ := hrest.exits hexit
              exact ⟨last, hsuffix.subset hlast, hten⟩
          | op op =>
              have heffect := perform_effect hok (worlds 0) op rest
              dsimp only
              cases hperform : fleet.perform (worlds 0) op rest with
              | error e =>
                  -- with the invariant of the fleet `EndMission` never comes to its undefined case
                  rw [show e = .hangs from heffect.2 e hperform]
                  exact loopEnds_hangs _ _ _ _
              | ok r =>
                  obtain ⟨first, left⟩ := r
                  dsimp only
                  -- SIGPIPE ends the program, the operation returns, or a lookup in it does not
                  split_ifs with hsignal hreturned
                  · obtain ⟨rfl, hasked, hcomes⟩ := hsignal
                    exact { ended := .inr (.inr rfl)
                            exits := nofun
                            killed := fun _ ↦ ⟨hcomes, rest, _, hsuffix, hperform, hasked⟩
                            run := ⟨[], menuRun_nil _ _ _ _⟩ }
                  · have hleft := (leavesEnd_perform fleet (worlds 0) op rest).1 _ hperform
                    have hend := hleft.trans hsuffix
                    have hnext := @ih (fun n ↦ worlds (n + 1)) (fun n ↦ signals (n + 1)) first.fleet left
                      (fleetOk_effect hok (heffect.1 _ hperform))
                      (Nat.lt_of_le_of_lt hleft.length_le (by omega))
                    obtain ⟨is, hrun⟩ := hnext.run
                    refine { ended := hnext.ended, exits := fun hexit ↦ ?_
                             killed := fun hkill ↦ ((hnext.killed hkill).weaken hend).after first
                             run := ⟨_, hrun.cons hperform hleft hreturned hsuffix hshort⟩ }
                    obtain ⟨last, hlast, hten⟩ := hnext.exits hexit
                    exact ⟨last, hend.subset hlast, hten⟩
                  · exact loopEnds_hangs _ _ _ _

end Loop

/-- Without a choice of `Exit` the input ends first. -/
example : (fleetMain (fun _ ↦ idleWorld) (fun _ ↦ false)
    [['1'], ['a'], ['x'], ['2'], ['x'], ['7', '7']]).ended = .halted .hangs := by decide

end SubmarineMonitor
