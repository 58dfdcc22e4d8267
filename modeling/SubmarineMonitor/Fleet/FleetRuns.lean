import SubmarineMonitor.Fleet.FleetOperations

/-!
# FleetRuns — the fleet over whole runs of the menu

The invariant of every fleet that is reached from the empty one, and what it means for messages: they
pass between two submarines of one mission only, and none is lost.
-/

open Reasoning

namespace SubmarineMonitor

/-! ## 1. The invariant in every fleet that is reached -/

structure FleetInv (fleet : Fleet) : Prop where
  serials : (fleet.map Submarine.serialNumber).Nodup
  nodup : ∀ c, .combat c ∈ fleet → c.participatingSubmarines.Nodup
  irrefl : ∀ c, .combat c ∈ fleet → c.serialNumber ∉ c.participatingSubmarines
  symm : ∀ c d, .combat c ∈ fleet → .combat d ∈ fleet →
    d.serialNumber ∈ c.participatingSubmarines → c.serialNumber ∈ d.participatingSubmarines
  assigned : ∀ c, .combat c ∈ fleet → ∀ serial ∈ c.participatingSubmarines,
    c.assignedToMission = true ∧
      ∃ d, .combat d ∈ fleet ∧ d.serialNumber = serial ∧ d.assignedToMission = true
  unassigned : ∀ sub ∈ fleet, sub.isAssignedToMission = false → sub.MissionEmpty
  cached : ∀ c, .combat c ∈ fleet → c.centralComputer.haveLatest = true →
    c.centralComputer.connected = true
  connected : ∀ c, .combat c ∈ fleet → c.centralComputer.connected = true →
    c.assignedToMission = true

/-- A participant is a combat submarine on a mission that has the other one as its participant. -/
theorem FleetOk.participant {fleet : Fleet} (h : FleetOk fleet) {c : CombatSubmarine}
    (hc : .combat c ∈ fleet) {serial : Text} (hs : serial ∈ c.participatingSubmarines) :
    ∃ d, .combat d ∈ fleet ∧ d.serialNumber = serial ∧ d.assignedToMission = true ∧
      c.serialNumber ∈ d.participatingSubmarines := by
  obtain ⟨y, hy, hserial, hlive, hback⟩ := h.linked.symm (.combat c) hc serial hs
  cases y with
  | research r => exact absurd hlive id
  | combat d => exact ⟨d, hy, hserial, hlive, hback⟩

theorem FleetOk.assigned {fleet : Fleet} (h : FleetOk fleet) {c : CombatSubmarine}
    (hc : .combat c ∈ fleet) {serial : Text} (hs : serial ∈ c.participatingSubmarines) :
    c.assignedToMission = true := by
  apply Bool.of_not_eq_false
  intro hun
  have hempty := ((h.each _ hc).unassigned hun).2.2.2.1
  rw [hempty] at hs
  exact absurd hs List.not_mem_nil

theorem FleetOk.inv {fleet : Fleet} (h : FleetOk fleet) : FleetInv fleet where
  serials := h.linked.keys
  nodup c hc := h.linked.nodup _ hc
  irrefl c hc := h.linked.irrefl _ hc
  symm c d hc hd hmem := by
    obtain ⟨e, he, hserial, -, hback⟩ := h.participant hc hmem
    obtain rfl := Submarine.combat.inj (h.unique hd he hserial.symm)
    exact hback
  assigned c hc serial hs := by
    obtain ⟨d, hd, hserial, hlive, -⟩ := h.participant hc hs
    exact ⟨h.assigned hc hs, d, hd, hserial, hlive⟩
  unassigned sub hsub := (h.each sub hsub).unassigned
  cached c hc := ((h.each _ hc).link c rfl).cached
  connected c hc := ((h.each _ hc).link c rfl).connected

theorem fleetOk_nil : FleetOk [] where
  linked := linked_nil
  each := fun _ h ↦ absurd h List.not_mem_nil

structure RoundEffect (fleet : Fleet) (op : FleetOp) (r : Except Halt Fleet × Option FleetOut) :
    Prop where
  effect : ∀ out, r.2 = some out → FleetEffect fleet op out
  state : Gives r.1 (fun after ↦ ∃ out, r.2 = some out ∧ out.fleet = after) (· = .hangs)

theorem fleetStep_effect {fleet : Fleet} (h : FleetOk fleet) (i : FleetInput) :
    RoundEffect fleet i.op (fleetStep (.ok fleet) i) := by
  have hmeets := perform_effect h i.world i.op i.lines
  unfold fleetStep
  dsimp only
  cases hperform : fleet.perform i.world i.op i.lines with
  | error e =>
      constructor
      · rintro out ⟨⟩
      · exact gives_error (hmeets.2 e hperform)
  | ok r =>
      obtain ⟨out, left⟩ := r
      dsimp only
      constructor
      · rintro _ ⟨⟩
        exact hmeets.1 _ hperform
      · apply gives_ite
        · exact fun _ ↦ gives_ok ⟨out, rfl, rfl⟩
        · exact fun _ ↦ gives_error rfl

def FleetStateOk (s : Except Halt Fleet) : Prop := Gives s FleetOk (· = .hangs)

theorem fleetStep_ok (s : Except Halt Fleet) (i : FleetInput) (h : FleetStateOk s) :
    FleetStateOk (fleetStep s i).1 := by
  cases s with
  | error e => exact gives_error (h.2 e rfl)
  | ok fleet =>
      have hfleet := h.1 fleet rfl
      have hround := fleetStep_effect hfleet i
      refine ⟨fun after hafter ↦ ?_, hround.state.2⟩
      obtain ⟨out, hout, rfl⟩ := hround.state.1 after hafter
      exact fleetOk_effect hfleet (hround.effect out hout)

/-- The states of a run from the empty fleet: the last one, and the one before each step. -/
theorem fleetRun_ok (is : List FleetInput) :
    FleetStateOk (runState fleetStep (.ok []) is) ∧
      ∀ p ∈ runSteps fleetStep (.ok []) is, FleetStateOk p.1 := by
  have hstart : FleetStateOk (.ok []) := gives_ok fleetOk_nil
  have hstep : ∀ s i, FleetStateOk s → True → FleetStateOk (fleetStep s i).1 :=
    fun s i hs _ ↦ fleetStep_ok s i hs
  exact run_invariant hstep hstart fun _ _ ↦ trivial

/-- In every run of the menu from the empty fleet, with any inputs and any world, the fleet has the
    invariant; a run ends early only where an operation does not return. -/
theorem fleet_invariant (is : List FleetInput) :
    Gives (runState fleetStep (.ok []) is) FleetInv (· = .hangs) := by
  have hrun := (fleetRun_ok is).1
  exact ⟨fun fleet h ↦ (hrun.1 fleet h).inv, hrun.2⟩

/-! ## 2. Messages -/

def FleetOut.messageFor (serial : Text) (out : FleetOut) : Option Message :=
  match out.report.delivered with
  | none => none
  | some (receiverSerial, message) => if receiverSerial = serial then some message else none

def messagesFor (serial : Text) (outs : List (Option FleetOut)) : List Message :=
  outs.filterMap fun out ↦ out.bind (FleetOut.messageFor serial)

/-- Each inbox is what was delivered, and nothing was delivered to a serial number that is not in the
    fleet. -/
structure Delivered (fleet : Fleet) (outs : List (Option FleetOut)) : Prop where
  inbox : ∀ sub ∈ fleet, sub.inbox = messagesFor sub.serialNumber outs
  absent : ∀ serial, (∀ sub ∈ fleet, sub.serialNumber ≠ serial) → messagesFor serial outs = []

theorem messagesFor_append (serial : Text) (outs : List (Option FleetOut)) (out : Option FleetOut) :
    messagesFor serial (outs ++ [out]) =
      messagesFor serial outs ++ (out.bind (FleetOut.messageFor serial)).toList := by
  unfold messagesFor
  rw [List.filterMap_append, List.filterMap_cons, List.filterMap_nil]
  cases out.bind (FleetOut.messageFor serial) with
  | none => rfl
  | some m => rfl

theorem messageFor_none {out : FleetOut} (h : out.report.delivered = none) (serial : Text) :
    out.messageFor serial = none := by
  rw [FleetOut.messageFor, h]

theorem messagesFor_quiet {out : FleetOut} (h : out.report.delivered = none) (serial : Text)
    (outs : List (Option FleetOut)) :
    messagesFor serial (outs ++ [some out]) = messagesFor serial outs := by
  rw [messagesFor_append, Option.bind_some, messageFor_none h]
  exact List.append_nil _

theorem inbox_onCombat {f : CombatSubmarine → CombatSubmarine}
    (hf : ∀ c, (f c).receivedMessages = c.receivedMessages) (x : Submarine) :
    (x.onCombat f).inbox = x.inbox := by
  cases x with
  | research r => rfl
  | combat c => exact hf c

theorem inbox_endMissionOf (serial : Text) (x : Submarine) :
    (endMissionOf serial x).inbox = x.inbox := by
  unfold endMissionOf
  by_cases h : x.serialNumber = serial
  · rw [if_pos h]
    cases x with
    | research r => rfl
    | combat c => rfl
  · rw [if_neg h]
    apply inbox_onCombat
    exact fun c ↦ rfl

theorem addParticipant_receivedMessages (c : CombatSubmarine) (k : Text) :
    (c.addParticipant k).receivedMessages = c.receivedMessages := by
  obtain ⟨serials, hframe⟩ := addParticipant_frame c k
  rw [hframe]

theorem inbox_associateOf (serialA serialB : Text) (x : Submarine) :
    (associateOf serialA serialB x).inbox = x.inbox := by
  unfold associateOf
  by_cases ha : x.serialNumber = serialA
  · rw [if_pos ha]
    apply inbox_onCombat
    exact fun c ↦ addParticipant_receivedMessages c serialB
  · rw [if_neg ha]
    by_cases hb : x.serialNumber = serialB
    · rw [if_pos hb]
      apply inbox_onCombat
      exact fun c ↦ addParticipant_receivedMessages c serialA
    · rw [if_neg hb]

/-- A pass over the fleet that keeps serial numbers and inboxes, while nothing is delivered. -/
theorem Delivered.map {fleet : Fleet} {outs : List (Option FleetOut)} (h : Delivered fleet outs)
    {f : Submarine → Submarine} (hserial : ∀ x, (f x).serialNumber = x.serialNumber)
    (hinbox : ∀ x, (f x).inbox = x.inbox) {out : FleetOut} (hreport : out.report.delivered = none) :
    Delivered (fleet.map f) (outs ++ [some out]) where
  inbox := by
    rw [List.forall_mem_map]
    intro x hx
    rw [messagesFor_quiet hreport, hserial, hinbox, h.inbox x hx]
  absent serial hserials := by
    rw [messagesFor_quiet hreport]
    apply h.absent
    intro x hx
    rw [← hserial]
    exact hserials _ (List.mem_map_of_mem hx)

theorem delivered_effect {fleet : Fleet} {op : FleetOp} {out : FleetOut}
    {outs : List (Option FleetOut)} (hok : FleetOk fleet) (h : Delivered fleet outs)
    (heffect : FleetEffect fleet op out) : Delivered out.fleet (outs ++ [some out]) := by
  cases heffect with
  | quiet hfleet hreport =>
      constructor
      · intro y hy
        obtain ⟨x, hx, hxy⟩ := forall₂_mem_right hfleet hy
        rw [messagesFor_quiet hreport, hxy.inbox, hxy.serialNumber]
        exact h.inbox x hx
      · intro serial hserials
        rw [messagesFor_quiet hreport]
        apply h.absent
        intro x hx
        obtain ⟨y, hy, hxy⟩ := forall₂_mem_left hfleet hx
        rw [← hxy.serialNumber]
        exact hserials y hy
  | added sub hnew hfresh hfleet hreport =>
      rw [hfleet]
      constructor
      · rw [List.forall_mem_append, List.forall_mem_singleton]
        constructor
        · intro x hx
          rw [messagesFor_quiet hreport]
          exact h.inbox x hx
        · -- nobody wrote to a submarine that was not there
          rw [messagesFor_quiet hreport, hnew.fresh.2.1]
          exact (h.absent _ hfresh).symm
      · intro serial hserials
        rw [messagesFor_quiet hreport]
        exact h.absent serial fun x hx ↦ hserials x (List.mem_append_left _ hx)
  | ended sub hmem hfleet hreport =>
      rw [hfleet]
      exact h.map (endMissionOf_serialNumber _) (inbox_endMissionOf _) hreport
  | associated a b ha hb hne haLive hbLive hfleet hreport =>
      rw [hfleet]
      exact h.map (associateOf_serialNumber _ _) (inbox_associateOf _ _) hreport
  | sent a b content hop ha hb hparticipant hfleet hreport =>
      rw [hfleet]
      have hfor : ∀ serial, out.messageFor serial = if b.serialNumber = serial then
          some { content, senderSerialNumber := a.serialNumber } else none := by
        intro serial
        rw [FleetOut.messageFor, hreport]
      constructor
      · rw [List.forall_mem_map]
        intro x hx
        rw [messagesFor_append, Option.bind_some, hfor, (receiveOf_frame _ _ x).1, ← h.inbox x hx,
          receiveOf]
        by_cases hxb : x.serialNumber = b.serialNumber
        · obtain rfl := hok.unique hx hb hxb
          rw [if_pos hxb, if_pos hxb.symm]
          rfl
        · rw [if_neg hxb, if_neg (Ne.symm hxb)]
          exact (List.append_nil _).symm
      · intro serial hserials
        have hb' := hserials _ (List.mem_map_of_mem hb)
        rw [(receiveOf_frame _ _ _).1] at hb'
        have hbs : b.serialNumber ≠ serial := hb'
        rw [messagesFor_append, Option.bind_some, hfor, if_neg hbs, h.absent serial]
        · rfl
        · intro x hx
          have hx' := hserials _ (List.mem_map_of_mem hx)
          rw [(receiveOf_frame _ _ _).1] at hx'
          exact hx'

def FleetHistoryOk (s : Except Halt Fleet) (outs : List (Option FleetOut)) : Prop :=
  Gives s (fun fleet ↦ FleetOk fleet ∧ Delivered fleet outs) (· = .hangs)

theorem fleetRun_delivered (is : List FleetInput) :
    FleetHistoryOk (runState fleetStep (.ok []) is) (runOutputs fleetStep (.ok []) is) := by
  have hstart : FleetHistoryOk (.ok []) [] :=
    gives_ok ⟨fleetOk_nil, fun _ h ↦ absurd h List.not_mem_nil, fun _ _ ↦ rfl⟩
  have hstep : ∀ s outs i, FleetHistoryOk s outs →
      FleetHistoryOk (fleetStep s i).1 (outs ++ [(fleetStep s i).2]) := by
    intro s outs i hs
    cases s with
    | error e => exact gives_error (hs.2 e rfl)
    | ok fleet =>
        obtain ⟨hfleet, hdelivered⟩ := hs.1 fleet rfl
        have hround := fleetStep_effect hfleet i
        refine ⟨fun after hafter ↦ ?_, hround.state.2⟩
        obtain ⟨out, hout, rfl⟩ := hround.state.1 after hafter
        have heffect := hround.effect out hout
        rw [hout]
        exact ⟨fleetOk_effect hfleet heffect, delivered_effect hfleet hdelivered heffect⟩
  exact run_history hstep is hstart

/-! ## 3. Who may write to whom -/

theorem promptLine_bind {α : Type} (f : Text → Prompt α) (line : Text) (lines : List Text) :
    (promptLine >>= f) (line :: lines) = f line lines := rfl

/-- `SendMessage` from `a` to `b`, with the text on the lines behind the two serial numbers, delivers
    a message. -/
def Fleet.AcceptsMessage (fleet : Fleet) (a b : Text) (lines : List Text) : Prop :=
  ∃ r, fleet.sendMessage (a :: b :: lines) = .ok r ∧ r.1.report.delivered ≠ none

theorem acceptsMessage_iff (fleet : Fleet) (a b : Text) (lines : List Text) :
    fleet.AcceptsMessage a b lines ↔ ∃ sender receiver, fleet.findCombat a = some sender ∧
      fleet.findCombat b = some receiver ∧ b ∈ sender.participatingSubmarines := by
  unfold Fleet.AcceptsMessage
  rw [Fleet.sendMessage, promptLine_bind]
  cases ha : fleet.findCombat a with
  | none =>
      refine iff_of_false ?_ fun ⟨_, _, hsome, _⟩ ↦ nomatch hsome
      rintro ⟨r, hr, hdelivered⟩
      obtain rfl := Except.ok.inj hr
      exact hdelivered rfl
  | some sender =>
      dsimp only
      rw [promptLine_bind]
      cases hb : fleet.findCombat b with
      | none =>
          refine iff_of_false ?_ fun ⟨_, _, _, hsome, _⟩ ↦ nomatch hsome
          rintro ⟨r, hr, hdelivered⟩
          obtain rfl := Except.ok.inj hr
          exact hdelivered rfl
      | some receiver =>
          dsimp only
          by_cases hmem : b ∈ sender.participatingSubmarines
          · have hhas : ¬ ¬ sender.hasParticipant b = true :=
              not_not.mpr (List.contains_iff_mem.mpr hmem)
            rw [if_neg hhas]
            exact iff_of_true ⟨_, rfl, Option.some_ne_none _⟩ ⟨sender, receiver, rfl, rfl, hmem⟩
          · have hhas : ¬ sender.hasParticipant b = true :=
              fun h ↦ hmem (List.contains_iff_mem.mp h)
            rw [if_pos hhas]
            refine iff_of_false ?_ ?_
            · rintro ⟨r, hr, hdelivered⟩
              obtain rfl := Except.ok.inj hr
              exact hdelivered rfl
            · rintro ⟨_, _, hsender, -, hpart⟩
              obtain rfl := Option.some.inj hsender
              exact hmem hpart

theorem FleetOk.acceptsMessage_swap {fleet : Fleet} (h : FleetOk fleet) {a b : Text}
    {lines lines' : List Text} (haccepts : fleet.AcceptsMessage a b lines) :
    fleet.AcceptsMessage b a lines' := by
  obtain ⟨sender, receiver, ha, hb, hmem⟩ := (acceptsMessage_iff fleet a b lines).mp haccepts
  obtain ⟨hsender, rfl⟩ := findCombat_some ha
  obtain ⟨hreceiver, rfl⟩ := findCombat_some hb
  apply (acceptsMessage_iff fleet _ _ lines').mpr
  exact ⟨receiver, sender, hb, ha, h.inv.symm sender receiver hsender hreceiver hmem⟩

/-- In every run of the menu from the empty fleet: a message is delivered only by `SendMessage`, between
    two different combat submarines that are on a mission and take part in each other's; behind the
    run either of two submarines may write to the other one or neither; and an inbox is what the run
    delivered to it, in order. -/
theorem fleet_messages (is : List FleetInput) :
    (∀ p ∈ runSteps fleetStep (.ok []) is, ∀ out receiverSerial message,
      (fleetStep p.1 p.2).2 = some out →
      out.report.delivered = some (receiverSerial, message) →
      p.2.op = .sendMessage ∧ ∃ fleet a b, p.1 = .ok fleet ∧ .combat a ∈ fleet ∧
        .combat b ∈ fleet ∧ a.serialNumber = message.senderSerialNumber ∧
        b.serialNumber = receiverSerial ∧ a.serialNumber ≠ b.serialNumber ∧
        a.assignedToMission = true ∧ b.assignedToMission = true ∧
        b.serialNumber ∈ a.participatingSubmarines ∧
        a.serialNumber ∈ b.participatingSubmarines) ∧
    (∀ fleet, runState fleetStep (.ok []) is = .ok fleet →
      (∀ a b lines lines', fleet.AcceptsMessage a b lines ↔ fleet.AcceptsMessage b a lines') ∧
      ∀ c, .combat c ∈ fleet →
        c.receivedMessages = messagesFor c.serialNumber (runOutputs fleetStep (.ok []) is)) := by
  constructor
  · intro p hp out receiverSerial message hout hdelivered
    have hstate := (fleetRun_ok is).2 p hp
    obtain ⟨s, i⟩ := p
    cases s with
    | error e => exact nomatch hout
    | ok fleet =>
        have hfleet := hstate.1 fleet rfl
        cases (fleetStep_effect hfleet i).effect out hout with
        | quiet _ hreport => exact nomatch hreport.symm.trans hdelivered
        | added _ _ _ _ hreport => exact nomatch hreport.symm.trans hdelivered
        | ended _ _ _ hreport => exact nomatch hreport.symm.trans hdelivered
        | associated _ _ _ _ _ _ _ _ hreport => exact nomatch hreport.symm.trans hdelivered
        | sent a b content hop ha hb hmem _ hreport =>
            obtain ⟨rfl, rfl⟩ := Prod.mk.inj (Option.some.inj (hreport.symm.trans hdelivered))
            have hback := hfleet.inv.symm a b ha hb hmem
            refine ⟨hop, fleet, a, b, rfl, ha, hb, rfl, rfl, ?_, hfleet.assigned ha hmem,
              hfleet.assigned hb hback, hmem, hback⟩
            intro hself
            rw [← hself] at hmem
            exact hfleet.inv.irrefl a ha hmem
  · intro fleet hrun
    obtain ⟨hfleet, hdelivered⟩ := (fleetRun_delivered is).1 fleet hrun
    constructor
    · intro a b lines lines'
      exact ⟨hfleet.acceptsMessage_swap, hfleet.acceptsMessage_swap⟩
    · intro c hc
      exact hdelivered.inbox _ hc

def idleWorld : FleetWorld where
  lncConnect := fun _ _ ↦ none
  arrivals := fun _ _ ↦ { arrived := 0, closed := false, payloadArrived := 0, storage := fun _ ↦ 0 }
  now := 0
  measurementsStack := fun _ ↦
    { valueBuf := fun _ ↦ 0, payload := fun _ ↦ 0, written := 0, message := fun _ ↦ 0
      messageLen := 0, storage := fun _ ↦ 0 }
  eventsStack := fun _ ↦
    { valueBuf := fun _ ↦ 0, payload := fun _ ↦ 0, written := 0, message := fun _ ↦ 0
      messageLen := 0, storage := fun _ ↦ 0 }

def jointMission : List FleetInput := [
  ⟨.addSubmarine, [['a'], ['x'], ['2']], idleWorld⟩,
  ⟨.addSubmarine, [['b'], ['y'], ['2']], idleWorld⟩,
  ⟨.assignMission, [['a'], ['m'], ['c'], ['4'], []], idleWorld⟩,
  ⟨.assignMission, [['b'], ['m'], ['d'], ['5'], []], idleWorld⟩,
  ⟨.associateCombatSubmarines, [['a'], ['b']], idleWorld⟩,
  ⟨.sendMessage, [['a'], ['b'], ['h', 'i']], idleWorld⟩,
  ⟨.endMission, [['b']], idleWorld⟩]

theorem fleet_messages_jointMission :
    ∃ fleet c, runState fleetStep (.ok []) jointMission = .ok fleet ∧ .combat c ∈ fleet ∧
      c.receivedMessages = [{ content := ['h', 'i'], senderSerialNumber := ['a'] }] ∧
      ∀ c, .combat c ∈ fleet → c.receivedMessages =
        messagesFor c.serialNumber (runOutputs fleetStep (.ok []) jointMission) :=
  ⟨_, _, rfl, List.mem_cons_of_mem _ List.mem_cons_self, rfl,
    ((fleet_messages jointMission).2 _ rfl).2⟩

end SubmarineMonitor
