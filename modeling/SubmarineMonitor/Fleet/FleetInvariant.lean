import SubmarineMonitor.Fleet.Fleet
import SubmarineMonitor.Reasoning.Outcomes

/-!
# FleetInvariant — what holds of a fleet behind any operations

`FleetEffect` says once what an operation can do to the fleet; every invariant is a case analysis over
it.  The symmetric participation lists are an instance of `Linked`.
-/

open Reasoning

namespace SubmarineMonitor

/-! ## 1. What a submarine keeps for itself -/

def Submarine.participants (sub : Submarine) : List Text :=
  (sub.combat?.map CombatSubmarine.participatingSubmarines).getD []

def Submarine.inbox (sub : Submarine) : List Message :=
  (sub.combat?.map CombatSubmarine.receivedMessages).getD []

def Submarine.OnCombatMission : Submarine → Prop
  | .research _ => False
  | .combat c => c.assignedToMission = true

def Submarine.MissionEmpty : Submarine → Prop
  | .research r => r.researchTopic = [] ∧ r.researchers = []
  | .combat c =>
      c.missionDescription = [] ∧ c.commanderName = [] ∧ c.personnelCount = 0 ∧
        c.participatingSubmarines = [] ∧ c.centralComputer.connected = false

structure CombatSubmarine.LinkOk (c : CombatSubmarine) : Prop where
  cached : c.centralComputer.haveLatest = true → c.centralComputer.connected = true
  connected : c.centralComputer.connected = true → c.assignedToMission = true

structure Submarine.WellFormed (sub : Submarine) : Prop where
  unassigned : sub.isAssignedToMission = false → sub.MissionEmpty
  link : ∀ c, sub = .combat c → c.LinkOk

structure Quiet (x y : Submarine) : Prop where
  serialNumber : y.serialNumber = x.serialNumber
  participants : y.participants = x.participants
  inbox : y.inbox = x.inbox
  live : x.OnCombatMission → y.OnCombatMission
  wellFormed : x.WellFormed → y.WellFormed

theorem Quiet.refl (x : Submarine) : Quiet x x := ⟨rfl, rfl, rfl, id, id⟩

structure FleetOk (fleet : Fleet) : Prop where
  linked : Linked Submarine.serialNumber Submarine.participants Submarine.OnCombatMission fleet
  each : ∀ sub ∈ fleet, sub.WellFormed

/-! ## 2. The effect of an operation -/

def FleetReport.delivered : FleetReport → Option (Text × Message)
  | .messageSent receiverSerial message => some (receiverSerial, message)
  | _ => none

inductive Submarine.IsNew : Submarine → Prop
  | research (serialNumber name : Text) : IsNew (.research { serialNumber, name })
  | combat (serialNumber name : Text) : IsNew (.combat { serialNumber, name })

def endMissionOf (serial : Text) (x : Submarine) : Submarine :=
  if x.serialNumber = serial then x.endMission else x.onCombat (·.removeParticipant serial)

def associateOf (serialA serialB : Text) (x : Submarine) : Submarine :=
  if x.serialNumber = serialA then x.onCombat (·.addParticipant serialB)
  else if x.serialNumber = serialB then x.onCombat (·.addParticipant serialA)
  else x

def receiveOf (receiverSerial : Text) (message : Message) (x : Submarine) : Submarine :=
  if x.serialNumber = receiverSerial then
    x.onCombat (·.receiveMessage message.senderSerialNumber message.content)
  else x

inductive FleetEffect (fleet : Fleet) (op : FleetOp) (out : FleetOut) : Prop
  | quiet (hfleet : List.Forall₂ Quiet fleet out.fleet) (hreport : out.report.delivered = none)
  | added (sub : Submarine) (hnew : sub.IsNew)
      (hfresh : ∀ y ∈ fleet, y.serialNumber ≠ sub.serialNumber)
      (hfleet : out.fleet = fleet ++ [sub]) (hreport : out.report.delivered = none)
  | ended (sub : Submarine) (hmem : sub ∈ fleet)
      (hfleet : out.fleet = fleet.map (endMissionOf sub.serialNumber))
      (hreport : out.report.delivered = none)
  | associated (a b : CombatSubmarine) (ha : .combat a ∈ fleet) (hb : .combat b ∈ fleet)
      (hne : a.serialNumber ≠ b.serialNumber)
      (haLive : a.assignedToMission = true) (hbLive : b.assignedToMission = true)
      (hfleet : out.fleet = fleet.map (associateOf a.serialNumber b.serialNumber))
      (hreport : out.report.delivered = none)
  | sent (a b : CombatSubmarine) (content : Text) (hop : op = .sendMessage)
      (ha : .combat a ∈ fleet) (hb : .combat b ∈ fleet)
      (hparticipant : b.serialNumber ∈ a.participatingSubmarines)
      (hfleet : out.fleet = fleet.map
        (receiveOf b.serialNumber { content, senderSerialNumber := a.serialNumber }))
      (hreport : out.report.delivered =
        some (b.serialNumber, { content, senderSerialNumber := a.serialNumber }))

theorem FleetEffect.unchanged {fleet : Fleet} {op : FleetOp} {out : FleetOut}
    (hfleet : out.fleet = fleet) (hreport : out.report.delivered = none) :
    FleetEffect fleet op out := by
  apply FleetEffect.quiet _ hreport
  rw [hfleet]
  exact List.forall₂_same.mpr fun x _ ↦ Quiet.refl x

/-! ## 3. Every effect keeps the invariant -/

theorem onCombat_serialNumber {f : CombatSubmarine → CombatSubmarine}
    (hf : ∀ c, (f c).serialNumber = c.serialNumber) (x : Submarine) :
    (x.onCombat f).serialNumber = x.serialNumber := by
  cases x with
  | research r => rfl
  | combat c => exact hf c

theorem addParticipant_frame (c : CombatSubmarine) (k : Text) :
    ∃ serials, c.addParticipant k = { c with participatingSubmarines := serials } := by
  unfold CombatSubmarine.addParticipant
  by_cases hself : k = c.serialNumber
  · rw [if_pos hself]
    exact ⟨c.participatingSubmarines, rfl⟩
  · rw [if_neg hself]
    by_cases hhas : c.hasParticipant k
    · rw [if_pos hhas]
      exact ⟨c.participatingSubmarines, rfl⟩
    · rw [if_neg hhas]
      exact ⟨_, rfl⟩

@[simp] theorem addParticipant_serialNumber (c : CombatSubmarine) (k : Text) :
    (c.addParticipant k).serialNumber = c.serialNumber := by
  obtain ⟨serials, hframe⟩ := addParticipant_frame c k
  rw [hframe]

theorem addParticipant_of_ne {c : CombatSubmarine} {k : Text} (h : k ≠ c.serialNumber) :
    c.addParticipant k =
      { c with participatingSubmarines := appendNew k c.participatingSubmarines } := by
  unfold CombatSubmarine.addParticipant CombatSubmarine.hasParticipant appendNew
  rw [if_neg h]
  simp only [List.contains_iff_mem]
  by_cases hmem : k ∈ c.participatingSubmarines
  · rw [if_pos hmem, if_pos hmem]
  · rw [if_neg hmem, if_neg hmem]

@[simp] theorem endMission_serialNumber (x : Submarine) :
    x.endMission.serialNumber = x.serialNumber := by
  cases x with
  | research r => rfl
  | combat c => rfl

@[simp] theorem endMissionOf_serialNumber (serial : Text) (x : Submarine) :
    (endMissionOf serial x).serialNumber = x.serialNumber := by
  unfold endMissionOf
  by_cases h : x.serialNumber = serial
  · rw [if_pos h, endMission_serialNumber]
  · rw [if_neg h]
    apply onCombat_serialNumber
    exact fun c ↦ rfl

@[simp] theorem associateOf_serialNumber (serialA serialB : Text) (x : Submarine) :
    (associateOf serialA serialB x).serialNumber = x.serialNumber := by
  unfold associateOf
  by_cases ha : x.serialNumber = serialA
  · rw [if_pos ha]
    exact onCombat_serialNumber (fun c ↦ addParticipant_serialNumber c serialB) x
  · rw [if_neg ha]
    by_cases hb : x.serialNumber = serialB
    · rw [if_pos hb]
      exact onCombat_serialNumber (fun c ↦ addParticipant_serialNumber c serialA) x
    · rw [if_neg hb]

theorem wellFormed_endMission {x : Submarine} : x.endMission.WellFormed := by
  cases x with
  | research r => exact ⟨fun _ ↦ ⟨rfl, rfl⟩, fun c h ↦ nomatch h⟩
  | combat c =>
      refine ⟨fun _ ↦ ⟨rfl, rfl, rfl, rfl, rfl⟩, fun d hd ↦ ?_⟩
      obtain rfl := Submarine.combat.inj hd
      exact ⟨fun h ↦ absurd h Bool.false_ne_true, fun h ↦ absurd h Bool.false_ne_true⟩

theorem wellFormed_removeParticipant {x : Submarine} (h : x.WellFormed) (k : Text) :
    (x.onCombat (·.removeParticipant k)).WellFormed := by
  cases x with
  | research r => exact h
  | combat c =>
      constructor
      · intro hun
        obtain ⟨hdesc, hcommander, hcount, hparts, hconn⟩ := h.unassigned hun
        refine ⟨hdesc, hcommander, hcount, ?_, hconn⟩
        show c.participatingSubmarines.filter (· ≠ k) = []
        rw [hparts, List.filter_nil]
      · intro d hd
        obtain rfl := Submarine.combat.inj hd
        exact ⟨(h.link c rfl).cached, (h.link c rfl).connected⟩

theorem wellFormed_addParticipant {c : CombatSubmarine} (h : (Submarine.combat c).WellFormed)
    {k : Text} (hne : k ≠ c.serialNumber) (hassigned : c.assignedToMission = true) :
    (Submarine.combat (c.addParticipant k)).WellFormed := by
  rw [addParticipant_of_ne hne]
  constructor
  · intro hun
    exact absurd (hassigned.symm.trans hun) (by decide)
  · intro d hd
    obtain rfl := Submarine.combat.inj hd
    exact ⟨(h.link c rfl).cached, (h.link c rfl).connected⟩

/-- Receiving a message is quiet but for the inbox. -/
theorem receiveOf_frame (serial : Text) (message : Message) (x : Submarine) :
    (receiveOf serial message x).serialNumber = x.serialNumber ∧
      (receiveOf serial message x).participants = x.participants ∧
      (x.OnCombatMission → (receiveOf serial message x).OnCombatMission) ∧
      (x.WellFormed → (receiveOf serial message x).WellFormed) := by
  unfold receiveOf
  by_cases hx : x.serialNumber = serial
  · rw [if_pos hx]
    cases x with
    | research r => exact ⟨rfl, rfl, id, id⟩
    | combat c =>
        refine ⟨rfl, rfl, id, fun h ↦ ⟨h.unassigned, fun d hd ↦ ?_⟩⟩
        obtain rfl := Submarine.combat.inj hd
        exact ⟨(h.link c rfl).cached, (h.link c rfl).connected⟩
  · rw [if_neg hx]
    exact ⟨rfl, rfl, id, id⟩

theorem Submarine.IsNew.fresh {sub : Submarine} (h : sub.IsNew) :
    sub.participants = [] ∧ sub.inbox = [] ∧ sub.WellFormed := by
  cases h with
  | research serialNumber name =>
      exact ⟨rfl, rfl, fun _ ↦ ⟨rfl, rfl⟩, fun c hc ↦ nomatch hc⟩
  | combat serialNumber name =>
      refine ⟨rfl, rfl, fun _ ↦ ⟨rfl, rfl, rfl, rfl, rfl⟩, fun c hc ↦ ?_⟩
      obtain rfl := Submarine.combat.inj hc
      exact ⟨fun h ↦ absurd h Bool.false_ne_true, fun h ↦ absurd h Bool.false_ne_true⟩

theorem FleetOk.unique {fleet : Fleet} (h : FleetOk fleet) {x y : Submarine} (hx : x ∈ fleet)
    (hy : y ∈ fleet) (hxy : x.serialNumber = y.serialNumber) : x = y :=
  List.inj_on_of_nodup_map h.linked.keys hx hy hxy

theorem fleetOk_ended {fleet : Fleet} (h : FleetOk fleet) {sub : Submarine} (hmem : sub ∈ fleet) :
    FleetOk (fleet.map (endMissionOf sub.serialNumber)) := by
  constructor
  · apply h.linked.isolate hmem
    · exact fun x _ ↦ endMissionOf_serialNumber sub.serialNumber x
    · intro x hx hne hlive
      rw [endMissionOf, if_neg hne]
      cases x with
      | research r => exact hlive
      | combat c => exact hlive
    · rw [endMissionOf, if_pos rfl]
      cases sub with
      | research r => rfl
      | combat c => rfl
    · intro x hx hne
      rw [endMissionOf, if_neg hne]
      cases x with
      | research r => rfl
      | combat c => rfl
  · rw [List.forall_mem_map]
    intro x hx
    unfold endMissionOf
    by_cases hs : x.serialNumber = sub.serialNumber
    · rw [if_pos hs]
      exact wellFormed_endMission
    · rw [if_neg hs]
      exact wellFormed_removeParticipant (h.each x hx) _

theorem fleetOk_associated {fleet : Fleet} (h : FleetOk fleet) {a b : CombatSubmarine}
    (ha : .combat a ∈ fleet) (hb : .combat b ∈ fleet) (hne : a.serialNumber ≠ b.serialNumber)
    (haLive : a.assignedToMission = true) (hbLive : b.assignedToMission = true) :
    FleetOk (fleet.map (associateOf a.serialNumber b.serialNumber)) := by
  have hfa : associateOf a.serialNumber b.serialNumber (.combat a) =
      .combat (a.addParticipant b.serialNumber) := if_pos rfl
  have hfb : associateOf a.serialNumber b.serialNumber (.combat b) =
      .combat (b.addParticipant a.serialNumber) := (if_neg hne.symm).trans (if_pos rfl)
  have hother : ∀ x, x.serialNumber ≠ a.serialNumber → x.serialNumber ≠ b.serialNumber →
      associateOf a.serialNumber b.serialNumber x = x :=
    fun x hxa hxb ↦ (if_neg hxa).trans (if_neg hxb)
  -- only the two combat submarines change
  have hcases : ∀ x ∈ fleet, x = .combat a ∨ x = .combat b ∨
      associateOf a.serialNumber b.serialNumber x = x := by
    intro x hx
    by_cases hxa : x.serialNumber = a.serialNumber
    · exact .inl (h.unique hx ha hxa)
    · by_cases hxb : x.serialNumber = b.serialNumber
      · exact .inr (.inl (h.unique hx hb hxb))
      · exact .inr (.inr (hother x hxa hxb))
  constructor
  · apply h.linked.connect ha hb hne haLive hbLive
    · exact fun x _ ↦ associateOf_serialNumber a.serialNumber b.serialNumber x
    · intro x hx hlive
      rcases hcases x hx with rfl | rfl | hsame
      · rw [hfa, addParticipant_of_ne hne.symm]
        exact haLive
      · rw [hfb, addParticipant_of_ne hne]
        exact hbLive
      · rw [hsame]
        exact hlive
    · rw [hfa, addParticipant_of_ne hne.symm]
      rfl
    · rw [hfb, addParticipant_of_ne hne]
      rfl
    · intro x hx hxa hxb
      rw [hother x hxa hxb]
  · rw [List.forall_mem_map]
    intro x hx
    rcases hcases x hx with rfl | rfl | hsame
    · rw [hfa]
      exact wellFormed_addParticipant (h.each _ ha) hne.symm haLive
    · rw [hfb]
      exact wellFormed_addParticipant (h.each _ hb) hne hbLive
    · rw [hsame]
      exact h.each x hx

theorem fleetOk_effect {fleet : Fleet} {op : FleetOp} {out : FleetOut} (h : FleetOk fleet)
    (heffect : FleetEffect fleet op out) : FleetOk out.fleet := by
  cases heffect with
  | quiet hfleet hreport =>
      constructor
      · apply h.linked.frame
        exact hfleet.imp fun x y hxy ↦ ⟨hxy.serialNumber, hxy.participants, hxy.live⟩
      · intro y hy
        obtain ⟨x, hx, hxy⟩ := forall₂_mem_right hfleet hy
        exact hxy.wellFormed (h.each x hx)
  | added sub hnew hfresh hfleet hreport =>
      rw [hfleet]
      constructor
      · exact h.linked.append hfresh hnew.fresh.1
      · rw [List.forall_mem_append, List.forall_mem_singleton]
        exact ⟨h.each, hnew.fresh.2.2⟩
  | ended sub hmem hfleet hreport =>
      rw [hfleet]
      exact fleetOk_ended h hmem
  | associated a b ha hb hne haLive hbLive hfleet hreport =>
      rw [hfleet]
      exact fleetOk_associated h ha hb hne haLive hbLive
  | sent a b content hop ha hb hparticipant hfleet hreport =>
      rw [hfleet]
      constructor
      · apply h.linked.frame
        rw [List.forall₂_map_right_iff, List.forall₂_same]
        intro x hx
        obtain ⟨hserial, hparts, hlive, -⟩ := receiveOf_frame b.serialNumber
          { content, senderSerialNumber := a.serialNumber } x
        exact ⟨hserial, hparts, hlive⟩
      · rw [List.forall_mem_map]
        intro x hx
        exact (receiveOf_frame b.serialNumber _ x).2.2.2 (h.each x hx)

end SubmarineMonitor
