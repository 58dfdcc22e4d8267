import SubmarineMonitor.Fleet.CutConnections
import SubmarineMonitor.Fleet.FleetRuns

/-!
# FleetTelemetry — under which submarine the telemetry of a fleet is stored

Each `AssignMission` may connect a submarine to another bridge, each display polls the connections that
are live, and a query meets telemetry too.  In every run of the menu, what is stored under a serial
number are the messages of that submarine's connections, of each one some from its front on, in order,
each once (`fleet_telemetry`).
-/

open Reasoning

namespace SubmarineMonitor

/-! ## 1. Definitions -/

/-- Bridges send messages of the link, connections drop behind any byte, and no poll finds a part of a
    length. -/
structure FleetWorld.Bridged (world : FleetWorld) : Prop where
  sends : ∀ host port stream, world.lncConnect host port = some stream →
    ∃ msgs, (∀ m ∈ msgs, Incoming 256 m) ∧ stream <+: encodeAll tcpMessage msgs
  whole : ∀ serial n, (world.arrivals serial n).Whole

def missionAddress : Prompt (Text × UInt16) := do
  let _missionDescription ← promptLine
  let _commanderName ← promptLine
  let _personnelCount ← promptInt
  let host ← promptLine
  let port ← promptInt
  return (host, UInt16.ofInt port)

def BridgeAt (lncConnect : Text → UInt16 → Option Bytes) (lines : List Text) (stream : Bytes) : Prop :=
  ∃ host port rest, missionAddress lines = .ok ((host, port), rest) ∧ host ≠ [] ∧
    lncConnect host port = some stream

structure FleetInput.Connects (i : FleetInput) (serial : Text) (stream : Bytes) : Prop where
  op : i.op = .assignMission
  line : i.lines.headD [] = serial
  bridge : BridgeAt i.world.lncConnect i.lines.tail stream

def filedUnder (serial : Text) (stores : List (Text × DcaStore)) : List DcaStore :=
  (stores.filter fun s ↦ s.1 = serial).map (·.2)

def fleetStores (outs : List (Option FleetOut)) : List (Text × DcaStore) :=
  outs.flatMap fun out ↦ out.toList.flatMap FleetOut.stores

def Submarine.openLink : Submarine → Option LncLink
  | .research _ => none
  | .combat c => c.centralComputer.openLink

def Fleet.openLink (fleet : Fleet) (serial : Text) : Option LncLink :=
  (fleet.findBySerial serial).bind Submarine.openLink

def Submarine.Named (sub : Submarine) : Prop :=
  ∀ c, sub = .combat c → c.centralComputer.connected = true → c.submarineId = c.serialNumber

/-- What is stored comes off the link, which is there, or closed, behind it. -/
structure Reads (before after : Option LncLink) (stores : List DcaStore) : Prop where
  closed : before = none → after = none ∧ stores = []
  files : ∀ link ∈ before, ∀ msgs, link.Carries msgs → StoresFront msgs after stores

/-- What an operation does to the link of one submarine: it opens a new one, or reads. -/
def LinkStep (opens : Bytes → Prop) (before after : Option LncLink) (stores : List DcaStore) : Prop :=
  (stores = [] ∧ ∃ stream, opens stream ∧ after = some { incoming := stream, taken := 0 }) ∨
    Reads before after stores

structure LinksStep (fleet : Fleet) (i : FleetInput) (out : FleetOut) : Prop where
  named : ∀ sub ∈ out.fleet, sub.Named
  links : ∀ serial, LinkStep (i.Connects serial) (fleet.openLink serial) (out.fleet.openLink serial)
    (filedUnder serial out.stores)

/-! ## 2. Links -/

theorem filedUnder_append (serial : Text) (stores more : List (Text × DcaStore)) :
    filedUnder serial (stores ++ more) = filedUnder serial stores ++ filedUnder serial more := by
  rw [filedUnder, List.filter_append, List.map_append]
  rfl

/-- Calls for one submarine are stored under its serial number and under no other one. -/
theorem filedUnder_own (serial own : Text) (stores : List DcaStore) :
    filedUnder serial (stores.map fun s ↦ (own, s)) = if own = serial then stores else [] := by
  rw [filedUnder, List.filter_map, List.map_map]
  by_cases hown : own = serial
  · rw [if_pos hown]
    simp [Function.comp_def, hown]
  · rw [if_neg hown]
    simp [Function.comp_def, hown]

theorem reads_refl (link : Option LncLink) : Reads link link [] where
  closed h := ⟨h, rfl⟩
  files open_ hopen msgs h := storesFront_nothing fun left hleft ↦ by
    cases Option.mem_unique hopen hleft
    exact h

theorem reads_closed (before : Option LncLink) : Reads before none [] where
  closed _ := ⟨rfl, rfl⟩
  files _ _ _ _ := storesFront_nothing fun _ hleft ↦ absurd hleft (Option.not_mem_none _)

theorem named_closed {sub : Submarine} (h : sub.openLink = none) : sub.Named := by
  intro c hc hconnected
  rw [hc, Submarine.openLink, CentralComputer.openLink, if_pos hconnected] at h
  cases h

theorem openLink_cons (sub : Submarine) (subs : Fleet) (serial : Text) :
    Fleet.openLink (sub :: subs) serial =
      if sub.serialNumber = serial then sub.openLink else Fleet.openLink subs serial := by
  rw [Fleet.openLink, Fleet.findBySerial, findKey_cons]
  by_cases hserial : sub.serialNumber = serial
  · rw [if_pos hserial, if_pos hserial]
    rfl
  · rw [if_neg hserial, if_neg hserial]
    rfl

theorem openLink_snoc {new : Submarine} (fleet : Fleet) (hnew : new.openLink = none) (serial : Text) :
    Fleet.openLink (fleet ++ [new]) serial = fleet.openLink serial := by
  induction fleet with
  | nil =>
      rw [List.nil_append, openLink_cons, hnew]
      exact ite_self _
  | cons x xs ih => rw [List.cons_append, openLink_cons, openLink_cons, ih]

theorem openLink_edit {fleet : Fleet} {serial : Text} {f : Submarine → Submarine} (other : Text)
    (hf : ∀ x, fleet.findBySerial serial = some x → (f x).serialNumber = serial) :
    (fleet.edit serial f).openLink other =
      if other = serial then ((fleet.findBySerial serial).map f).bind Submarine.openLink
      else fleet.openLink other := by
  rw [Fleet.openLink, Fleet.findBySerial, Fleet.edit, findKey_updateKey hf]
  by_cases hother : other = serial
  · rw [if_pos hother, if_pos hother]
    rfl
  · rw [if_neg hother, if_neg hother]
    rfl

/-! ## 3. Operations that leave the links alone -/

structure SameLinks (fleet fleet' : Fleet) : Prop where
  named : (∀ sub ∈ fleet, sub.Named) → ∀ sub ∈ fleet', sub.Named
  links : ∀ serial, fleet'.openLink serial = fleet.openLink serial

theorem SameLinks.refl (fleet : Fleet) : SameLinks fleet fleet := ⟨id, fun _ ↦ rfl⟩

theorem SameLinks.trans {fleet mid last : Fleet} (h : SameLinks fleet mid) (h' : SameLinks mid last) :
    SameLinks fleet last where
  named hnamed := h'.named (h.named hnamed)
  links serial := (h'.links serial).trans (h.links serial)

structure KeepsLink (f : CombatSubmarine → CombatSubmarine) : Prop where
  serialNumber : ∀ c, (f c).serialNumber = c.serialNumber
  centralComputer : ∀ c, (f c).centralComputer = c.centralComputer
  submarineId : ∀ c, (f c).submarineId = c.submarineId

theorem KeepsLink.openLink {f : CombatSubmarine → CombatSubmarine} (h : KeepsLink f) (x : Submarine) :
    (x.onCombat f).openLink = x.openLink := by
  cases x with
  | research r => rfl
  | combat c => exact congrArg CentralComputer.openLink (h.centralComputer c)

theorem KeepsLink.named {f : CombatSubmarine → CombatSubmarine} (h : KeepsLink f) {x : Submarine}
    (hx : x.Named) : (x.onCombat f).Named := by
  intro d hd hconnected
  cases x with
  | research r => cases hd
  | combat c =>
      cases hd
      rw [h.centralComputer] at hconnected
      rw [h.submarineId, h.serialNumber]
      exact hx c rfl hconnected

theorem KeepsLink.edit {f : CombatSubmarine → CombatSubmarine} (h : KeepsLink f) (fleet : Fleet)
    (serial : Text) : SameLinks fleet (fleet.edit serial (.onCombat f)) where
  named hnamed sub hsub := by
    rcases mem_updateKey hsub with hsub | ⟨x, hx, rfl⟩
    · exact hnamed sub hsub
    · exact h.named (hnamed x (findKey_some hx).1)
  links other := by
    have hkey : ∀ x, fleet.findBySerial serial = some x →
        (x.onCombat f).serialNumber = serial := fun x hx ↦
      (onCombat_serialNumber h.serialNumber x).trans (findKey_some hx).2
    rw [openLink_edit other hkey]
    by_cases hother : other = serial
    · rw [if_pos hother, hother, Fleet.openLink]
      cases fleet.findBySerial serial with
      | none => rfl
      | some x => exact h.openLink x
    · rw [if_neg hother]

theorem keepsLink_addParticipant (serial : Text) : KeepsLink (·.addParticipant serial) := by
  have hframe : ∀ c : CombatSubmarine, ∃ serials,
      c.addParticipant serial = { c with participatingSubmarines := serials } := fun c ↦
    addParticipant_frame c serial
  constructor
  all_goals
    intro c
    obtain ⟨serials, hserials⟩ := hframe c
    rw [hserials]

theorem keepsLink_removeParticipant (serial : Text) : KeepsLink (·.removeParticipant serial) :=
  ⟨fun _ ↦ rfl, fun _ ↦ rfl, fun _ ↦ rfl⟩

theorem keepsLink_receiveMessage (sender content : Text) :
    KeepsLink (·.receiveMessage sender content) :=
  ⟨fun _ ↦ rfl, fun _ ↦ rfl, fun _ ↦ rfl⟩

theorem unlinkLoop_links (own : Text) (participants : List Text) (fleet : Fleet) :
    Gives (unlinkLoop own participants fleet) (SameLinks fleet) fun _ ↦ True := by
  induction participants generalizing fleet with
  | nil => exact gives_ok (.refl fleet)
  | cons serial rest ih =>
      apply gives_ite
      · intro _
        exact gives_error trivial
      · intro _
        have hedit := (keepsLink_removeParticipant own).edit fleet serial
        exact ⟨fun last hlast ↦ hedit.trans ((ih _).1 last hlast), fun _ _ ↦ trivial⟩

section Operations

variable {fleet : Fleet} {i : FleetInput} {serial : Text} {sub : Submarine}

theorem SameLinks.step {out : FleetOut} (h : SameLinks fleet out.fleet)
    (hnamed : ∀ sub ∈ fleet, sub.Named) (hstores : out.stores = []) : LinksStep fleet i out where
  named := h.named hnamed
  links serial := by
    rw [h.links serial, hstores]
    exact .inr (reads_refl _)

theorem LinksStep.same (hnamed : ∀ sub ∈ fleet, sub.Named) (report : FleetReport) :
    LinksStep fleet i { fleet, report } :=
  (SameLinks.refl fleet).step hnamed rfl

/-- An operation on one submarine, which is named and moves its own link. -/
theorem LinksStep.one (hnamed : ∀ sub ∈ fleet, sub.Named)
    (hfind : fleet.findBySerial serial = some sub) {f : Submarine → Submarine}
    (hserial : (f sub).serialNumber = serial) (hsub : (f sub).Named) {stores : List DcaStore}
    (hlink : LinkStep (i.Connects serial) sub.openLink (f sub).openLink stores)
    (report : FleetReport) (returned : Bool) :
    LinksStep fleet i
      { fleet := fleet.edit serial f, report, stores := stores.map fun s ↦ (serial, s), returned } where
  named x hx := by
    rcases mem_updateKey hx with hx | ⟨y, hy, rfl⟩
    · exact hnamed x hx
    · rw [Option.some.inj (hy.symm.trans hfind)]
      exact hsub
  links other := by
    have hkey : ∀ x, fleet.findBySerial serial = some x → (f x).serialNumber = serial := fun x hx ↦ by
      rw [Option.some.inj (hx.symm.trans hfind)]
      exact hserial
    rw [openLink_edit other hkey, filedUnder_own]
    by_cases hother : other = serial
    · rw [if_pos hother, hother, if_pos rfl, Fleet.openLink, hfind]
      exact hlink
    · rw [if_neg hother, if_neg (Ne.symm hother)]
      exact .inr (reads_refl _)

theorem addSubmarine_links (hnamed : ∀ sub ∈ fleet, sub.Named) :
    Meets fleet.addSubmarine (LinksStep fleet i) fun _ ↦ True := by
  -- a new submarine has no link
  have hadded : ∀ new : Submarine, new.openLink = none →
      LinksStep fleet i { fleet := fleet ++ [new], report := .added } := by
    intro new hnew
    refine { named := fun sub hsub ↦ ?_, links := fun serial ↦ ?_ }
    · rcases List.mem_append.mp hsub with hsub | hsub
      · exact hnamed sub hsub
      · rw [List.mem_singleton.mp hsub]
        exact named_closed hnew
    · rw [openLink_snoc fleet hnew]
      exact .inr (reads_refl _)
  unfold Fleet.addSubmarine
  apply meets_bind meets_promptLine
  intro serialNumber _
  apply meets_ite
  · intro _
    exact meets_pure (.same hnamed _)
  · intro _
    apply meets_bind meets_promptLine
    intro name _
    apply meets_bind meets_promptInt.anyError
    intro type _
    apply meets_ite
    · intro _
      exact meets_pure (hadded _ rfl)
    · intro _
      apply meets_ite
      · intro _
        exact meets_pure (hadded _ rfl)
      · intro _
        exact meets_pure (.same hnamed _)

theorem associateCombatSubmarines_links (hnamed : ∀ sub ∈ fleet, sub.Named) :
    Meets fleet.associateCombatSubmarines (LinksStep fleet i) fun _ ↦ True := by
  unfold Fleet.associateCombatSubmarines
  apply meets_bind meets_promptLine
  intro serialA _
  cases fleet.findCombat serialA with
  | none => exact meets_pure (.same hnamed _)
  | some a =>
      apply meets_ite
      · intro _
        exact meets_pure (.same hnamed _)
      · intro _
        apply meets_bind meets_promptLine
        intro serialB _
        cases fleet.findCombat serialB with
        | none => exact meets_pure (.same hnamed _)
        | some b =>
            apply meets_ite
            · intro _
              exact meets_pure (.same hnamed _)
            · intro _
              apply meets_pure
              exact (((keepsLink_addParticipant b.serialNumber).edit fleet serialA).trans
                ((keepsLink_addParticipant a.serialNumber).edit _ serialB)).step hnamed rfl

theorem sendMessage_links (hnamed : ∀ sub ∈ fleet, sub.Named) :
    Meets fleet.sendMessage (LinksStep fleet i) fun _ ↦ True := by
  unfold Fleet.sendMessage
  apply meets_bind meets_promptLine
  intro senderSerial _
  cases fleet.findCombat senderSerial with
  | none => exact meets_pure (.same hnamed _)
  | some sender =>
      apply meets_bind meets_promptLine
      intro receiverSerial _
      cases fleet.findCombat receiverSerial with
      | none => exact meets_pure (.same hnamed _)
      | some receiver =>
          apply meets_ite
          · intro _
            exact meets_pure (.same hnamed _)
          · intro _
            apply meets_bind meets_promptLine
            intro content _
            apply meets_pure
            exact ((keepsLink_receiveMessage sender.serialNumber content).edit fleet
              receiverSerial).step hnamed rfl

theorem displayReceivedMessages_links (hnamed : ∀ sub ∈ fleet, sub.Named) :
    Meets fleet.displayReceivedMessages (LinksStep fleet i) fun _ ↦ True := by
  unfold Fleet.displayReceivedMessages
  apply meets_bind meets_promptLine
  intro serial _
  cases fleet.findCombat serial with
  | none => exact meets_pure (.same hnamed _)
  | some c =>
      apply meets_ite
      · intro _
        exact meets_pure (.same hnamed _)
      · intro _
        exact meets_pure (.same hnamed _)

structure KeepsSub (sub after : Submarine) : Prop where
  serialNumber : after.serialNumber = sub.serialNumber
  openLink : after.openLink = sub.openLink
  named : sub.Named → after.Named

theorem keepsSub_combat {c d : CombatSubmarine} (hserial : d.serialNumber = c.serialNumber)
    (hcc : d.centralComputer = c.centralComputer) (hid : d.submarineId = c.submarineId) :
    KeepsSub (.combat c) (.combat d) where
  serialNumber := hserial
  openLink := congrArg CentralComputer.openLink hcc
  named hnamed e he hconnected := by
    cases he
    rw [hcc] at hconnected
    rw [hid, hserial]
    exact hnamed c rfl hconnected

theorem keepsSub_research {r s : ResearchSubmarine} (hserial : s.serialNumber = r.serialNumber) :
    KeepsSub (.research r) (.research s) where
  serialNumber := hserial
  openLink := rfl
  named _ := named_closed rfl

theorem updateMissionDetails_research_keeps (r : ResearchSubmarine) :
    Meets r.updateMissionDetails (fun s ↦ s.serialNumber = r.serialNumber) fun _ ↦ True := by
  unfold ResearchSubmarine.updateMissionDetails
  apply meets_bind meets_promptLine
  intro topic _
  apply meets_bind meets_promptLine
  intro answer _
  have hserial : (if topic ≠ [] then { r with researchTopic := topic } else r).serialNumber =
      r.serialNumber := by
    split_ifs <;> rfl
  apply meets_ite
  · intro _
    apply (meets_addResearchers _).mono
    rintro s ⟨names, rfl⟩
    exact hserial
  · intro _
    exact meets_pure hserial

theorem updateMissionDetails_combat_keeps (c : CombatSubmarine) :
    Meets c.updateMissionDetails (fun d ↦ KeepsSub (.combat c) (.combat d)) fun _ ↦ True := by
  unfold CombatSubmarine.updateMissionDetails
  apply meets_bind meets_promptLine
  intro missionDescription _
  apply meets_bind meets_promptLine
  intro commanderName _
  apply meets_bind meets_promptLine
  intro personnelCount _
  cases stoi personnelCount with
  | some count =>
      apply meets_pure
      apply keepsSub_combat <;> split_ifs <;> rfl
  | none =>
      apply meets_pure
      apply keepsSub_combat <;> split_ifs <;> rfl

theorem updateMissionDetails_keeps (sub : Submarine) :
    Meets sub.updateMissionDetails (KeepsSub sub) fun _ ↦ True := by
  cases sub with
  | research r =>
      apply meets_bind (updateMissionDetails_research_keeps r)
      intro s hs
      exact meets_pure (keepsSub_research hs)
  | combat c =>
      apply meets_bind (updateMissionDetails_combat_keeps c)
      intro d hd
      exact meets_pure hd

theorem updateMissionDetails_links (hnamed : ∀ sub ∈ fleet, sub.Named) :
    Meets fleet.updateMissionDetails (LinksStep fleet i) fun _ ↦ True := by
  unfold Fleet.updateMissionDetails
  apply meets_bind meets_promptLine
  intro serial _
  cases hfind : fleet.findBySerial serial with
  | none => exact meets_pure (.same hnamed _)
  | some sub =>
      obtain ⟨hmem, hserial⟩ := findKey_some hfind
      apply meets_ite
      · intro _
        exact meets_pure (.same hnamed _)
      · intro _
        apply meets_bind (updateMissionDetails_keeps sub)
        intro after hafter
        apply meets_pure
        have hlink : LinkStep (i.Connects serial) sub.openLink after.openLink [] := by
          rw [hafter.openLink]
          exact .inr (reads_refl _)
        exact @LinksStep.one _ _ _ _ hnamed hfind (fun _ ↦ after) (hafter.serialNumber.trans hserial)
          (hafter.named (hnamed sub hmem)) [] hlink .updated true

theorem endMission_links (hnamed : ∀ sub ∈ fleet, sub.Named) :
    Meets fleet.endMission (LinksStep fleet i) fun _ ↦ True := by
  unfold Fleet.endMission
  apply meets_bind meets_promptLine
  intro serial _
  cases hfind : fleet.findBySerial serial with
  | none => exact meets_pure (.same hnamed _)
  | some sub =>
      apply meets_ite
      · intro _
        exact meets_pure (.same hnamed _)
      · intro _
        apply meets_bind (meets_lift (unlinkLoop_links _ _ fleet))
        intro unlinked hunlinked
        apply meets_pure
        have hclosed : ∀ x : Submarine, x.endMission.openLink = none := by
          intro x
          cases x with
          | research r => rfl
          | combat c => rfl
        refine { named := fun x hx ↦ ?_, links := fun other ↦ ?_ }
        · rcases mem_updateKey hx with hx | ⟨y, -, rfl⟩
          · exact hunlinked.named hnamed x hx
          · exact named_closed (hclosed y)
        · have hkey : ∀ x, unlinked.findBySerial serial = some x →
              x.endMission.serialNumber = serial := fun x hx ↦
            (endMission_serialNumber x).trans (findKey_some hx).2
          rw [openLink_edit other hkey, hunlinked.links other]
          by_cases hother : other = serial
          · have hnone : ((unlinked.findBySerial serial).map Submarine.endMission).bind
                Submarine.openLink = none := by
              cases unlinked.findBySerial serial with
              | none => rfl
              | some x => exact hclosed x
            rw [if_pos hother, hnone]
            exact .inr (reads_closed _)
          · rw [if_neg hother]
            exact .inr (reads_refl _)

/-! ## 4. Operations on the links -/

structure Assigned (opens : Bytes → Prop) (sub after : Submarine) : Prop where
  serialNumber : after.serialNumber = sub.serialNumber
  named : sub.Named → after.Named
  link : LinkStep opens sub.openLink after.openLink []

theorem KeepsSub.assigned {after : Submarine} (opens : Bytes → Prop) (h : KeepsSub sub after) :
    Assigned opens sub after where
  serialNumber := h.serialNumber
  named := h.named
  link := by
    rw [h.openLink]
    exact .inr (reads_refl _)

theorem assignMission_research_keeps (r : ResearchSubmarine) :
    Meets r.assignMission (fun s ↦ s.serialNumber = r.serialNumber) fun _ ↦ True := by
  unfold ResearchSubmarine.assignMission
  apply meets_bind meets_promptLine
  intro topic _
  apply meets_bind (meets_addResearchers _)
  rintro s ⟨names, rfl⟩
  exact meets_pure rfl

theorem assignMission_combat_links (c : CombatSubmarine)
    (lncConnect : Text → UInt16 → Option Bytes) (lines : List Text) :
    Gives (c.assignMission lncConnect lines)
      (fun r ↦ Assigned (BridgeAt lncConnect lines) (.combat c) (.combat r.1)) fun _ ↦ True := by
  unfold CombatSubmarine.assignMission
  apply gives_run_bind
  intro missionDescription afterDescription hdescription
  apply gives_run_bind
  intro commanderName afterCommander hcommander
  apply gives_run_bind
  intro personnelCount afterCount hcount
  apply gives_run_bind
  intro host afterHost hhost
  by_cases hskip : host = []
  · rw [if_pos hskip]
    apply gives_ok
    apply KeepsSub.assigned
    exact keepsSub_combat rfl rfl rfl
  · rw [if_neg hskip]
    apply gives_run_bind
    intro port rest hport
    apply gives_ok
    have haddress : missionAddress lines = .ok ((host, UInt16.ofInt port), rest) := by
      rw [missionAddress, run_bind hdescription, run_bind hcommander, run_bind hcount, run_bind hhost,
        run_bind hport]
      rfl
    cases hconnect : lncConnect host (UInt16.ofInt port) with
    | none =>
        exact { serialNumber := rfl, named := fun _ ↦ named_closed rfl
                link := .inr (reads_closed _) }
    | some stream =>
        refine { serialNumber := rfl, named := fun _ d hd _ ↦ ?_
                 link := .inl ⟨rfl, stream, ⟨host, _, rest, haddress, hskip, hconnect⟩, rfl⟩ }
        cases hd
        rfl

theorem assignMission_submarine (sub : Submarine) (lncConnect : Text → UInt16 → Option Bytes)
    (lines : List Text) :
    Gives (sub.assignMission lncConnect lines)
      (fun r ↦ Assigned (BridgeAt lncConnect lines) sub r.1) fun _ ↦ True := by
  cases sub with
  | research r =>
      apply gives_run_bind
      intro s rest hs
      exact gives_ok ((keepsSub_research ((assignMission_research_keeps r lines).1 _ hs)).assigned _)
  | combat c =>
      apply gives_run_bind
      intro d rest hd
      exact gives_ok ((assignMission_combat_links c lncConnect lines).1 _ hd)

theorem assignMission_links (hnamed : ∀ sub ∈ fleet, sub.Named) (hop : i.op = .assignMission) :
    Gives (fleet.assignMission i.world i.lines) (fun r ↦ LinksStep fleet i r.1) fun _ ↦ True := by
  unfold Fleet.assignMission
  apply gives_run_bind
  rintro _ _ ⟨⟩
  cases hfind : fleet.findBySerial (i.lines.headD []) with
  | none => exact gives_ok (.same hnamed _)
  | some sub =>
      obtain ⟨hmem, hserial⟩ := findKey_some hfind
      by_cases hassigned : sub.isAssignedToMission = true
      · dsimp only
        rw [if_pos hassigned]
        exact gives_ok (.same hnamed _)
      · dsimp only
        rw [if_neg hassigned]
        apply gives_bind (assignMission_submarine sub i.world.lncConnect i.lines.tail)
        intro r hafter
        apply gives_ok
        have hlink : LinkStep (i.Connects (i.lines.headD [])) sub.openLink r.1.openLink [] :=
          hafter.link.imp_left fun ⟨hstores, stream, hbridge, hopened⟩ ↦
            ⟨hstores, stream, ⟨hop, rfl, hbridge⟩, hopened⟩
        exact @LinksStep.one _ _ _ _ hnamed hfind (fun _ ↦ r.1) (hafter.serialNumber.trans hserial)
          (hafter.named (hnamed sub hmem)) [] hlink .missionAssigned true

structure Shown (sub : Submarine) (r : Submarine × List (Text × DcaStore)) : Prop where
  serialNumber : r.1.serialNumber = sub.serialNumber
  named : r.1.Named
  link : ∃ stores, r.2 = (stores.map fun s ↦ (sub.serialNumber, s)) ∧
    Reads sub.openLink r.1.openLink stores

theorem display_combat_reads {world : FleetWorld} (hworld : world.Bridged) {c : CombatSubmarine}
    (hnamed : (Submarine.combat c).Named) :
    Gives (c.display (world.arrivals c.serialNumber)) (fun r ↦ r.1.serialNumber = c.serialNumber ∧
      (r.2 ≠ [] → r.1.submarineId = c.serialNumber) ∧ (Submarine.combat r.1).Named ∧
      Reads c.centralComputer.openLink r.1.centralComputer.openLink r.2) fun _ ↦ True := by
  unfold CombatSubmarine.display
  apply gives_ite
  · intro hopen
    have hid : c.submarineId = c.serialNumber := hnamed c rfl hopen
    apply gives_ite
    · intro _
      apply gives_ok
      refine ⟨rfl, fun _ ↦ hid, fun d hd _ ↦ by cases hd; exact hid, ?_⟩
      rw [CentralComputer.pollLatestTelemetry, if_pos hopen]
      refine { closed := fun hnone ↦ ?_, files := fun link hlink msgs hmsgs ↦ ?_ }
      · rw [CentralComputer.openLink, if_pos hopen] at hnone
        cases hnone
      · rw [← (mem_openLink.mp hlink).2] at hmsgs
        exact (pollLoop_storesFront (hworld.whole c.serialNumber) hmsgs).2
    · intro _
      exact gives_error trivial
  · intro _
    exact gives_ok ⟨rfl, fun h ↦ absurd rfl h, hnamed, reads_refl _⟩

theorem displayFor_shown {world : FleetWorld} (hworld : world.Bridged) (hnamed : sub.Named) :
    Gives (sub.displayFor world) (Shown sub) fun _ ↦ True := by
  cases sub with
  | research r =>
      exact gives_ok { serialNumber := rfl, named := hnamed, link := ⟨[], rfl, reads_refl _⟩ }
  | combat c =>
      have hdisplay : Gives (Submarine.display world.arrivals (.combat c)) (fun r ↦
          Shown (.combat c) (r.1, r.2.map fun s ↦
            ((r.1.combat?.map CombatSubmarine.submarineId).getD [], s))) fun _ ↦ True := by
        apply gives_bind (display_combat_reads hworld hnamed)
        rintro ⟨d, stores⟩ ⟨hserial, hid, hshown, hreads⟩
        refine gives_ok { serialNumber := hserial, named := hshown, link := ⟨stores, ?_, hreads⟩ }
        apply List.map_congr_left
        intro s hs
        exact congrArg (fun id ↦ (id, s)) (hid (List.ne_nil_of_mem hs))
      apply gives_bind hdisplay
      intro r hr
      exact gives_ok hr

structure LoopShown (fleet : Fleet) (r : Fleet × List (Text × DcaStore)) : Prop where
  named : ∀ sub ∈ r.1, sub.Named
  links : ∀ serial, Reads (fleet.openLink serial) (Fleet.openLink r.1 serial) (filedUnder serial r.2)

theorem openLink_absent (h : serial ∉ fleet.map Submarine.serialNumber) :
    fleet.openLink serial = none := by
  have hfind : fleet.findBySerial serial = none := by
    cases hsub : fleet.findBySerial serial with
    | none => rfl
    | some sub =>
        obtain ⟨hmem, hserial⟩ := findKey_some hsub
        exact absurd (List.mem_map.mpr ⟨sub, hmem, hserial⟩) h
  rw [Fleet.openLink, hfind]
  rfl

theorem displayLoop_shown {world : FleetWorld} (hworld : world.Bridged)
    (hserials : (fleet.map Submarine.serialNumber).Nodup) (hnamed : ∀ sub ∈ fleet, sub.Named) :
    Gives (displayLoop world fleet) (LoopShown fleet) fun _ ↦ True := by
  -- induction on the submarines; each link is polled once
  induction fleet with
  | nil =>
      exact gives_ok { named := fun sub hsub ↦ absurd hsub List.not_mem_nil
                       links := fun serial ↦ reads_refl _ }
  | cons sub subs ih =>
      rw [List.map_cons, List.nodup_cons] at hserials
      obtain ⟨habsent, hserials⟩ := hserials
      obtain ⟨hsub, hsubs⟩ := List.forall_mem_cons.mp hnamed
      apply gives_bind (displayFor_shown hworld hsub)
      rintro ⟨shown, own⟩ ⟨hserial, hshown, stores, rfl, hreads⟩
      apply gives_bind (ih hserials hsubs)
      rintro ⟨rest, more⟩ ⟨hrest, hlinks⟩
      refine gives_ok { named := List.forall_mem_cons.mpr ⟨hshown, hrest⟩, links := fun serial ↦ ?_ }
      rw [openLink_cons, openLink_cons, filedUnder_append, filedUnder_own, hserial]
      by_cases hown : sub.serialNumber = serial
      · -- the rest of the fleet has other serial numbers
        have hnone := ((hlinks serial).closed (openLink_absent (hown ▸ habsent))).2
        rw [if_pos hown, if_pos hown, if_pos hown, hnone, List.append_nil]
        exact hreads
      · rw [if_neg hown, if_neg hown, if_neg hown, List.nil_append]
        exact hlinks serial

theorem displayAll_links (h : FleetOk fleet) (hnamed : ∀ sub ∈ fleet, sub.Named)
    (hworld : i.world.Bridged) :
    Meets (fleet.displayAll i.world) (LinksStep fleet i) fun _ ↦ True := by
  unfold Fleet.displayAll
  apply meets_ite
  · intro _
    exact meets_pure (.same hnamed _)
  · intro _
    apply meets_bind (meets_lift (displayLoop_shown hworld h.linked.keys hnamed))
    intro r hr
    exact meets_pure { named := hr.named, links := fun serial ↦ .inr (hr.links serial) }

theorem searchAndDisplay_links (hnamed : ∀ sub ∈ fleet, sub.Named) (hworld : i.world.Bridged) :
    Meets (fleet.searchAndDisplay i.world) (LinksStep fleet i) fun _ ↦ True := by
  unfold Fleet.searchAndDisplay
  apply meets_bind meets_promptLine
  intro serial _
  cases hfind : fleet.findBySerial serial with
  | none => exact meets_pure (.same hnamed _)
  | some sub =>
      obtain ⟨hmem, rfl⟩ := findKey_some hfind
      apply meets_bind (meets_lift (displayFor_shown hworld (hnamed sub hmem)))
      rintro ⟨shown, own⟩ ⟨hserial, hshown, stores, rfl, hreads⟩
      apply meets_pure
      exact @LinksStep.one _ _ _ _ hnamed hfind (fun _ ↦ shown) hserial hshown stores (.inr hreads) _ _

theorem queryHistory_reads {cc : CentralComputer} (hopen : cc.connected = true)
    (startTime endTime : UInt32) (stack stack' : Nat → PageFrame) :
    let out := cc.queryHistory startTime endTime stack stack'
    Reads cc.openLink out.cc.openLink out.stores := by
  intro out
  have hlast : out.cc.connected = true := (queryHistory_frame _ _ _ _ _).1.trans hopen
  rw [CentralComputer.openLink, if_pos hopen, CentralComputer.openLink, if_pos hlast]
  refine { closed := fun hnone ↦ absurd hnone (Option.some_ne_none _)
           files := fun link hlink msgs hmsgs ↦ ?_ }
  cases hlink
  have hfirst := queryMeasurements_storesFront hopen hmsgs startTime endTime stack
  have hmid := (query_frame cc (ccCoreGetMeasurements startTime endTime stack)).1.trans hopen
  simp only [out, CentralComputer.queryHistory]
  split_ifs
  · exact hfirst.trans fun unread hunread ↦ queryEvents_storesFront hmid hunread _ _ _
  · exact hfirst

theorem viewHistoricalData_links (hnamed : ∀ sub ∈ fleet, sub.Named) :
    Meets (fleet.viewHistoricalData i.world) (LinksStep fleet i) fun _ ↦ True := by
  unfold Fleet.viewHistoricalData
  apply meets_bind meets_promptLine
  intro serial _
  cases hfind : fleet.findCombat serial with
  | none => exact meets_pure (.same hnamed _)
  | some c =>
      obtain ⟨hmem, hserial⟩ := findCombat_some hfind
      apply meets_ite
      · intro _
        exact meets_pure (.same hnamed _)
      · intro hopen
        have hopen : c.centralComputer.connected = true := Decidable.of_not_not hopen
        have hid : c.submarineId = c.serialNumber := hnamed _ hmem c rfl hopen
        apply meets_bind meets_promptInt.anyError
        intro hoursBackStart _
        apply meets_bind meets_promptInt.anyError
        intro hoursBackEnd _
        apply meets_pure
        rw [hid.trans hserial]
        apply LinksStep.one hnamed (findCombat_findBySerial hfind)
        · exact hserial
        · intro d hd _
          cases hd
          exact hid
        · exact .inr (queryHistory_reads hopen _ _ _ _)

theorem perform_links (h : FleetOk fleet) (hnamed : ∀ sub ∈ fleet, sub.Named)
    (hworld : i.world.Bridged) :
    Gives (fleet.perform i.world i.op i.lines) (fun r ↦ LinksStep fleet i r.1) fun _ ↦ True := by
  cases hop : i.op with
  | addSubmarine => exact addSubmarine_links hnamed i.lines
  | displayAll => exact displayAll_links h hnamed hworld i.lines
  | searchAndDisplay => exact searchAndDisplay_links hnamed hworld i.lines
  | assignMission => exact assignMission_links hnamed hop
  | updateMissionDetails => exact updateMissionDetails_links hnamed i.lines
  | endMission => exact endMission_links hnamed i.lines
  | associateCombatSubmarines => exact associateCombatSubmarines_links hnamed i.lines
  | sendMessage => exact sendMessage_links hnamed i.lines
  | displayReceivedMessages => exact displayReceivedMessages_links hnamed i.lines
  | viewHistoricalData => exact viewHistoricalData_links hnamed i.lines

end Operations

/-! ## 5. Runs -/

def Brings (serial : Text) (x : List Bytes × List Bytes) (i : FleetInput) : Prop :=
  ∃ stream, i.Connects serial stream ∧ messagesIn stream = x.1 ++ x.2

/-- What is stored of the connections of a submarine, the newest of them first; a link that is open is the
    newest one, with the rest of its messages to come. -/
def Filed (serial : Text) (link : Option LncLink) (is : List FleetInput) (stores : List DcaStore) :
    Prop :=
  ∃ (given : List (List Bytes × List Bytes)) (missions : List FleetInput),
    missions.Sublist is.reverse ∧ List.Forall₂ (Brings serial) given missions ∧
      stores = (given.reverse.flatMap (·.1)).flatMap messageStores ∧
      ∀ open_ ∈ link, ∃ done rest older, given = (done, rest) :: older ∧ open_.Carries rest

section Filing

variable {serial : Text} {before after : Option LncLink} {is : List FleetInput}
  {stores new : List DcaStore} {i : FleetInput}

theorem sublist_snoc_reverse {missions : List FleetInput} (h : missions.Sublist is.reverse)
    (i : FleetInput) : missions.Sublist (is ++ [i]).reverse := by
  rw [List.reverse_append]
  exact h.cons i

theorem Filed.closed (h : Filed serial before is stores) : Filed serial none is stores := by
  obtain ⟨given, missions, hmissions, hbrings, hstores, -⟩ := h
  exact ⟨given, missions, hmissions, hbrings, hstores,
    fun link hlink ↦ absurd hlink (Option.not_mem_none link)⟩

theorem Filed.opens {stream : Bytes} (h : Filed serial before is stores) (hworld : i.world.Bridged)
    (hconnects : i.Connects serial stream) :
    Filed serial (some { incoming := stream, taken := 0 }) (is ++ [i]) stores := by
  obtain ⟨given, missions, hmissions, hbrings, hstores, -⟩ := h
  obtain ⟨host, port, rest, -, -, hconnect⟩ := hconnects.bridge
  obtain ⟨msgs, hmsgs, hfront⟩ := hworld.sends host port stream hconnect
  refine ⟨([], messagesIn stream) :: given, i :: missions, ?_, .cons ⟨stream, hconnects, rfl⟩ hbrings,
    ?_, fun link hlink ↦ ⟨[], messagesIn stream, given, rfl, ?_⟩⟩
  · rw [List.reverse_append]
    exact hmissions.cons_cons i
  · rw [List.reverse_cons, List.flatMap_append, List.flatMap_singleton, List.append_nil]
    exact hstores
  · cases hlink
    exact .start hmsgs hfront

theorem Filed.reads (h : Filed serial before is stores) (hreads : Reads before after new) :
    Filed serial after (is ++ [i]) (stores ++ new) := by
  obtain ⟨given, missions, hmissions, hbrings, hstores, hopen⟩ := h
  cases before with
  | none =>
      obtain ⟨rfl, rfl⟩ := hreads.closed rfl
      rw [List.append_nil]
      exact ⟨given, missions, sublist_snoc_reverse hmissions i, hbrings, hstores,
        fun link hlink ↦ absurd hlink (Option.not_mem_none link)⟩
  | some link =>
      obtain ⟨done, rest, older, rfl, hcarries⟩ := hopen link rfl
      obtain ⟨consumed, unread, rfl, rfl, hleft⟩ := hreads.files link rfl rest hcarries
      obtain ⟨mission, earlier, hbring, holder, rfl⟩ := List.forall₂_cons_left_iff.mp hbrings
      -- what is read moves from what is to come to what is stored
      have hmoved : Brings serial (done ++ consumed, unread) mission := by
        obtain ⟨stream, hconnects, hmsgs⟩ := hbring
        exact ⟨stream, hconnects, hmsgs.trans (List.append_assoc _ _ _).symm⟩
      refine ⟨(done ++ consumed, unread) :: older, mission :: earlier,
        sublist_snoc_reverse hmissions i, .cons hmoved holder, ?_,
        fun left hin ↦ ⟨_, unread, older, rfl, hleft left hin⟩⟩
      rw [hstores]
      simp only [List.reverse_cons, List.flatMap_append, List.flatMap_singleton, List.append_assoc]

theorem Filed.step (h : Filed serial before is stores) (hworld : i.world.Bridged)
    (hstep : LinkStep (i.Connects serial) before after new) :
    Filed serial after (is ++ [i]) (stores ++ new) := by
  rcases hstep with ⟨rfl, stream, hconnects, rfl⟩ | hreads
  · rw [List.append_nil]
    exact h.opens hworld hconnects
  · exact h.reads hreads

end Filing

/-- No operation follows one without a result, and nothing is read any more. -/
def openLinkOf (serial : Text) : Except Halt Fleet → Option LncLink
  | .ok fleet => fleet.openLink serial
  | .error _ => none

structure FleetFiled (s : Except Halt Fleet) (is : List FleetInput) (os : List (Option FleetOut)) :
    Prop where
  fleet : ∀ fleet, s = .ok fleet → FleetOk fleet ∧ ∀ sub ∈ fleet, sub.Named
  filed : ∀ serial, Filed serial (openLinkOf serial s) is (filedUnder serial (fleetStores os))

theorem fleetStores_snoc (os : List (Option FleetOut)) (out : Option FleetOut) :
    fleetStores (os ++ [out]) = fleetStores os ++ out.toList.flatMap FleetOut.stores := by
  rw [fleetStores, List.flatMap_append, List.flatMap_singleton]
  rfl

theorem FleetFiled.step {s : Except Halt Fleet} {is : List FleetInput}
    {os : List (Option FleetOut)} {i : FleetInput} (h : FleetFiled s is os)
    (hworld : i.world.Bridged) :
    FleetFiled (fleetStep s i).1 (is ++ [i]) (os ++ [(fleetStep s i).2]) := by
  have hstopped : ∀ e, (∀ serial, Filed serial none is (filedUnder serial (fleetStores os))) →
      FleetFiled (.error e) (is ++ [i]) (os ++ [none]) := by
    intro e hfiled
    refine { fleet := fun fleet hfleet ↦ ?_, filed := fun serial ↦ ?_ }
    · cases hfleet
    · rw [fleetStores_snoc, filedUnder_append]
      exact (hfiled serial).reads (reads_refl none)
  cases s with
  | error e => exact hstopped e h.filed
  | ok fleet =>
      obtain ⟨hok, hnamed⟩ := h.fleet fleet rfl
      have hlinks := @perform_links fleet i hok hnamed hworld
      have heffect := perform_effect hok i.world i.op i.lines
      rw [fleetStep]
      cases hperform : fleet.perform i.world i.op i.lines with
      | error e => exact hstopped e fun serial ↦ (h.filed serial).closed
      | ok r =>
          obtain ⟨out, left⟩ := r
          have hstep := hlinks.1 _ hperform
          have hfiled : ∀ serial, Filed serial (out.fleet.openLink serial) (is ++ [i])
              (filedUnder serial (fleetStores (os ++ [some out]))) := by
            intro serial
            rw [fleetStores_snoc, filedUnder_append, Option.toList_some, List.flatMap_singleton]
            exact (h.filed serial).step hworld (hstep.links serial)
          dsimp only
          split_ifs
          · refine { fleet := fun after hafter ↦ ?_, filed := hfiled }
            cases hafter
            exact ⟨fleetOk_effect hok (heffect.1 _ hperform), hstep.named⟩
          · -- a query has not returned; what it had stored is in the files
            exact { fleet := fun _ ↦ nofun, filed := fun serial ↦ (hfiled serial).closed }

/-- In every run of the menu, with bridges that send messages of the link and connections that drop behind
    any byte: what is stored under a serial number are messages of the connections that its submarine
    was given by different choices of `AssignMission`, connection after connection, of each one a
    front of what comes whole on it; behind it, on a link that is still open, the rest is to come. -/
theorem fleet_telemetry {is : List FleetInput} (h : ∀ i ∈ is, i.world.Bridged) (serial : Text) :
    ∃ (given : List (List Bytes × List Bytes)) (missions : List FleetInput),
      missions.Sublist is ∧ List.Forall₂ (Brings serial) given missions ∧
        filedUnder serial (fleetStores (runOutputs fleetStep (.ok []) is)) =
          (given.flatMap (·.1)).flatMap messageStores ∧
        ∀ fleet link, runState fleetStep (.ok []) is = .ok fleet →
          fleet.openLink serial = some link →
            ∃ older done, given = older ++ [(done, messagesIn link.incoming)] := by
  have hstart : FleetFiled (.ok []) [] [] :=
    { fleet := fun fleet hfleet ↦ by
        cases hfleet
        exact ⟨fleetOk_nil, fun sub hsub ↦ absurd hsub List.not_mem_nil⟩
      filed := fun serial ↦ ⟨[], [], List.Sublist.refl _, .nil, rfl,
        fun link hlink ↦ absurd hlink (Option.not_mem_none link)⟩ }
  have hallowed : Allowed fleetStep (fun _ i ↦ i.world.Bridged) (.ok []) is := by
    intro p hp
    obtain ⟨js, ks, his, -⟩ := (mem_runSteps fleetStep (.ok []) is p).mp hp
    exact h p.2 (his ▸ List.mem_append_right js List.mem_cons_self)
  have hrun := @run_record _ _ _ fleetStep (fun _ i ↦ i.world.Bridged) FleetFiled
    (fun _ _ _ _ hfiled hworld ↦ hfiled.step hworld) (.ok []) [] [] is hstart hallowed
  obtain ⟨given, missions, hmissions, hbrings, hstores, hopen⟩ := hrun.filed serial
  refine ⟨given.reverse, missions.reverse, ?_, List.forall₂_reverse_iff.mpr hbrings, hstores,
    fun fleet link hfleet hlink ↦ ?_⟩
  · exact List.reverse_sublist.mp (by rw [List.reverse_reverse]; exact hmissions)
  · rw [hfleet] at hopen
    obtain ⟨done, rest, older, rfl, hcarries⟩ := hopen link hlink
    refine ⟨older.reverse, done, ?_⟩
    rw [List.reverse_cons, hcarries.messagesIn_eq]

/-- Two whole messages and a part of a length, of which each display finds one message. -/
def cutWorld : FleetWorld :=
  { idleWorld with
    lncConnect := fun _ _ ↦ some ((encodeAll tcpMessage [emptyReport, emptyReport, emptyReport]).take 23)
    arrivals := fun _ n ↦
      { arrived := if n = 0 then 4 else 0, closed := false, payloadArrived := 256, storage := fun _ ↦ 0 } }

theorem cutWorld_bridged : cutWorld.Bridged where
  sends host port stream hconnect := by
    refine ⟨[emptyReport, emptyReport, emptyReport], fun m hm ↦ ?_, ?_⟩
    · rw [List.eq_of_mem_replicate (show m ∈ List.replicate 3 emptyReport from hm)]
      exact emptyReport_incoming
    · rw [← Option.some.inj hconnect]
      exact List.take_prefix 23 _
  whole serial n := by
    cases n with
    | zero => exact .inr (Nat.le_refl 4)
    | succ n => exact .inl rfl

theorem idleWorld_bridged : idleWorld.Bridged where
  sends _ _ _ hconnect := by cases hconnect
  whole _ _ := .inl rfl

def twoMissions : List FleetInput := [
  ⟨.addSubmarine, [['a'], ['x'], ['2']], idleWorld⟩,
  ⟨.assignMission, [['a'], ['m'], ['c'], ['4'], ['h'], ['1']], cutWorld⟩,
  ⟨.displayAll, [], cutWorld⟩,
  ⟨.endMission, [['a']], idleWorld⟩,
  ⟨.assignMission, [['a'], ['n'], ['c'], ['4'], ['h'], ['1']], cutWorld⟩,
  ⟨.searchAndDisplay, [['a']], cutWorld⟩,
  ⟨.searchAndDisplay, [['a']], cutWorld⟩]

theorem fleet_telemetry_twoMissions :
    filedUnder ['a'] (fleetStores (runOutputs fleetStep (.ok []) twoMissions)) =
      (List.replicate 3 emptyReport).flatMap messageStores ∧
    ∃ (given : List (List Bytes × List Bytes)) (missions : List FleetInput),
      missions.Sublist twoMissions ∧ List.Forall₂ (Brings ['a']) given missions ∧
        (given.flatMap (·.1)).flatMap messageStores =
          (List.replicate 3 emptyReport).flatMap messageStores := by
  have hworlds : ∀ i ∈ twoMissions, i.world.Bridged := by
    simp only [twoMissions, List.forall_mem_cons]
    exact ⟨idleWorld_bridged, cutWorld_bridged, cutWorld_bridged, idleWorld_bridged, cutWorld_bridged,
      cutWorld_bridged, cutWorld_bridged, fun i hi ↦ absurd hi List.not_mem_nil⟩
  have hfiled : filedUnder ['a'] (fleetStores (runOutputs fleetStep (.ok []) twoMissions)) =
      (List.replicate 3 emptyReport).flatMap messageStores := by
    decide +kernel
  obtain ⟨given, missions, hmissions, hbrings, hstores, -⟩ := fleet_telemetry hworlds ['a']
  exact ⟨hfiled, given, missions, hmissions, hbrings, hstores.symm.trans hfiled⟩

end SubmarineMonitor
