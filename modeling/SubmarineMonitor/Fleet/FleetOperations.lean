import SubmarineMonitor.Fleet.FleetInvariant

/-!
# FleetOperations — each menu operation has one of the effects

One lemma for each function of `submarine.cpp`, its two subclasses and `fleet.cpp`, from the prompts up
to `Fleet.perform`.
-/

open Reasoning

namespace SubmarineMonitor

/-! ## 1. Prompts -/

theorem meets_promptLine {E : Halt → Prop} : Meets promptLine (fun _ ↦ True) E :=
  fun _ ↦ gives_ok trivial

theorem meets_promptInt : Meets promptInt (fun _ ↦ True) (· = .hangs) := by
  intro lines
  show Gives (promptIntLoop lines) (fun _ ↦ True) (· = .hangs)
  -- induction on the lines: only their end stops the loop without a number
  induction lines with
  | nil => exact gives_error rfl
  | cons line lines ih =>
      rw [promptIntLoop]
      cases stoi line with
      | some value => exact gives_ok trivial
      | none => exact ih

theorem meets_addResearchers {E : Halt → Prop} (r : ResearchSubmarine) :
    Meets r.addResearchers (fun s ↦ ∃ names, s = { r with researchers := names }) E :=
  fun _ ↦ gives_ok ⟨_, rfl⟩

/-! ## 2. Assigning and updating a mission -/

/-- A change of a research submarine that keeps its serial number and, where it ends unassigned,
    leaves nothing of a mission. -/
theorem quiet_research {r s : ResearchSubmarine} (hserial : s.serialNumber = r.serialNumber)
    (hassigned : s.assignedToMission = true) : Quiet (.research r) (.research s) where
  serialNumber := hserial
  participants := rfl
  inbox := rfl
  live := id
  wellFormed := fun _ ↦ ⟨fun h ↦ absurd (hassigned.symm.trans h) (by decide), fun _ h ↦ nomatch h⟩

theorem quiet_combat {c d : CombatSubmarine} (hserial : d.serialNumber = c.serialNumber)
    (hparts : d.participatingSubmarines = c.participatingSubmarines)
    (hinbox : d.receivedMessages = c.receivedMessages) (hassigned : d.assignedToMission = true)
    (hcached : c.LinkOk → d.centralComputer.haveLatest = true →
      d.centralComputer.connected = true) : Quiet (.combat c) (.combat d) where
  serialNumber := hserial
  participants := hparts
  inbox := hinbox
  live := fun _ ↦ hassigned
  wellFormed := by
    intro h
    constructor
    · intro hun
      exact absurd (hassigned.symm.trans hun) (by decide)
    · intro e he
      obtain rfl := Submarine.combat.inj he
      exact ⟨hcached (h.link c rfl), fun _ ↦ hassigned⟩

theorem assignMission_research (r : ResearchSubmarine) :
    Meets r.assignMission (fun s ↦ Quiet (.research r) (.research s)) (· = .hangs) := by
  unfold ResearchSubmarine.assignMission
  apply meets_bind meets_promptLine
  intro topic _
  apply meets_bind (meets_addResearchers _)
  rintro s ⟨names, rfl⟩
  exact meets_pure (quiet_research rfl rfl)

theorem updateMissionDetails_research {r : ResearchSubmarine} (h : r.assignedToMission = true) :
    Meets r.updateMissionDetails (fun s ↦ Quiet (.research r) (.research s)) (· = .hangs) := by
  unfold ResearchSubmarine.updateMissionDetails
  apply meets_bind meets_promptLine
  intro topic _
  apply meets_bind meets_promptLine
  intro answer _
  -- with the new topic or the old one
  have hkeep : ∀ r' : ResearchSubmarine, r'.serialNumber = r.serialNumber →
      r'.assignedToMission = r.assignedToMission →
      Meets (if answer.head? = some 'y' ∨ answer.head? = some 'Y' then r'.addResearchers
        else pure r') (fun s ↦ Quiet (.research r) (.research s)) (· = .hangs) := by
    intro r' hserial hassigned
    apply meets_ite
    · intro _
      apply (meets_addResearchers r').mono
      rintro s ⟨names, rfl⟩
      exact quiet_research hserial (hassigned.trans h)
    · intro _
      exact meets_pure (quiet_research hserial (hassigned.trans h))
  by_cases htopic : topic ≠ []
  · rw [if_pos htopic]
    exact hkeep _ rfl rfl
  · rw [if_neg htopic]
    exact hkeep _ rfl rfl

theorem connect_cached {cc : CentralComputer} (h : cc.haveLatest = true → cc.connected = true)
    (outcome : Option Bytes) (hlatest : (cc.connect outcome).1.haveLatest = true) :
    (cc.connect outcome).1.connected = true := by
  cases outcome with
  | some incoming => rfl
  | none =>
      have hlatest' : (if cc.connected then cc.disconnect else cc).haveLatest = true := hlatest
      by_cases hconn : cc.connected
      · rw [if_pos hconn] at hlatest'
        exact absurd hlatest' Bool.false_ne_true
      · rw [if_neg hconn] at hlatest'
        exact absurd (h hlatest') hconn

theorem assignMission_combat (c : CombatSubmarine) (lncConnect : Text → UInt16 → Option Bytes) :
    Meets (c.assignMission lncConnect) (fun d ↦ Quiet (.combat c) (.combat d)) (· = .hangs) := by
  unfold CombatSubmarine.assignMission
  apply meets_bind meets_promptLine
  intro missionDescription _
  apply meets_bind meets_promptLine
  intro commanderName _
  apply meets_bind meets_promptInt
  intro personnelCount _
  apply meets_bind meets_promptLine
  intro host _
  apply meets_ite
  · intro _
    exact meets_pure (quiet_combat rfl rfl rfl rfl fun hc ↦ hc.cached)
  · intro _
    apply meets_bind meets_promptInt
    intro port _
    apply meets_pure
    exact quiet_combat rfl rfl rfl rfl fun hc ↦ connect_cached hc.cached _

theorem updateMissionDetails_combat {c : CombatSubmarine} (h : c.assignedToMission = true) :
    Meets c.updateMissionDetails (fun d ↦ Quiet (.combat c) (.combat d)) (· = .hangs) := by
  unfold CombatSubmarine.updateMissionDetails
  apply meets_bind meets_promptLine
  intro missionDescription _
  apply meets_bind meets_promptLine
  intro commanderName _
  apply meets_bind meets_promptLine
  intro personnelCount _
  -- each of the four optional changes keeps the rest of the submarine
  have hkeep : ∀ d : CombatSubmarine, d.serialNumber = c.serialNumber →
      d.participatingSubmarines = c.participatingSubmarines →
      d.receivedMessages = c.receivedMessages → d.assignedToMission = c.assignedToMission →
      d.centralComputer = c.centralComputer → Quiet (.combat c) (.combat d) := by
    intro d hserial hparts hinbox hassigned hcc
    apply quiet_combat hserial hparts hinbox (hassigned.trans h)
    intro hc
    rw [hcc]
    exact hc.cached
  cases stoi personnelCount with
  | some count =>
      apply meets_pure
      apply hkeep <;> split_ifs <;> rfl
  | none =>
      apply meets_pure
      apply hkeep <;> split_ifs <;> rfl

/-! ## 3. Showing a submarine -/

/-- A poll of a live link ends with a live link, or with nothing cached. -/
theorem pollLoop_cached (n : Nat) (arrivals : Nat → PollArrival) {cc : CentralComputer}
    (h : cc.connected = true) (hlatest : (pollLoop n arrivals cc).cc.haveLatest = true) :
    (pollLoop n arrivals cc).cc.connected = true := by
  -- induction on the messages the poll may still take
  induction n generalizing arrivals cc with
  | zero => exact h
  | succ n ih =>
      rw [pollLoop] at hlatest ⊢
      generalize pollOnce cc.link (arrivals 0) = once at hlatest ⊢
      obtain ⟨read, link, found⟩ := once
      cases found with
      | nothing => exact h
      | hungUp => exact absurd hlatest Bool.false_ne_true
      | malformed => exact ih _ h hlatest
      | message tag value valueLen =>
          dsimp only at hlatest ⊢
          generalize htaken : CentralComputer.takeTelemetry _ tag value valueLen = taken at hlatest ⊢
          cases taken with
          | none => exact h
          | some next => exact ih _ ((takeTelemetry_link htaken).2.trans h) hlatest

/-- A combat submarine whose central computer has been used: its link and its cache may differ. -/
theorem quiet_centralComputer {c : CombatSubmarine} {cc : CentralComputer}
    (hconn : cc.connected = true → c.centralComputer.connected = true)
    (hcached : c.LinkOk → cc.haveLatest = true → cc.connected = true) :
    Quiet (.combat c) (.combat { c with centralComputer := cc }) where
  serialNumber := rfl
  participants := rfl
  inbox := rfl
  live := id
  wellFormed := by
    intro h
    constructor
    · intro hun
      obtain ⟨hdesc, hcommander, hcount, hparts, hnot⟩ := h.unassigned hun
      refine ⟨hdesc, hcommander, hcount, hparts, Bool.eq_false_iff.mpr fun hc ↦ ?_⟩
      exact absurd (hnot.symm.trans (hconn hc)) (by decide)
    · intro e he
      obtain rfl := Submarine.combat.inj he
      have hlink := h.link c rfl
      exact ⟨hcached hlink, fun hc ↦ hlink.connected (hconn hc)⟩

theorem display_combat (c : CombatSubmarine) (arrivals : Nat → PollArrival) :
    Gives (c.display arrivals) (fun r ↦ Quiet (.combat c) (.combat r.1)) (· = .hangs) := by
  unfold CombatSubmarine.display
  apply gives_ite
  · intro hconn
    apply gives_ite
    · intro _
      apply gives_ok
      apply quiet_centralComputer
      · exact fun _ ↦ hconn
      · intro _ hlatest
        rw [CentralComputer.pollLatestTelemetry, if_pos hconn] at hlatest ⊢
        exact pollLoop_cached 5 arrivals hconn hlatest
    · intro _
      exact gives_error rfl
  · intro _
    exact gives_ok (Quiet.refl _)

theorem displayFor_quiet (world : FleetWorld) (sub : Submarine) :
    Gives (sub.displayFor world) (fun r ↦ Quiet sub r.1) (· = .hangs) := by
  have hdisplay : Gives (sub.display world.arrivals) (fun r ↦ Quiet sub r.1) (· = .hangs) := by
    cases sub with
    | research r => exact gives_ok (Quiet.refl _)
    | combat c =>
        apply gives_bind (display_combat c (world.arrivals c.serialNumber))
        intro r hr
        exact gives_ok hr
  apply gives_bind hdisplay
  intro r hr
  exact gives_ok hr

theorem displayLoop_quiet (world : FleetWorld) (fleet : Fleet) :
    Gives (displayLoop world fleet) (fun r ↦ List.Forall₂ Quiet fleet r.1) (· = .hangs) := by
  induction fleet with
  | nil => exact gives_ok .nil
  | cons sub subs ih =>
      apply gives_bind (displayFor_quiet world sub)
      intro shown hshown
      apply gives_bind ih
      intro rest hrest
      exact gives_ok (.cons hshown hrest)

/-! ## 4. The fleet's operations -/

section Operations
variable {fleet : Fleet} {serial : Text} {sub : Submarine} {c : CombatSubmarine}

theorem findCombat_some (h : fleet.findCombat serial = some c) :
    .combat c ∈ fleet ∧ c.serialNumber = serial := by
  unfold Fleet.findCombat at h
  obtain ⟨x, hx, hc⟩ := Option.bind_eq_some_iff.mp h
  obtain ⟨hmem, hserial⟩ := findKey_some hx
  cases x with
  | research r => exact nomatch hc
  | combat d =>
      obtain rfl := Option.some.inj hc
      exact ⟨hmem, hserial⟩

theorem findCombat_findBySerial (h : fleet.findCombat serial = some c) :
    fleet.findBySerial serial = some (.combat c) := by
  unfold Fleet.findCombat at h
  obtain ⟨x, hx, hc⟩ := Option.bind_eq_some_iff.mp h
  cases x with
  | research r => exact nomatch hc
  | combat d => rw [hx, Option.some.inj hc]

theorem FleetOk.edit_eq (h : FleetOk fleet) (serial : Text) (f : Submarine → Submarine) :
    fleet.edit serial f = fleet.map fun x ↦ if x.serialNumber = serial then f x else x :=
  updateKey_eq_map h.linked.keys

theorem FleetOk.edit_quiet (h : FleetOk fleet) (hfind : fleet.findBySerial serial = some sub)
    {f : Submarine → Submarine} (hquiet : Quiet sub (f sub)) :
    List.Forall₂ Quiet fleet (fleet.edit serial f) := by
  obtain ⟨hmem, hserial⟩ := findKey_some hfind
  rw [h.edit_eq, List.forall₂_map_right_iff, List.forall₂_same]
  intro x hx
  by_cases hxs : x.serialNumber = serial
  · rw [if_pos hxs, h.unique hx hmem (hxs.trans hserial.symm)]
    exact hquiet
  · rw [if_neg hxs]
    exact Quiet.refl x

theorem addSubmarine_effect (fleet : Fleet) :
    Meets fleet.addSubmarine (FleetEffect fleet .addSubmarine) (· = .hangs) := by
  unfold Fleet.addSubmarine
  apply meets_bind meets_promptLine
  intro serialNumber _
  apply meets_ite
  · intro _
    exact meets_pure (.unchanged rfl rfl)
  · intro hnone
    have hfresh : ∀ y ∈ fleet, y.serialNumber ≠ serialNumber :=
      findKey_none (Option.not_isSome_iff_eq_none.mp hnone)
    apply meets_bind meets_promptLine
    intro name _
    apply meets_bind meets_promptInt
    intro type _
    apply meets_ite
    · intro _
      exact meets_pure (.added _ (.research serialNumber name) hfresh rfl rfl)
    · intro _
      apply meets_ite
      · intro _
        exact meets_pure (.added _ (.combat serialNumber name) hfresh rfl rfl)
      · intro _
        exact meets_pure (.unchanged rfl rfl)

theorem displayAll_effect (fleet : Fleet) (world : FleetWorld) :
    Meets (fleet.displayAll world) (FleetEffect fleet .displayAll) (· = .hangs) := by
  unfold Fleet.displayAll
  apply meets_ite
  · intro _
    exact meets_pure (.unchanged rfl rfl)
  · intro _
    apply meets_bind (meets_lift (displayLoop_quiet world fleet))
    intro shown hshown
    exact meets_pure (.quiet hshown rfl)

theorem searchAndDisplay_effect (h : FleetOk fleet) (world : FleetWorld) :
    Meets (fleet.searchAndDisplay world) (FleetEffect fleet .searchAndDisplay) (· = .hangs) := by
  unfold Fleet.searchAndDisplay
  apply meets_bind meets_promptLine
  intro serial _
  cases hfind : fleet.findBySerial serial with
  | none => exact meets_pure (.unchanged rfl rfl)
  | some sub =>
      apply meets_bind (meets_lift (displayFor_quiet world sub))
      intro shown hshown
      exact meets_pure (.quiet (h.edit_quiet hfind hshown) rfl)

theorem assignMission_effect (h : FleetOk fleet) (world : FleetWorld) :
    Meets (fleet.assignMission world) (FleetEffect fleet .assignMission) (· = .hangs) := by
  unfold Fleet.assignMission
  apply meets_bind meets_promptLine
  intro serial _
  cases hfind : fleet.findBySerial serial with
  | none => exact meets_pure (.unchanged rfl rfl)
  | some sub =>
      apply meets_ite
      · intro _
        exact meets_pure (.unchanged rfl rfl)
      · intro _
        have hsub : Meets (sub.assignMission world.lncConnect) (Quiet sub) (· = .hangs) := by
          cases sub with
          | research r =>
              apply meets_bind (assignMission_research r)
              intro s hs
              exact meets_pure hs
          | combat c =>
              apply meets_bind (assignMission_combat c world.lncConnect)
              intro d hd
              exact meets_pure hd
        apply meets_bind hsub
        intro sub' hsub'
        exact meets_pure (.quiet (h.edit_quiet hfind hsub') rfl)

theorem updateMissionDetails_effect (h : FleetOk fleet) :
    Meets fleet.updateMissionDetails (FleetEffect fleet .updateMissionDetails) (· = .hangs) := by
  unfold Fleet.updateMissionDetails
  apply meets_bind meets_promptLine
  intro serial _
  cases hfind : fleet.findBySerial serial with
  | none => exact meets_pure (.unchanged rfl rfl)
  | some sub =>
      apply meets_ite
      · intro _
        exact meets_pure (.unchanged rfl rfl)
      · intro hassigned
        have hassigned : sub.isAssignedToMission = true := Decidable.of_not_not hassigned
        have hsub : Meets sub.updateMissionDetails (Quiet sub) (· = .hangs) := by
          cases sub with
          | research r =>
              apply meets_bind (updateMissionDetails_research hassigned)
              intro s hs
              exact meets_pure hs
          | combat c =>
              apply meets_bind (updateMissionDetails_combat hassigned)
              intro d hd
              exact meets_pure hd
        apply meets_bind hsub
        intro sub' hsub'
        exact meets_pure (.quiet (h.edit_quiet hfind hsub') rfl)

/-- The loop edits no vector under its own feet when the list does not name its owner. -/
theorem unlinkLoop_eq {own : Text} {participants : List Text} (hown : own ∉ participants)
    (fleet : Fleet) :
    unlinkLoop own participants fleet = .ok (participants.foldl
      (fun fleet k ↦ fleet.edit k (.onCombat (·.removeParticipant own))) fleet) := by
  induction participants generalizing fleet with
  | nil => rfl
  | cons k ks ih =>
      rw [List.mem_cons, not_or] at hown
      rw [unlinkLoop, if_neg (Ne.symm hown.1), ih hown.2, List.foldl_cons]

theorem removeParticipant_absent {x : Submarine} {own : Text} (h : own ∉ x.participants) :
    x.onCombat (·.removeParticipant own) = x := by
  cases x with
  | research r => rfl
  | combat c =>
      have hfilter : c.participatingSubmarines.filter (· ≠ own) = c.participatingSubmarines := by
        apply List.filter_eq_self.mpr
        intro k hk
        apply decide_eq_true
        rintro rfl
        exact h hk
      show Submarine.combat (c.removeParticipant own) = .combat c
      rw [CombatSubmarine.removeParticipant, hfilter]

/-- The loop and the `EndMission` behind it, as one pass over the fleet. -/
theorem FleetOk.unlink_edit (h : FleetOk fleet) (hmem : sub ∈ fleet) :
    unlinkLoop sub.serialNumber sub.participants fleet =
        .ok (updateKeys Submarine.serialNumber sub.participants
          (.onCombat (·.removeParticipant sub.serialNumber)) fleet) ∧
      Fleet.edit (updateKeys Submarine.serialNumber sub.participants
          (.onCombat (·.removeParticipant sub.serialNumber)) fleet) sub.serialNumber .endMission =
        fleet.map (endMissionOf sub.serialNumber) := by
  have hirrefl := h.linked.irrefl sub hmem
  have hkey : ∀ x : Submarine,
      (x.onCombat (·.removeParticipant sub.serialNumber)).serialNumber = x.serialNumber := by
    intro x
    apply onCombat_serialNumber
    exact fun c ↦ rfl
  have hidem : ∀ x : Submarine, (x.onCombat (·.removeParticipant sub.serialNumber)).onCombat
      (·.removeParticipant sub.serialNumber) = x.onCombat (·.removeParticipant sub.serialNumber) := by
    intro x
    apply removeParticipant_absent
    cases x with
    | research r => exact List.not_mem_nil
    | combat c => exact fun hc ↦ of_decide_eq_true (List.mem_filter.mp hc).2 rfl
  have hloop := unlinkLoop_eq hirrefl fleet
  constructor
  · rw [hloop]
    exact congrArg Except.ok (foldl_updateKey hkey hidem sub.participants h.linked.keys)
  · rw [Fleet.edit, updateKey_updateKeys hkey hirrefl h.linked.keys]
    apply List.map_congr_left
    intro x hx
    rw [endMissionOf]
    by_cases hxs : x.serialNumber = sub.serialNumber
    · rw [if_pos hxs, if_pos hxs]
    · rw [if_neg hxs, if_neg hxs]
      by_cases hpart : x.serialNumber ∈ sub.participants
      · rw [if_pos hpart]
      · -- by symmetry a submarine that is not named does not name this one
        rw [if_neg hpart, removeParticipant_absent]
        intro hback
        obtain ⟨y, hy, hys, -, hyx⟩ := h.linked.symm x hx _ hback
        rw [h.unique hy hmem hys] at hyx
        exact hpart hyx

theorem endMission_effect (h : FleetOk fleet) :
    Meets fleet.endMission (FleetEffect fleet .endMission) (· = .hangs) := by
  unfold Fleet.endMission
  apply meets_bind meets_promptLine
  intro serial _
  cases hfind : fleet.findBySerial serial with
  | none => exact meets_pure (.unchanged rfl rfl)
  | some sub =>
      obtain ⟨hmem, rfl⟩ := findKey_some hfind
      obtain ⟨hloop, hedit⟩ := h.unlink_edit hmem
      apply meets_ite
      · intro _
        exact meets_pure (.unchanged rfl rfl)
      · intro _
        have hunlink : Gives (unlinkLoop sub.serialNumber
            ((sub.combat?.map CombatSubmarine.participatingSubmarines).getD []) fleet)
            (fun unlinked ↦ Fleet.edit unlinked sub.serialNumber .endMission =
              fleet.map (endMissionOf sub.serialNumber)) (· = .hangs) := by
          show Gives (unlinkLoop sub.serialNumber sub.participants fleet) _ _
          rw [hloop]
          exact gives_ok hedit
        apply meets_bind (meets_lift hunlink)
        intro unlinked hunlinked
        exact meets_pure (.ended sub hmem hunlinked rfl)

/-- The two edits of `AssociateCombatSubmarines`, as one pass over the fleet. -/
theorem FleetOk.associate_edit (h : FleetOk fleet) {a b : CombatSubmarine}
    (hne : a.serialNumber ≠ b.serialNumber) :
    (fleet.edit a.serialNumber (.onCombat (·.addParticipant b.serialNumber))).edit b.serialNumber
        (.onCombat (·.addParticipant a.serialNumber)) =
      fleet.map (associateOf a.serialNumber b.serialNumber) := by
  have hkey : ∀ x : Submarine,
      (x.onCombat (·.addParticipant b.serialNumber)).serialNumber = x.serialNumber := by
    intro x
    apply onCombat_serialNumber
    exact fun c ↦ addParticipant_serialNumber c b.serialNumber
  unfold Fleet.edit
  rw [updateKey_eq_updateKeys h.linked.keys,
    updateKey_updateKeys hkey (List.mem_singleton.not.mpr hne.symm) h.linked.keys]
  apply List.map_congr_left
  intro x hx
  rw [associateOf]
  by_cases hxa : x.serialNumber = a.serialNumber
  · rw [if_pos hxa, if_neg (hxa ▸ hne), if_pos (List.mem_singleton.mpr hxa)]
  · rw [if_neg hxa]
    by_cases hxb : x.serialNumber = b.serialNumber
    · rw [if_pos hxb, if_pos hxb]
    · rw [if_neg hxb, if_neg hxb, if_neg (List.mem_singleton.not.mpr hxa)]

theorem FleetOk.associate_self (h : FleetOk fleet) {a : CombatSubmarine} (ha : .combat a ∈ fleet) :
    fleet.edit a.serialNumber (.onCombat (·.addParticipant a.serialNumber)) = fleet := by
  rw [h.edit_eq]
  refine (List.map_congr_left fun x hx ↦ ?_).trans (List.map_id fleet)
  by_cases hxa : x.serialNumber = a.serialNumber
  · obtain rfl := h.unique hx ha hxa
    rw [if_pos hxa]
    show Submarine.combat (a.addParticipant a.serialNumber) = .combat a
    rw [CombatSubmarine.addParticipant, if_pos rfl]
  · rw [if_neg hxa]
    rfl

theorem associateCombatSubmarines_effect (h : FleetOk fleet) :
    Meets fleet.associateCombatSubmarines (FleetEffect fleet .associateCombatSubmarines) (· = .hangs) := by
  unfold Fleet.associateCombatSubmarines
  apply meets_bind meets_promptLine
  intro serialA _
  cases hfindA : fleet.findCombat serialA with
  | none => exact meets_pure (.unchanged rfl rfl)
  | some a =>
      obtain ⟨ha, rfl⟩ := findCombat_some hfindA
      apply meets_ite
      · intro _
        exact meets_pure (.unchanged rfl rfl)
      · intro haLive
        apply meets_bind meets_promptLine
        intro serialB _
        cases hfindB : fleet.findCombat serialB with
        | none => exact meets_pure (.unchanged rfl rfl)
        | some b =>
            obtain ⟨hb, rfl⟩ := findCombat_some hfindB
            apply meets_ite
            · intro _
              exact meets_pure (.unchanged rfl rfl)
            · intro hbLive
              apply meets_pure
              by_cases hab : a.serialNumber = b.serialNumber
              · apply FleetEffect.unchanged
                · dsimp only
                  rw [← hab, h.associate_self ha, h.associate_self ha]
                · rfl
              · exact .associated a b ha hb hab (Decidable.of_not_not haLive)
                  (Decidable.of_not_not hbLive) (h.associate_edit hab) rfl

theorem sendMessage_effect (h : FleetOk fleet) :
    Meets fleet.sendMessage (FleetEffect fleet .sendMessage) (· = .hangs) := by
  unfold Fleet.sendMessage
  apply meets_bind meets_promptLine
  intro senderSerial _
  cases hfindA : fleet.findCombat senderSerial with
  | none => exact meets_pure (.unchanged rfl rfl)
  | some a =>
      obtain ⟨ha, rfl⟩ := findCombat_some hfindA
      apply meets_bind meets_promptLine
      intro receiverSerial _
      cases hfindB : fleet.findCombat receiverSerial with
      | none => exact meets_pure (.unchanged rfl rfl)
      | some b =>
          obtain ⟨hb, rfl⟩ := findCombat_some hfindB
          apply meets_ite
          · intro _
            exact meets_pure (.unchanged rfl rfl)
          · intro hparticipant
            have hmem : b.serialNumber ∈ a.participatingSubmarines :=
              List.contains_iff_mem.mp (Decidable.of_not_not hparticipant)
            apply meets_bind meets_promptLine
            intro content _
            apply meets_pure
            exact .sent a b content rfl ha hb hmem (h.edit_eq _ _) rfl

theorem displayReceivedMessages_effect (fleet : Fleet) :
    Meets fleet.displayReceivedMessages (FleetEffect fleet .displayReceivedMessages) (· = .hangs) := by
  unfold Fleet.displayReceivedMessages
  apply meets_bind meets_promptLine
  intro serial _
  cases fleet.findCombat serial with
  | none => exact meets_pure (.unchanged rfl rfl)
  | some c =>
      apply meets_ite
      · intro _
        exact meets_pure (.unchanged rfl rfl)
      · intro _
        exact meets_pure (.unchanged rfl rfl)

/-- A query moves the link and nothing else of a central computer. -/
theorem query_frame {α : Type} (cc : CentralComputer) (run : LncLink → QueryOut α) :
    (cc.query run).cc.connected = cc.connected ∧ (cc.query run).cc.haveLatest = cc.haveLatest := by
  unfold CentralComputer.query
  by_cases hconn : cc.connected
  · rw [if_pos hconn]
    exact ⟨rfl, rfl⟩
  · rw [if_neg hconn]
    exact ⟨rfl, rfl⟩

theorem queryHistory_frame (cc : CentralComputer) (startTime endTime : UInt32)
    (stack stack' : Nat → PageFrame) :
    let out := cc.queryHistory startTime endTime stack stack'
    out.cc.connected = cc.connected ∧ out.cc.haveLatest = cc.haveLatest := by
  have hfirst := query_frame cc (ccCoreGetMeasurements startTime endTime stack)
  rw [CentralComputer.queryHistory]
  dsimp only
  split_ifs
  · have hsecond := query_frame (cc.queryMeasurements startTime endTime stack).cc
      (ccCoreGetEvents startTime endTime stack')
    exact ⟨hsecond.1.trans hfirst.1, hsecond.2.trans hfirst.2⟩
  · exact hfirst

theorem viewHistoricalData_effect (h : FleetOk fleet) (world : FleetWorld) :
    Meets (fleet.viewHistoricalData world) (FleetEffect fleet .viewHistoricalData) (· = .hangs) := by
  unfold Fleet.viewHistoricalData
  apply meets_bind meets_promptLine
  intro serial _
  cases hfind : fleet.findCombat serial with
  | none => exact meets_pure (.unchanged rfl rfl)
  | some c =>
      apply meets_ite
      · intro _
        exact meets_pure (.unchanged rfl rfl)
      · intro _
        apply meets_bind meets_promptInt
        intro hoursBackStart _
        apply meets_bind meets_promptInt
        intro hoursBackEnd _
        apply meets_pure
        apply FleetEffect.quiet _ rfl
        apply h.edit_quiet (findCombat_findBySerial hfind)
        apply quiet_centralComputer
        · exact fun hconn ↦ (queryHistory_frame _ _ _ _ _).1.symm.trans hconn
        · intro hlink hlatest
          have hframe := queryHistory_frame c.centralComputer
          exact (hframe _ _ _ _).1.trans (hlink.cached ((hframe _ _ _ _).2.symm.trans hlatest))

/-- Whatever is chosen in the menu, the fleet sees one of the effects, and only an operation that
    hangs has no result. -/
theorem perform_effect (h : FleetOk fleet) (world : FleetWorld) (op : FleetOp) :
    Meets (fleet.perform world op) (FleetEffect fleet op) (· = .hangs) := by
  cases op with
  | addSubmarine => exact addSubmarine_effect fleet
  | displayAll => exact displayAll_effect fleet world
  | searchAndDisplay => exact searchAndDisplay_effect h world
  | assignMission => exact assignMission_effect h world
  | updateMissionDetails => exact updateMissionDetails_effect h
  | endMission => exact endMission_effect h
  | associateCombatSubmarines => exact associateCombatSubmarines_effect h
  | sendMessage => exact sendMessage_effect h
  | displayReceivedMessages => exact displayReceivedMessages_effect fleet
  | viewHistoricalData => exact viewHistoricalData_effect h world

end Operations

end SubmarineMonitor
