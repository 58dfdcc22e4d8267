import SubmarineMonitor.Reasoning.Network

/-!
# Host — a program that serves one visitor after another

Nothing is assumed of the visitors: their bytes come in any pieces, they leave room for what they are sent
or do not, and they hang up anywhere, while others append to the store that the program asks.  A signal can
end the program in a send to a visitor that has hung up.  What every whole action of the program keeps holds
at any time of what it has read, sent and been answered, but for the action it is in (`Keeps`,
`hostRun_holds`).
-/

namespace Reasoning

variable {σ β α ω : Type*}

/-! ## 1. Definitions -/

structure Visit (σ β α : Type*) where
  endpoint : Endpoint σ β α
  /-- All that the visitor has sent. -/
  arrived : List β := []
  /-- All that the program has sent. -/
  sent : List β := []
  hungUp : Bool := false

def Visit.begin (start : σ) : Visit σ β α := { endpoint := { state := start } }

def Visit.Ended (v : Visit σ β α) : Prop := v.hungUp = true ∧ v.endpoint.unread = []

def Visit.move (program : σ → Action σ β α) (answer : α) (room : Bool) (v : Visit σ β α) :
    Option (Visit σ β α) :=
  (v.endpoint.move program (fun _ ↦ answer) room v.hungUp).map fun r ↦
    { v with endpoint := r.1, sent := v.sent ++ r.2 }

def Visit.sendsToNobody (program : σ → Action σ β α) (v : Visit σ β α) : Bool :=
  match program v.endpoint.state with
  | .send data _ => v.hungUp && decide (v.endpoint.part.length < data.length)
  | .halt | .recv _ _ | .ask _ | .close _ => false

/-- The answer to a question is what has been recorded so far. -/
structure Host (σ β ω : Type*) where
  current : Visit σ β (List ω)
  past : List (Visit σ β (List ω)) := []
  history : List ω := []
  killed : Bool := false

def Host.visits (h : Host σ β ω) : List (Visit σ β (List ω)) := h.past ++ [h.current]

inductive HostEvent (β ω : Type*)
  | arrives (bytes : List β)
  | hangsUp
  | step (room : Bool)
  | record (w : ω)
  | accept
  | signal

def Host.next (program : Nat → σ → Action σ β (List ω)) (start : σ) (h : Host σ β ω) :
    HostEvent β ω → Host σ β ω
  | .arrives bytes =>
      let v := h.current
      if v.hungUp then h
      else { h with current := { v with endpoint := v.endpoint.receive bytes
                                        arrived := v.arrived ++ bytes } }
  | .hangsUp => { h with current := { h.current with hungUp := true } }
  | .step room =>
      match h.current.move (program h.past.length) h.history room with
      | none => h
      | some v => { h with current := v }
  | .record w => { h with history := h.history ++ [w] }
  | .accept =>
      if h.current.endpoint.closed then
        { h with current := .begin start, past := h.past ++ [h.current] }
      else h
  | .signal => { h with killed := h.current.sendsToNobody (program h.past.length) }

/-- Visitor number `k` meets `program k`.  An event that cannot happen, or cannot happen yet, changes
    nothing. -/
def hostStep (program : Nat → σ → Action σ β (List ω)) (start : σ) (h : Host σ β ω)
    (event : HostEvent β ω) : Host σ β ω × Unit :=
  (if h.killed then h else h.next program start event, ())

/-! ## 2. What whole actions keep -/

/-- A property of the state between two actions, of what has been read and sent in whole actions, and of the
    answers so far; its first argument says that nothing more will come.  The program closes to be done. -/
structure Keeps (program : σ → Action σ β α) (final : σ → Prop)
    (inv : Prop → σ → List β → List β → List α → Prop) : Prop where
  halts {s : σ} (hs : final s) : program s = .halt
  mono {ended ended' : Prop} {s : σ} {read sent : List β} {asked : List α} (himp : ended → ended')
    (h : inv ended s read sent asked) : inv ended' s read sent asked
  sends {ended : Prop} {s next : σ} {data read sent : List β} {asked : List α}
    (hs : program s = .send data next) (h : inv ended s read sent asked) :
    inv ended next read (sent ++ data) asked
  receives {ended : Prop} {s : σ} {count : Nat} {next : List β → σ} {bytes read sent : List β}
    {asked : List α} (hs : program s = .recv count next) (h : inv ended s read sent asked)
    (hle : bytes.length ≤ count) (hshort : bytes.length < count → ended) :
    inv ended (next bytes) (read ++ bytes) sent asked
  asks {ended : Prop} {s : σ} {next : α → σ} {a : α} {read sent : List β} {asked : List α}
    (hs : program s = .ask next) (h : inv ended s read sent asked) :
    inv ended (next a) read sent (asked ++ [a])
  closes {ended : Prop} {s next : σ} {read sent : List β} {asked : List α}
    (hs : program s = .close next) (h : inv ended s read sent asked) :
    inv ended next read sent asked ∧ final next

def Action.received (part : List β) : Action σ β α → List β
  | .recv _ _ => part
  | .halt | .send _ _ | .ask _ | .close _ => []

def Action.sent (part : List β) : Action σ β α → List β
  | .send _ _ => part
  | .halt | .recv _ _ | .ask _ | .close _ => []

def Action.Fits (part : List β) : Action σ β α → Prop
  | .send data _ => part <+: data
  | .recv count _ => part.length ≤ count
  | .halt | .ask _ | .close _ => part = []

theorem Action.fits_nil (a : Action σ β α) : a.Fits [] := by
  cases a with
  | send data next => exact List.nil_prefix
  | recv count next => exact Nat.zero_le count
  | halt => rfl
  | ask next => rfl
  | close next => rfl

theorem Action.received_nil (a : Action σ β α) : a.received [] = [] := by cases a <;> rfl

theorem Action.sent_nil (a : Action σ β α) : a.sent [] = [] := by cases a <;> rfl

/-- `inv` holds of the whole actions so far, and the rest is part of the current one. -/
structure Visit.Holds (program : σ → Action σ β α) (final : σ → Prop)
    (inv : Prop → σ → List β → List β → List α → Prop) (v : Visit σ β α) : Prop where
  reached : ∃ read sent, inv v.Ended v.endpoint.state read sent v.endpoint.answers ∧
    v.arrived = read ++ (program v.endpoint.state).received v.endpoint.part ++ v.endpoint.unread ∧
    v.sent = sent ++ (program v.endpoint.state).sent v.endpoint.part ∧
    (program v.endpoint.state).Fits v.endpoint.part
  closed : v.endpoint.closed = true → final v.endpoint.state

section Rules

variable {program : σ → Action σ β α} {final : σ → Prop}
  {inv : Prop → σ → List β → List β → List α → Prop} {v v' : Visit σ β α}

theorem Visit.holds_between {read sent : List β} (hpart : v.endpoint.part = [])
    (hinv : inv v.Ended v.endpoint.state read sent v.endpoint.answers)
    (harrived : v.arrived = read ++ v.endpoint.unread) (hsent : v.sent = sent)
    (hclosed : v.endpoint.closed = true → final v.endpoint.state) :
    v.Holds program final inv where
  reached := by
    refine ⟨read, sent, hinv, ?_, ?_, hpart ▸ Action.fits_nil _⟩
    · rw [hpart, Action.received_nil, List.append_nil, harrived]
    · rw [hpart, Action.sent_nil, List.append_nil, hsent]
  closed := hclosed

theorem prefix_snoc_of_getElem? {part data : List β} {b : β} (h : part <+: data)
    (hb : data[part.length]? = some b) : part ++ [b] <+: data := by
  obtain ⟨rest, rfl⟩ := h
  rw [List.getElem?_append_right (Nat.le_refl _), Nat.sub_self] at hb
  cases rest with
  | nil => cases hb
  | cons c rest =>
      cases hb
      exact ⟨rest, by rw [List.append_assoc, List.singleton_append]⟩

theorem Visit.Holds.move {answer : α} {room : Bool} (hkeeps : Keeps program final inv)
    (h : v.Holds program final inv) (hmove : v.move program answer room = some v') :
    v'.Holds program final inv := by
  obtain ⟨⟨e, out⟩, he, rfl⟩ := Option.map_eq_some_iff.mp hmove
  obtain ⟨read, sent, hinv, harrived, hsent, hfits⟩ := h.reached
  cases Endpoint.step_of_move he with
  | @sends data next b hs hopen hb hroom =>
      rw [hs] at harrived hsent hfits
      refine ⟨⟨read, sent, hinv, ?_, ?_, ?_⟩, h.closed⟩
      · rw [hs]
        exact harrived
      · rw [hs]
        show v.sent ++ [b] = sent ++ (v.endpoint.part ++ [b])
        rw [hsent, Action.sent, List.append_assoc]
      · rw [hs]
        exact prefix_snoc_of_getElem? hfits hb
  | @sent data next hs hopen hend =>
      rw [hs] at harrived hsent hfits
      have hall : v.endpoint.part = data :=
        List.IsPrefix.eq_of_length_le hfits (List.getElem?_eq_none_iff.mp hend)
      refine holds_between rfl (hkeeps.sends hs hinv) ?_ ?_
        fun hclosed ↦ Bool.noConfusion (hopen.symm.trans hclosed)
      · rw [harrived, Action.received, List.append_nil]
      · rw [List.append_nil, hsent, Action.sent, hall]
  | @received count next hs hopen hend =>
      rw [hs] at harrived hsent hfits
      refine holds_between rfl (hkeeps.receives hs hinv hfits fun hlt ↦ ?_) harrived ?_
        fun hclosed ↦ Bool.noConfusion (hopen.symm.trans hclosed)
      · exact absurd hend (Nat.not_le_of_lt hlt)
      · rw [List.append_nil, hsent, Action.sent, List.append_nil]
  | @receives count next b rest hs hopen hmore hunread =>
      rw [hs] at harrived hsent hfits
      -- the byte was there, so the connection had not ended; now it may have
      have hended : v.Ended → rest = [] := fun hv ↦ by
        have hnone := hunread.symm.trans hv.2
        cases hnone
      refine ⟨⟨read, sent, hkeeps.mono (fun hv ↦ ⟨hv.1, hended hv⟩) hinv, ?_, ?_, ?_⟩, h.closed⟩
      · rw [hs, harrived, hunread]
        simp only [Action.received, List.append_assoc, List.singleton_append]
      · rw [hs, List.append_nil]
        exact hsent
      · rw [hs]
        show (v.endpoint.part ++ [b]).length ≤ count
        rw [List.length_append, List.length_singleton]
        omega
  | @ended count next hs hopen hmore hunread hpeer =>
      rw [hs] at harrived hsent hfits
      refine holds_between rfl (hkeeps.receives hs hinv hfits fun _ ↦ ⟨hpeer, hunread⟩) harrived ?_
        fun hclosed ↦ Bool.noConfusion (hopen.symm.trans hclosed)
      rw [List.append_nil, hsent, Action.sent, List.append_nil]
  | @asks next hs =>
      -- a question is one step, so nothing of the action was done before
      rw [hs] at harrived hsent hfits
      refine holds_between hfits (hkeeps.asks hs hinv) ?_ ?_ fun hclosed ↦ ?_
      · rw [harrived, Action.received, List.append_nil]
      · rw [List.append_nil, hsent, Action.sent, List.append_nil]
      · rw [hkeeps.halts (h.closed hclosed)] at hs
        cases hs
  | @closes next hs =>
      rw [hs] at harrived hsent hfits
      obtain ⟨hnext, hfinal⟩ := hkeeps.closes hs hinv
      refine holds_between hfits hnext ?_ ?_ fun _ ↦ hfinal
      · rw [harrived, Action.received, List.append_nil]
      · rw [List.append_nil, hsent, Action.sent, List.append_nil]

theorem Visit.move_answers {answer : α} {room : Bool} (hmove : v.move program answer room = some v') :
    v'.endpoint.answers = v.endpoint.answers ∨
      v'.endpoint.answers = v.endpoint.answers ++ [answer] := by
  obtain ⟨⟨e, out⟩, he, rfl⟩ := Option.map_eq_some_iff.mp hmove
  exact (Endpoint.step_of_move he).answers

/-- With room for what it sends, a program that cannot step is done, or waits for its visitor. -/
theorem Visit.Holds.waits {answer : α} (hkeeps : Keeps program final inv)
    (h : v.Holds program final inv) (hstuck : v.move program answer true = none) :
    program v.endpoint.state = .halt ∨
      ∃ count next, program v.endpoint.state = .recv count next ∧
        v.endpoint.part.length < count ∧ v.endpoint.unread = [] ∧ v.hungUp = false := by
  have hnone : ∀ {e : Endpoint σ β α} {out : List β},
      ¬ v.endpoint.Step program (fun _ ↦ answer) true v.hungUp e out := fun hstep ↦ by
    rw [Visit.move, hstep.move_eq] at hstuck
    cases hstuck
  by_cases hclosed : v.endpoint.closed = true
  · exact .inl (hkeeps.halts (h.closed hclosed))
  · have hopen : v.endpoint.closed = false := Bool.eq_false_iff.mpr hclosed
    cases hs : program v.endpoint.state with
    | halt => exact .inl rfl
    | ask next => exact (hnone (.asks hs)).elim
    | close next => exact (hnone (.closes hs)).elim
    | send data next =>
        cases hb : data[v.endpoint.part.length]? with
        | none => exact (hnone (.sent hs hopen hb)).elim
        | some b => exact (hnone (.sends hs hopen hb rfl)).elim
    | recv count next =>
        by_cases hfull : count ≤ v.endpoint.part.length
        · exact (hnone (.received hs hopen hfull)).elim
        · cases hunread : v.endpoint.unread with
          | cons b rest => exact (hnone (.receives hs hopen hfull hunread)).elim
          | nil =>
              refine .inr ⟨count, next, rfl, Nat.lt_of_not_le hfull, rfl,
                Bool.eq_false_iff.mpr fun hpeer ↦ ?_⟩
              exact (hnone (.ended hs hopen hfull hunread hpeer)).elim

end Rules

/-! ## 3. Every run -/

section Runs

variable {program : Nat → σ → Action σ β (List ω)} {start : σ} {final : σ → Prop}
  {inv : Prop → σ → List β → List β → List (List ω) → Prop} {h : Host σ β ω}

def Host.answers (h : Host σ β ω) : List (List ω) := h.visits.flatMap (·.endpoint.answers)

structure Host.Holds (program : Nat → σ → Action σ β (List ω)) (final : σ → Prop)
    (inv : Prop → σ → List β → List β → List (List ω) → Prop) (h : Host σ β ω) : Prop where
  current : h.current.Holds (program h.past.length) final inv
  past : ∀ v ∈ h.past, v.endpoint.closed = true ∧ ∃ k, v.Holds (program k) final inv
  inOrder : h.answers.Pairwise (· <+: ·)
  recorded : ∀ a ∈ h.answers, a <+: h.history
  killed : h.killed = true → h.current.sendsToNobody (program h.past.length) = true

theorem Host.answers_eq (h : Host σ β ω) :
    h.answers = h.past.flatMap (·.endpoint.answers) ++ h.current.endpoint.answers := by
  rw [answers, visits, List.flatMap_append, List.flatMap_singleton]

theorem Visit.begin_holds {program : σ → Action σ β α}
    {inv : Prop → σ → List β → List β → List α → Prop} (hkeeps : Keeps program final inv)
    (hstart : inv False start [] [] []) : (Visit.begin start).Holds program final inv :=
  holds_between rfl (hkeeps.mono False.elim hstart) rfl rfl fun hclosed ↦ Bool.noConfusion hclosed

theorem Host.Holds.visit {v : Visit σ β (List ω)} (hh : h.Holds program final inv)
    (hgoes : h.killed = false) (hv : v.Holds (program h.past.length) final inv)
    (hanswers : v.endpoint.answers = h.current.endpoint.answers) :
    ({ h with current := v } : Host σ β ω).Holds program final inv := by
  have hsame : ({ h with current := v } : Host σ β ω).answers = h.answers := by
    rw [answers_eq, answers_eq, hanswers]
  exact ⟨hv, hh.past, hsame ▸ hh.inOrder, hsame ▸ hh.recorded,
    fun hkilled ↦ Bool.noConfusion (hgoes.symm.trans hkilled)⟩

theorem Host.Holds.next (hkeeps : ∀ k, Keeps (program k) final inv) (hstart : inv False start [] [] [])
    (hh : h.Holds program final inv) (hgoes : h.killed = false) (event : HostEvent β ω) :
    (h.next program start event).Holds program final inv := by
  obtain ⟨read, sent, hinv, harrived, hsent, hfits⟩ := hh.current.reached
  have halive : ∀ {h' : Host σ β ω}, h'.killed = h.killed → h'.killed = true →
      h'.current.sendsToNobody (program h'.past.length) = true := fun hsame hkilled ↦
    Bool.noConfusion ((hgoes.symm.trans hsame.symm).trans hkilled)
  cases event with
  | arrives bytes =>
      rw [Host.next]
      by_cases hup : h.current.hungUp
      · rw [if_pos hup]
        exact hh
      · rw [if_neg hup]
        refine hh.visit hgoes ⟨⟨read, sent, ?_, ?_, hsent, hfits⟩, hh.current.closed⟩ rfl
        · exact (hkeeps h.past.length).mono (fun hended ↦ absurd hended.1 hup) hinv
        · rw [harrived, List.append_assoc]
          rfl
  | hangsUp =>
      refine hh.visit hgoes ⟨⟨read, sent, ?_, harrived, hsent, hfits⟩, hh.current.closed⟩ rfl
      exact (hkeeps h.past.length).mono (fun hended ↦ ⟨rfl, hended.2⟩) hinv
  | step room =>
      rw [Host.next]
      cases hmove : h.current.move (program h.past.length) h.history room with
      | none => exact hh
      | some v =>
          have hv := hh.current.move (hkeeps _) hmove
          rcases Visit.move_answers hmove with hsame | hasked
          · exact hh.visit hgoes hv hsame
          -- the answer is all that has been recorded, so it is behind every earlier one
          · have hanswers : ({ h with current := v } : Host σ β ω).answers = h.answers ++ [h.history] := by
              rw [answers_eq, answers_eq, hasked, List.append_assoc]
            refine ⟨hv, hh.past, ?_, ?_, halive rfl⟩
            · rw [hanswers]
              refine List.pairwise_append.mpr ⟨hh.inOrder, List.pairwise_singleton _ _, ?_⟩
              exact fun a ha b hb ↦ List.mem_singleton.mp hb ▸ hh.recorded a ha
            · rw [hanswers]
              exact List.forall_mem_append.mpr
                ⟨hh.recorded, List.forall_mem_singleton.mpr (List.prefix_refl _)⟩
  | record w =>
      exact ⟨hh.current, hh.past, hh.inOrder,
        fun a ha ↦ (hh.recorded a ha).trans (List.prefix_append _ _), halive rfl⟩
  | accept =>
      rw [Host.next]
      by_cases hclosed : h.current.endpoint.closed
      · rw [if_pos hclosed]
        have hanswers : ({ h with current := .begin start, past := h.past ++ [h.current] } :
            Host σ β ω).answers = h.answers := by
          rw [answers_eq, answers, visits]
          exact List.append_nil _
        refine ⟨Visit.begin_holds (hkeeps _) hstart, ?_, hanswers ▸ hh.inOrder,
          hanswers ▸ hh.recorded, halive rfl⟩
        exact List.forall_mem_append.mpr
          ⟨hh.past, List.forall_mem_singleton.mpr ⟨hclosed, _, hh.current⟩⟩
      · rw [if_neg hclosed]
        exact hh
  | signal => exact ⟨hh.current, hh.past, hh.inOrder, hh.recorded, id⟩

theorem Host.Holds.step (hkeeps : ∀ k, Keeps (program k) final inv) (hstart : inv False start [] [] [])
    (hh : h.Holds program final inv) (event : HostEvent β ω) :
    (hostStep program start h event).1.Holds program final inv := by
  rw [hostStep]
  by_cases hkilled : h.killed = true
  · rw [if_pos hkilled]
    exact hh
  · rw [if_neg hkilled]
    exact hh.next hkeeps hstart (Bool.eq_false_iff.mpr hkilled) event

theorem hostRun_holds (hkeeps : ∀ k, Keeps (program k) final inv) (hstart : inv False start [] [] [])
    (events : List (HostEvent β ω)) :
    (runState (hostStep program start) { current := .begin start } events).Holds program final inv := by
  have hbegin : ({ current := .begin start } : Host σ β ω).Holds program final inv :=
    { current := Visit.begin_holds (hkeeps _) hstart
      past := fun v hv ↦ absurd hv List.not_mem_nil
      inOrder := List.Pairwise.nil
      recorded := fun a ha ↦ absurd ha List.not_mem_nil
      killed := fun hkilled ↦ Bool.noConfusion hkilled }
  exact (@run_invariant _ _ _ (hostStep program start) (fun _ _ ↦ True) (Host.Holds program final inv)
    (fun h event hh _ ↦ hh.step hkeeps hstart event) _ events hbegin fun _ _ ↦ trivial).1

end Runs

end Reasoning
