import SubmarineMonitor.Reasoning.Network

/-!
# OpenNetwork — two programs that ask a store while others append to it

What a question is answered depends on when it is asked, so runs no longer end alike.  Without what others
record a run is still one of the two parties, for the answers they were given; what holds of these for any
answers holds of every run (`System.completes`).
-/

namespace Reasoning

variable {σ τ β α ω : Type*}

/-! ## 1. Definitions -/

/-- The two parties, and what has been recorded so far; this is the answer to a question. -/
structure System (σ τ β ω : Type*) where
  net : Network σ τ β (List ω)
  history : List ω

inductive Event (ω : Type*)
  | move (p : Party)
  | record (w : ω)

def Event.party : Event ω → Option Party
  | .move p => some p
  | .record _ => none

section Open

variable (P : Programs σ τ β (List ω))

def System.act (sys : System σ τ β ω) : Event ω → Option (System σ τ β ω)
  | .move p => (sys.net.act P (fun _ _ ↦ sys.history) p).map fun net ↦ { sys with net := net }
  | .record w => some { sys with history := sys.history ++ [w] }

def Network.answers (net : Network σ τ β α) : Party → List α
  | .left => net.left.answers
  | .right => net.right.answers

def Agrees (answer : Party → Nat → α) (net : Network σ τ β α) : Prop :=
  ∀ q k a, (net.answers q)[k]? = some a → answer q k = a

/-- Each answer is what had been recorded when it was given. -/
def System.Witnessed (sys : System σ τ β ω) : Prop :=
  ∀ q, (sys.net.answers q).Pairwise (· <+: ·) ∧ ∀ a ∈ sys.net.answers q, a <+: sys.history

section Answers

variable {Q : Programs σ τ β α} {answer answer' : Party → Nat → α} {net net' : Network σ τ β α}
  {p : Party}

theorem Network.answers_act (h : net.act Q answer p = some net') (q : Party) :
    net'.answers q = net.answers q ∨
      net'.answers q = net.answers q ++ [answer q (net.answers q).length] := by
  cases p with
  | left =>
      obtain ⟨e, out, hstep, rfl⟩ := act_left.mp h
      cases q with
      | left => exact hstep.answers
      | right => exact .inl rfl
  | right =>
      obtain ⟨e, out, hstep, rfl⟩ := act_right.mp h
      cases q with
      | left => exact .inl rfl
      | right => exact hstep.answers

theorem Endpoint.Step.congr {program : σ → Action σ β α} {answer answer' : Nat → α}
    {room peerClosed : Bool} {e e' : Endpoint σ β α} {out : List β}
    (h : e.Step program answer room peerClosed e' out)
    (hsame : e'.answers ≠ e.answers → answer' e.answers.length = answer e.answers.length) :
    e.Step program answer' room peerClosed e' out := by
  cases h with
  | asks h =>
      rw [← hsame fun heq ↦ by simpa using congrArg List.length heq]
      exact .asks h
  | sends h hopen hb hroom => exact .sends h hopen hb hroom
  | sent h hopen hend => exact .sent h hopen hend
  | received h hopen hend => exact .received h hopen hend
  | receives h hopen hmore hunread => exact .receives h hopen hmore hunread
  | ended h hopen hmore hunread hpeer => exact .ended h hopen hmore hunread hpeer
  | closes h => exact .closes h

/-- A step is the same for other answers, as long as they answer what it asks alike. -/
theorem Network.act_congr (h : net.act Q answer p = some net')
    (hsame : ∀ q, net'.answers q ≠ net.answers q →
      answer' q (net.answers q).length = answer q (net.answers q).length) :
    net.act Q answer' p = some net' := by
  cases p with
  | left =>
      obtain ⟨e, out, hstep, rfl⟩ := act_left.mp h
      exact act_left.mpr ⟨e, out, hstep.congr (hsame .left), rfl⟩
  | right =>
      obtain ⟨e, out, hstep, rfl⟩ := act_right.mp h
      exact act_right.mpr ⟨e, out, hstep.congr (hsame .right), rfl⟩

theorem Agrees.grows (h : Agrees answer net') (hgrow : ∀ q, net.answers q <+: net'.answers q) :
    Agrees answer net := by
  intro q k a ha
  obtain ⟨later, hlater⟩ := hgrow q
  refine h q k a ?_
  rw [← hlater, List.getElem?_append_left (List.getElem?_eq_some_iff.mp ha).1]
  exact ha

end Answers

section Runs

variable {P} {sys sys' : System σ τ β ω}

theorem System.answers_grow {events : List (Event ω)}
    (h : events.foldlM (System.act P) sys = some sys') (q : Party) :
    sys.net.answers q <+: sys'.net.answers q := by
  have hstep : ∀ (s : System σ τ β ω) event s', sys.net.answers q <+: s.net.answers q →
      s.act P event = some s' → sys.net.answers q <+: s'.net.answers q := by
    intro s event s' hs hact
    cases event with
    | record w =>
        cases hact
        exact hs
    | move p =>
        obtain ⟨net, hnet, rfl⟩ := Option.map_eq_some_iff.mp hact
        rcases Network.answers_act hnet q with hsame | hsame
        · exact hsame ▸ hs
        · exact hsame ▸ hs.trans (List.prefix_append _ _)
  exact foldlM_invariant hstep (List.prefix_refl _) h

/-- Without what others record, a run is one of the two parties, for any answers that agree with those
    they were given. -/
theorem System.run_net {answer : Party → Nat → List ω} {events : List (Event ω)}
    (h : events.foldlM (System.act P) sys = some sys') (hagrees : Agrees answer sys'.net) :
    (events.filterMap Event.party).foldlM (Network.act P answer) sys.net = some sys'.net := by
  induction events generalizing sys with
  | nil =>
      cases h
      rfl
  | cons event events ih =>
      rw [List.foldlM_cons, Option.bind_eq_bind, Option.bind_eq_some_iff] at h
      obtain ⟨next, hact, h⟩ := h
      cases event with
      | record w =>
          cases hact
          exact @ih { sys with history := sys.history ++ [w] } h
      | move p =>
          obtain ⟨net, hnet, rfl⟩ := Option.map_eq_some_iff.mp hact
          have hnext : Agrees answer net := hagrees.grows (answers_grow h)
          have hact' : sys.net.act P answer p = some net := by
            refine Network.act_congr hnet fun q hne ↦ ?_
            rcases Network.answers_act hnet q with hsame | hsame
            · exact absurd hsame hne
            · refine hnext q _ _ ?_
              rw [hsame, List.getElem?_append_right (Nat.le_refl _), Nat.sub_self]
              rfl
          rw [List.filterMap_cons, Event.party, List.foldlM_cons, hact']
          exact ih h

/-- Steps of the two parties alone, when every further question is answered with what has been recorded
    so far. -/
theorem System.run_moves {answer : Party → Nat → List ω} {history : List ω} {is : List Party}
    {net net' : Network σ τ β (List ω)} (h : is.foldlM (Network.act P answer) net = some net')
    (hanswer : ∀ q k, (net.answers q).length ≤ k → answer q k = history) :
    (is.map Event.move).foldlM (System.act P) ⟨net, history⟩ = some ⟨net', history⟩ := by
  induction is generalizing net with
  | nil =>
      cases h
      rfl
  | cons p is ih =>
      rw [List.foldlM_cons, Option.bind_eq_bind, Option.bind_eq_some_iff] at h
      obtain ⟨next, hact, h⟩ := h
      have hnow : net.act P (fun _ _ ↦ history) p = some next :=
        Network.act_congr hact fun q _ ↦ (hanswer q _ (Nat.le_refl _)).symm
      rw [List.map_cons, List.foldlM_cons, System.act, hnow]
      refine ih h fun q k hk ↦ hanswer q k (Nat.le_trans ?_ hk)
      rcases Network.answers_act hact q with hsame | hsame
      · exact Nat.le_of_eq (congrArg List.length hsame.symm)
      · rw [hsame, List.length_append]
        exact Nat.le_add_right _ _

theorem System.Witnessed.act {event : Event ω} (h : sys.Witnessed)
    (hact : sys.act P event = some sys') : sys'.Witnessed := by
  intro q
  obtain ⟨hchain, hall⟩ := h q
  cases event with
  | record w =>
      cases hact
      exact ⟨hchain, fun a ha ↦ (hall a ha).trans (List.prefix_append _ _)⟩
  | move p =>
      obtain ⟨net, hnet, rfl⟩ := Option.map_eq_some_iff.mp hact
      rcases Network.answers_act hnet q with hsame | hsame
      · exact hsame ▸ ⟨hchain, hall⟩
      · rw [hsame]
        refine ⟨List.pairwise_append.mpr ⟨hchain, List.pairwise_singleton _ _, ?_⟩, ?_⟩
        · intro a ha b hb
          rw [List.mem_singleton.mp hb]
          exact hall a ha
        · intro a ha
          rcases List.mem_append.mp ha with ha | ha
          · exact hall a ha
          · exact List.mem_singleton.mp ha ▸ List.prefix_refl _

/-- If the two parties come to an end whatever they are answered, then in any order of their steps, and
    whatever is recorded meanwhile, they have a bounded number of steps, nothing is lost, and they can
    still come to an end from wherever they are. -/
theorem System.completes {bound : Nat} {net : Network σ τ β (List ω)}
    {good : Network σ τ β (List ω) → Prop}
    (hends : ∀ answer, ∃ n ≤ bound, ∃ t, Leads (Network.act P answer) n net t ∧
      Stuck (Network.act P answer) t ∧ ¬ t.Lost ∧ good t)
    (hnone : ∀ q, net.answers q = []) {events : List (Event ω)} {history : List ω}
    (h : events.foldlM (System.act P) ⟨net, history⟩ = some sys) :
    (events.filterMap Event.party).length ≤ bound ∧ ¬ sys.net.Lost ∧
      ∃ (rest : List Party) (t : Network σ τ β (List ω)),
        (rest.map Event.move).foldlM (System.act P) sys = some ⟨t, sys.history⟩ ∧
          System.Witnessed ⟨t, sys.history⟩ ∧ good t ∧
            ((∀ p, sys.act P (.move p) = none) → sys.net = t) := by
  -- further questions would be answered with what has been recorded
  let answer : Party → Nat → List ω := fun q k ↦ ((sys.net.answers q)[k]?).getD sys.history
  have hagrees : Agrees answer sys.net := fun q k a ha ↦ by
    show ((sys.net.answers q)[k]?).getD sys.history = a
    rw [ha, Option.getD_some]
  obtain ⟨n, hn, t, hleads, hstuck, hlost, hgood⟩ := hends answer
  obtain ⟨hlen, ⟨rest, -, hrun⟩, -⟩ :=
    Network.commute.decides hleads hstuck (System.run_net h hagrees)
  have hfinish : (rest.map Event.move).foldlM (System.act P) sys = some ⟨t, sys.history⟩ := by
    refine System.run_moves hrun fun q k hk ↦ ?_
    show ((sys.net.answers q)[k]?).getD sys.history = sys.history
    rw [List.getElem?_eq_none hk, Option.getD_none]
  have hstart : System.Witnessed ⟨net, history⟩ := by
    intro q
    dsimp only
    rw [hnone q]
    exact ⟨List.Pairwise.nil, fun a ha ↦ absurd ha List.not_mem_nil⟩
  have hkeep : ∀ s (event : Event ω) s', System.Witnessed s → s.act P event = some s' →
      s'.Witnessed := fun s event s' hs hact ↦ hs.act hact
  refine ⟨by omega, fun hl ↦ hlost (foldlM_invariant (fun s p s' hs ↦ hs.act) hl hrun), rest, t,
    hfinish, foldlM_invariant hkeep (foldlM_invariant hkeep hstart h) hfinish, hgood,
    fun hnomove ↦ ?_⟩
  cases rest with
  | nil => exact congrArg System.net (Option.some.inj hfinish)
  | cons p rest =>
      rw [List.map_cons, List.foldlM_cons, hnomove p] at hfinish
      cases hfinish

end Runs

end Open

end Reasoning
