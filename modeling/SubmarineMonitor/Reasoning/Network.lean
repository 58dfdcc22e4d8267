import SubmarineMonitor.Reasoning.Schedules

/-!
# Network — two programs over one connection

A connection carries bytes both ways, in order, through a buffer of limited size on either side.  A program
sends bytes, waits for a number of them, closes, or asks a store that others append to meanwhile; its steps
are those of single bytes, so nothing is assumed of how the bytes are cut up on their way.  The steps of the
two programs commute, and a run that comes to an end therefore decides all others.
-/

namespace Reasoning

variable {σ τ β α ω : Type*}

/-! ## 1. One party -/

/-- What a program does next.  `recv` waits for all its bytes, and returns fewer when the peer has closed. -/
inductive Action (σ β α : Type*)
  | halt
  | send (data : List β) (next : σ)
  | recv (count : Nat) (next : List β → σ)
  | ask (next : α → σ)
  | close (next : σ)

structure Endpoint (σ β α : Type*) where
  state : σ
  /-- The bytes that the current action has sent or received so far. -/
  part : List β := []
  /-- What has arrived and has not been received. -/
  unread : List β := []
  closed : Bool := false
  answers : List α := []

/-- One step of a program, and the bytes it sends in it; question number `k` is answered with `answer k`.
    `none` when the program has to wait, or is done. -/
def Endpoint.move (program : σ → Action σ β α) (answer : Nat → α) (room peerClosed : Bool)
    (e : Endpoint σ β α) : Option (Endpoint σ β α × List β) :=
  match program e.state with
  | .halt => none
  | .send data next =>
      if e.closed then none
      else
        match data[e.part.length]? with
        | some b => if room then some ({ e with part := e.part ++ [b] }, [b]) else none
        | none => some ({ e with state := next, part := [] }, [])
  | .recv count next =>
      if e.closed then none
      else if count ≤ e.part.length then some ({ e with state := next e.part, part := [] }, [])
      else
        match e.unread with
        | b :: rest => some ({ e with part := e.part ++ [b], unread := rest }, [])
        | [] =>
            -- the stream ends before all bytes have come
            if peerClosed then some ({ e with state := next e.part, part := [] }, []) else none
  | .ask next =>
      some ({ e with state := next (answer e.answers.length),
                     answers := e.answers ++ [answer e.answers.length] }, [])
  | .close next => some ({ e with state := next, closed := true }, [])

def Endpoint.receive (e : Endpoint σ β α) (bytes : List β) : Endpoint σ β α :=
  { e with unread := e.unread ++ bytes }

section Move

variable {program : σ → Action σ β α} {answer : Nat → α} {room peerClosed : Bool}
  {e e' : Endpoint σ β α} {out : List β}

inductive Endpoint.Step (program : σ → Action σ β α) (answer : Nat → α) (room peerClosed : Bool)
    (e : Endpoint σ β α) : Endpoint σ β α → List β → Prop
  | sends {data next b} (h : program e.state = .send data next) (hopen : e.closed = false)
      (hb : data[e.part.length]? = some b) (hroom : room = true) :
      Step program answer room peerClosed e { e with part := e.part ++ [b] } [b]
  | sent {data next} (h : program e.state = .send data next) (hopen : e.closed = false)
      (hend : data[e.part.length]? = none) :
      Step program answer room peerClosed e { e with state := next, part := [] } []
  | received {count next} (h : program e.state = .recv count next) (hopen : e.closed = false)
      (hend : count ≤ e.part.length) :
      Step program answer room peerClosed e { e with state := next e.part, part := [] } []
  | receives {count next b rest} (h : program e.state = .recv count next) (hopen : e.closed = false)
      (hmore : ¬ count ≤ e.part.length) (hunread : e.unread = b :: rest) :
      Step program answer room peerClosed e { e with part := e.part ++ [b], unread := rest } []
  | ended {count next} (h : program e.state = .recv count next) (hopen : e.closed = false)
      (hmore : ¬ count ≤ e.part.length) (hunread : e.unread = []) (hpeer : peerClosed = true) :
      Step program answer room peerClosed e { e with state := next e.part, part := [] } []
  | asks {next} (h : program e.state = .ask next) :
      Step program answer room peerClosed e
        { e with state := next (answer e.answers.length),
                 answers := e.answers ++ [answer e.answers.length] } []
  | closes {next} (h : program e.state = .close next) :
      Step program answer room peerClosed e { e with state := next, closed := true } []

theorem Endpoint.Step.move_eq (h : e.Step program answer room peerClosed e' out) :
    e.move program answer room peerClosed = some (e', out) := by
  cases h with
  | sends h hopen hb hroom =>
      rw [move, h]
      dsimp only
      rw [hopen, if_neg Bool.false_ne_true, hb]
      exact if_pos hroom
  | sent h hopen hend =>
      rw [move, h]
      dsimp only
      rw [hopen, if_neg Bool.false_ne_true, hend]
  | received h hopen hend =>
      rw [move, h]
      dsimp only
      rw [hopen, if_neg Bool.false_ne_true, if_pos hend]
  | receives h hopen hmore hunread =>
      rw [move, h]
      dsimp only
      rw [hopen, if_neg Bool.false_ne_true, if_neg hmore, hunread]
  | ended h hopen hmore hunread hpeer =>
      rw [move, h]
      dsimp only
      rw [hopen, if_neg Bool.false_ne_true, if_neg hmore, hunread]
      exact if_pos hpeer
  | asks h => rw [move, h]
  | closes h => rw [move, h]

theorem Endpoint.step_of_move (h : e.move program answer room peerClosed = some (e', out)) :
    e.Step program answer room peerClosed e' out := by
  rw [move] at h
  cases hp : program e.state with
  | halt =>
      rw [hp] at h
      cases h
  | send data next =>
      rw [hp] at h
      dsimp only at h
      by_cases hclosed : e.closed
      · rw [if_pos hclosed] at h
        cases h
      · have hopen := Bool.eq_false_iff.mpr hclosed
        rw [if_neg hclosed] at h
        cases hb : data[e.part.length]? with
        | none =>
            rw [hb] at h
            cases h
            exact .sent hp hopen hb
        | some b =>
            rw [hb] at h
            dsimp only at h
            split_ifs at h with hroom
            cases h
            exact .sends hp hopen hb hroom
  | recv count next =>
      rw [hp] at h
      dsimp only at h
      by_cases hclosed : e.closed
      · rw [if_pos hclosed] at h
        cases h
      · have hopen := Bool.eq_false_iff.mpr hclosed
        rw [if_neg hclosed] at h
        by_cases hfull : count ≤ e.part.length
        · rw [if_pos hfull] at h
          cases h
          exact .received hp hopen hfull
        · rw [if_neg hfull] at h
          -- what is unread is part of the state that the step leaves
          cases e with
          | mk state part unread closed answers =>
              cases unread with
              | cons b rest =>
                  cases h
                  exact .receives hp hopen hfull rfl
              | nil =>
                  dsimp only at h
                  split_ifs at h with hpeer
                  cases h
                  exact .ended hp hopen hfull rfl hpeer
  | ask next =>
      rw [hp] at h
      cases h
      exact .asks hp
  | close next =>
      rw [hp] at h
      cases h
      exact .closes hp

/-- Bytes that arrive, and room that is made, change nothing in what a step does. -/
theorem Endpoint.Step.receive {room' peerClosed' : Bool} {bytes : List β}
    (h : e.Step program answer room peerClosed e' out) (hroom : room = true → room' = true)
    (hpeer : peerClosed = true → peerClosed' = true ∧ bytes = []) :
    (e.receive bytes).Step program answer room' peerClosed' (e'.receive bytes) out := by
  cases h with
  | sends h hopen hb hr => exact .sends h hopen hb (hroom hr)
  | sent h hopen hend => exact .sent h hopen hend
  | received h hopen hend => exact .received h hopen hend
  | @receives count next b rest h hopen hmore hunread =>
      have hread : (e.receive bytes).unread = b :: (rest ++ bytes) := by
        rw [Endpoint.receive, hunread, List.cons_append]
      exact .receives h hopen hmore hread
  | ended h hopen hmore hunread hp =>
      obtain ⟨hp', rfl⟩ := hpeer hp
      refine .ended h hopen hmore ?_ hp'
      rw [Endpoint.receive, hunread, List.append_nil]
  | asks h => exact .asks h
  | closes h => exact .closes h

theorem Endpoint.Step.closed (h : e.Step program answer room peerClosed e' out)
    (hclosed : e.closed = true) : e'.closed = true ∧ e'.unread = e.unread ∧ out = [] := by
  cases h with
  | asks h => exact ⟨hclosed, rfl, rfl⟩
  | closes h => exact ⟨rfl, rfl, rfl⟩
  | sends _ hopen => exact Bool.noConfusion (hclosed.symm.trans hopen)
  | sent _ hopen => exact Bool.noConfusion (hclosed.symm.trans hopen)
  | received _ hopen => exact Bool.noConfusion (hclosed.symm.trans hopen)
  | receives _ hopen => exact Bool.noConfusion (hclosed.symm.trans hopen)
  | ended _ hopen => exact Bool.noConfusion (hclosed.symm.trans hopen)

theorem Endpoint.Step.unread_length_le (h : e.Step program answer room peerClosed e' out) :
    e'.unread.length ≤ e.unread.length := by
  cases h with
  | receives h hopen hmore hunread =>
      rw [hunread]
      exact Nat.le_succ _
  | sends => exact Nat.le_refl _
  | sent => exact Nat.le_refl _
  | received => exact Nat.le_refl _
  | ended => exact Nat.le_refl _
  | asks => exact Nat.le_refl _
  | closes => exact Nat.le_refl _

/-- A question is answered at the end of the answers so far. -/
theorem Endpoint.Step.answers (h : e.Step program answer room peerClosed e' out) :
    e'.answers = e.answers ∨ e'.answers = e.answers ++ [answer e.answers.length] := by
  cases h with
  | asks h => exact .inr rfl
  | sends => exact .inl rfl
  | sent => exact .inl rfl
  | received => exact .inl rfl
  | receives => exact .inl rfl
  | ended => exact .inl rfl
  | closes => exact .inl rfl

end Move

/-! ## 2. Two parties -/

inductive Party
  | left
  | right
  deriving DecidableEq, Repr

structure Network (σ τ β α : Type*) where
  left : Endpoint σ β α
  right : Endpoint τ β α

/-- The programs of the two parties, and how many unread bytes each of them can hold. -/
structure Programs (σ τ β α : Type*) where
  left : σ → Action σ β α
  right : τ → Action τ β α
  leftRoom : Nat
  rightRoom : Nat

section Act

variable (P : Programs σ τ β α) (answer : Party → Nat → α)

def Network.act (net : Network σ τ β α) : Party → Option (Network σ τ β α)
  | .left =>
      (net.left.move P.left (answer .left) (decide (net.right.unread.length < P.rightRoom))
        net.right.closed).map fun r ↦ { left := r.1, right := net.right.receive r.2 }
  | .right =>
      (net.right.move P.right (answer .right) (decide (net.left.unread.length < P.leftRoom))
        net.left.closed).map fun r ↦ { left := net.left.receive r.2, right := r.1 }

variable {P answer} {net net' : Network σ τ β α}

theorem Network.act_left :
    net.act P answer .left = some net' ↔
      ∃ e out, net.left.Step P.left (answer .left) (decide (net.right.unread.length < P.rightRoom))
        net.right.closed e out ∧ net' = { left := e, right := net.right.receive out } := by
  rw [act, Option.map_eq_some_iff]
  constructor
  · rintro ⟨⟨e, out⟩, hmove, rfl⟩
    exact ⟨e, out, Endpoint.step_of_move hmove, rfl⟩
  · rintro ⟨e, out, hstep, rfl⟩
    exact ⟨(e, out), hstep.move_eq, rfl⟩

theorem Network.act_right :
    net.act P answer .right = some net' ↔
      ∃ e out, net.right.Step P.right (answer .right) (decide (net.left.unread.length < P.leftRoom))
        net.left.closed e out ∧ net' = { left := net.left.receive out, right := e } := by
  rw [act, Option.map_eq_some_iff]
  constructor
  · rintro ⟨⟨e, out⟩, hmove, rfl⟩
    exact ⟨e, out, Endpoint.step_of_move hmove, rfl⟩
  · rintro ⟨e, out, hstep, rfl⟩
    exact ⟨(e, out), hstep.move_eq, rfl⟩

theorem Network.act_both {l r : Network σ τ β α} (hl : net.act P answer .left = some l)
    (hr : net.act P answer .right = some r) :
    ∃ both, l.act P answer .right = some both ∧ r.act P answer .left = some both := by
  obtain ⟨e, out, hstep, rfl⟩ := act_left.mp hl
  obtain ⟨e', out', hstep', rfl⟩ := act_right.mp hr
  have hroom := hstep.unread_length_le
  have hroom' := hstep'.unread_length_le
  refine ⟨⟨e.receive out', e'.receive out⟩, act_right.mpr ⟨_, out', hstep'.receive ?_ ?_, rfl⟩,
    act_left.mpr ⟨_, out, hstep.receive ?_ ?_, rfl⟩⟩
  · intro h
    exact decide_eq_true (Nat.lt_of_le_of_lt hroom (of_decide_eq_true h))
  · intro h
    have hclosed := hstep.closed h
    exact ⟨hclosed.1, hclosed.2.2⟩
  · intro h
    exact decide_eq_true (Nat.lt_of_le_of_lt hroom' (of_decide_eq_true h))
  · intro h
    have hclosed := hstep'.closed h
    exact ⟨hclosed.1, hclosed.2.2⟩

theorem Network.commute : Commute (Network.act P answer) := by
  intro net p q l r hne hp hq
  cases p with
  | left =>
      cases q with
      | left => exact absurd rfl hne
      | right => exact act_both hp hq
  | right =>
      cases q with
      | left =>
          obtain ⟨both, hl, hr⟩ := act_both hq hp
          exact ⟨both, hr, hl⟩
      | right => exact absurd rfl hne

def Network.Lost (net : Network σ τ β α) : Prop :=
  (net.left.closed = true ∧ net.left.unread ≠ []) ∨
    (net.right.closed = true ∧ net.right.unread ≠ [])

theorem Network.Lost.act {p : Party} (h : net.Lost) (hact : net.act P answer p = some net') :
    net'.Lost := by
  have hreceive : ∀ {unread bytes : List β}, unread ≠ [] → unread ++ bytes ≠ [] :=
    fun h happend ↦ h (List.append_eq_nil_iff.mp happend).1
  cases p with
  | left =>
      obtain ⟨e, out, hstep, rfl⟩ := act_left.mp hact
      rcases h with ⟨hclosed, hunread⟩ | ⟨hclosed, hunread⟩
      · obtain ⟨hclosed', hsame, -⟩ := hstep.closed hclosed
        exact .inl ⟨hclosed', hsame ▸ hunread⟩
      · exact .inr ⟨hclosed, hreceive hunread⟩
  | right =>
      obtain ⟨e, out, hstep, rfl⟩ := act_right.mp hact
      rcases h with ⟨hclosed, hunread⟩ | ⟨hclosed, hunread⟩
      · exact .inl ⟨hclosed, hreceive hunread⟩
      · obtain ⟨hclosed', hsame, -⟩ := hstep.closed hclosed
        exact .inr ⟨hclosed', hsame ▸ hunread⟩

end Act

/-! ## 3. The other way round -/

def Party.other : Party → Party
  | .left => .right
  | .right => .left

@[simp] theorem Party.other_other (p : Party) : p.other.other = p := by cases p <;> rfl

def Programs.swap (P : Programs σ τ β α) : Programs τ σ β α where
  left := P.right
  right := P.left
  leftRoom := P.rightRoom
  rightRoom := P.leftRoom

def Network.swap (net : Network σ τ β α) : Network τ σ β α where
  left := net.right
  right := net.left

section Swap

variable {P : Programs σ τ β α} {answer : Party → Nat → α}

theorem Network.act_swap (net : Network σ τ β α) (p : Party) :
    net.swap.act P.swap (fun q ↦ answer q.other) p.other = (net.act P answer p).map swap := by
  cases p with
  | left =>
      rw [Network.act, Option.map_map]
      rfl
  | right =>
      rw [Network.act, Option.map_map]
      rfl

theorem Leads.swap {n : Nat} {s t : Network σ τ β α} (h : Leads (Network.act P answer) n s t) :
    Leads (Network.act P.swap fun q ↦ answer q.other) n s.swap t.swap := by
  obtain ⟨is, rfl, hst⟩ := h
  induction is generalizing s with
  | nil =>
      cases hst
      exact leads_refl _
  | cons p is ih =>
      rw [List.foldlM_cons, Option.bind_eq_bind, Option.bind_eq_some_iff] at hst
      obtain ⟨u, hu, hst⟩ := hst
      refine Leads.step p.other ?_ (ih hst)
      rw [Network.act_swap, hu, Option.map_some]

end Swap

/-! ## 4. Two parties in step with each other -/

def Network.between (l : σ) (r : τ) (asked asked' : List α) : Network σ τ β α where
  left := { state := l, answers := asked }
  right := { state := r, answers := asked' }

section InStep

variable (P : Programs σ τ β α) (answer : Party → Nat → α) (asked asked' : List α) (l : σ) (r : τ)
  {l' : σ} {r' : τ} {data : List β}

theorem leads_bytes {next : List β → τ} (hroom : 0 < P.rightRoom) (hl : P.left l = .send data l')
    (hr : P.right r = .recv data.length next) (sent rest : List β) (hdata : data = sent ++ rest) :
    Leads (Network.act P answer) (2 * rest.length)
      { left := { state := l, part := sent, answers := asked }
        right := { state := r, part := sent, answers := asked' } }
      { left := { state := l, part := data, answers := asked }
        right := { state := r, part := data, answers := asked' } } := by
  -- induction on the bytes that are still to be sent; each is taken as soon as it is there
  induction rest generalizing sent with
  | nil =>
      rw [List.append_nil] at hdata
      subst hdata
      exact leads_refl _
  | cons b rest ih =>
      have hnext : data[sent.length]? = some b := by
        rw [hdata, List.getElem?_append_right (Nat.le_refl _), Nat.sub_self]
        rfl
      have hmore : ¬ data.length ≤ sent.length := by
        rw [hdata, List.length_append, List.length_cons]
        omega
      refine Leads.step .left (Network.act_left.mpr ⟨_, [b],
        .sends hl rfl hnext (decide_eq_true hroom), rfl⟩) ?_
      refine Leads.step .right (Network.act_right.mpr ⟨_, [],
        .receives hr rfl hmore (show [b] = b :: [] from rfl), rfl⟩) ?_
      exact ih (sent ++ [b]) (by rw [hdata, List.append_assoc, List.singleton_append])

theorem leads_send_right {next : List β → τ} (hroom : 0 < P.rightRoom)
    (hl : P.left l = .send data l') (hr : P.right r = .recv data.length next) :
    Leads (Network.act P answer) (2 * data.length + 2) (.between l r asked asked')
      (.between l' (next data) asked asked') := by
  refine (leads_bytes P answer asked asked' l r hroom hl hr [] data rfl).trans ?_
  refine Leads.step .left (Network.act_left.mpr ⟨_, [],
    .sent hl rfl (List.getElem?_eq_none (Nat.le_refl _)), rfl⟩) ?_
  exact leads_one .right (Network.act_right.mpr ⟨_, [], .received hr rfl (Nat.le_refl _), rfl⟩)

theorem leads_send_left {next : List β → σ} (hroom : 0 < P.leftRoom)
    (hr : P.right r = .send data r') (hl : P.left l = .recv data.length next) :
    Leads (Network.act P answer) (2 * data.length + 2) (.between l r asked asked')
      (.between (next data) r' asked asked') := by
  have h : Leads (Network.act P.swap fun q ↦ answer q.other) (2 * data.length + 2)
      (.between r l asked' asked) (.between r' (next data) asked' asked) :=
    leads_send_right P.swap _ asked' asked r l hroom hr hl
  have hswap := h.swap
  rw [show (fun q : Party ↦ answer q.other.other) = answer from
    funext fun q ↦ congrArg answer q.other_other] at hswap
  exact hswap

theorem leads_ask_right {next : α → τ} (hr : P.right r = .ask next) :
    Leads (Network.act P answer) 1 (.between l r asked asked')
      (.between l (next (answer .right asked'.length)) asked
        (asked' ++ [answer .right asked'.length])) :=
  leads_one .right (Network.act_right.mpr ⟨_, [], .asks hr, rfl⟩)

def Network.ended (l : σ) (r : τ) (asked asked' : List α) : Network σ τ β α where
  left := { state := l, answers := asked, closed := true }
  right := { state := r, answers := asked', closed := true }

/-- The left party closes while the other one waits for bytes. -/
theorem leads_close {count : Nat} {next : List β → τ} {r'' : τ} (hl : P.left l = .close l')
    (hr : P.right r = .recv (count + 1) next) (hnext : P.right (next []) = .close r'') :
    Leads (Network.act P answer) 3 (.between l r asked asked') (.ended l' r'' asked asked') := by
  refine Leads.step .left (Network.act_left.mpr ⟨_, [], .closes hl, rfl⟩) ?_
  refine Leads.step .right (Network.act_right.mpr ⟨_, [],
    .ended hr rfl (Nat.not_succ_le_zero count) rfl rfl, rfl⟩) ?_
  exact leads_one .right (Network.act_right.mpr ⟨_, [], .closes hnext, rfl⟩)

variable {P answer asked asked' l r}

theorem Network.ended_stuck (hl : P.left l = .halt) (hr : P.right r = .halt) :
    Stuck (Network.act P answer) (.ended l r asked asked') := by
  intro p
  cases p with
  | left => rw [act, ended, Endpoint.move, hl, Option.map_none]
  | right => rw [act, ended, Endpoint.move, hr, Option.map_none]

theorem Network.ended_not_lost : ¬ (Network.ended l r asked asked' : Network σ τ β α).Lost := by
  rintro (⟨-, h⟩ | ⟨-, h⟩) <;> exact h rfl

end InStep

end Reasoning
