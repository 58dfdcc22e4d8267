import SubmarineMonitor.Reasoning.Runs
import SubmarineMonitor.Reasoning.StreamCode

/-!
# Receiver — machines that cut a stream into words

A receiver keeps what has arrived and is not handed out yet.  It delivers a stream when each of its
steps hands out the next word, or nothing, and keeps the rest (`Delivers`); a run of such steps
hands out a prefix of what was sent and keeps the rest of it (`run_delivers`).
-/

namespace Reasoning

variable {α β σ ι ω : Type*} {enc : β → List α} {valid : β → Prop}

/-- On every stream of valid words that starts with `received`, `out` is the next word, if any, and
    `left` is what of `received` belongs to the words behind it. -/
def Delivers (enc : β → List α) (valid : β → Prop) (received : List α) (out : Option β)
    (left : List α) : Prop :=
  ∀ (bs : List β) (unread : List α), (∀ b ∈ bs, valid b) → received ++ unread = encodeAll enc bs →
    ∃ rest, out.toList ++ rest = bs ∧ left ++ unread = encodeAll enc rest

/-- Handing out the first word when it is there, and waiting for the rest of it when it is not. -/
theorem delivers_of_cut {received left : List α} {out : Option β}
    (hword : ∀ b r, valid b → received = enc b ++ r → out = some b ∧ left = r)
    (hcut : ∀ b missing, valid b → received ++ missing = enc b → missing ≠ [] →
      out = none ∧ left = received)
    (hnil : received = [] → out = none ∧ left = []) :
    Delivers enc valid received out left := by
  intro bs unread hbs h
  cases bs with
  | nil =>
      have hempty := encodeAll_cut_nil h
      have hkeep := hnil hempty.1
      exact ⟨[], by rw [hkeep.1]; rfl, by rw [hkeep.2, hempty.2]; rfl⟩
  | cons b bs =>
      have hb := hbs b List.mem_cons_self
      rcases encodeAll_cut h with ⟨r, hr, hrest⟩ | ⟨missing, hr, hmissing⟩
      · have hout := hword b r hb hr
        exact ⟨bs, by rw [hout.1]; rfl, by rw [hout.2, hrest]⟩
      · have hout := hcut b missing hb hr hmissing
        exact ⟨b :: bs, by rw [hout.1]; rfl, by rw [hout.2, h]⟩

/-- What is sent is what was handed out, then what is kept and still to come. -/
theorem run_delivers {step : σ → ι → σ × ω} {ok : σ → ι → Prop} {inv : σ → Prop}
    {pending : σ → List α} {chunk : ι → List α} {out : ω → Option β}
    (hinv : ∀ s i, inv s → ok s i → inv (step s i).1)
    (hstep : ∀ s i, inv s → ok s i →
      Delivers enc valid (pending s ++ chunk i) (out (step s i).2) (pending (step s i).1))
    {s : σ} {is : List ι} {unread : List α} {bs : List β} (hs : inv s)
    (hok : Allowed step ok s is) (hbs : ∀ b ∈ bs, valid b)
    (h : pending s ++ (is.flatMap chunk ++ unread) = encodeAll enc bs) :
    ∃ rest, (runOutputs step s is).filterMap out ++ rest = bs ∧
      pending (runState step s is) ++ unread = encodeAll enc rest := by
  -- induction on the inputs: a step hands out a word of the stream and leaves a shorter stream
  induction is generalizing s bs with
  | nil => exact ⟨bs, rfl, h⟩
  | cons i is ih =>
      rw [allowed_cons] at hok
      rw [List.flatMap_cons, List.append_assoc, ← List.append_assoc] at h
      obtain ⟨mid, hmid, hleft⟩ := hstep s i hs hok.1 bs _ hbs h
      have hmid_valid : ∀ b ∈ mid, valid b := fun b hb ↦
        hbs b (by rw [← hmid]; exact List.mem_append_right _ hb)
      obtain ⟨rest, hrest, hend⟩ := ih (hinv s i hs hok.1) hok.2 hmid_valid hleft
      refine ⟨rest, ?_, hend⟩
      rw [filterMap_runOutputs_cons, List.append_assoc, hrest, hmid]

/-! ## Words that are not handed out -/

/-- As `Delivers`, where a word is worth some outputs: one for what is handed out, none for what is
    passed over. -/
def Passes {γ : Type*} (enc : β → List α) (valid : β → Prop) (worth : β → List γ)
    (received : List α) (out : Option γ) (left : List α) : Prop :=
  ∀ (bs : List β) (unread : List α), (∀ b ∈ bs, valid b) → received ++ unread = encodeAll enc bs →
    ∃ taken rest, taken ++ rest = bs ∧ out.toList = taken.flatMap worth ∧
      left ++ unread = encodeAll enc rest

/-- Taking the first word when it is there, and waiting for the rest of it when it is not. -/
theorem passes_of_cut {γ : Type*} {worth : β → List γ} {received left : List α} {out : Option γ}
    (hword : ∀ b r, valid b → received = enc b ++ r → out.toList = worth b ∧ left = r)
    (hcut : ∀ b missing, valid b → received ++ missing = enc b → missing ≠ [] →
      out = none ∧ left = received)
    (hnil : received = [] → out = none ∧ left = []) :
    Passes enc valid worth received out left := by
  intro bs unread hbs h
  cases bs with
  | nil =>
      have hempty := encodeAll_cut_nil h
      have hkeep := hnil hempty.1
      exact ⟨[], [], rfl, by rw [hkeep.1]; rfl, by rw [hkeep.2, hempty.2]; rfl⟩
  | cons b bs =>
      have hb := hbs b List.mem_cons_self
      rcases encodeAll_cut h with ⟨r, hr, hrest⟩ | ⟨missing, hr, hmissing⟩
      · have hout := hword b r hb hr
        exact ⟨[b], bs, rfl, by rw [hout.1, List.flatMap_singleton], by rw [hout.2, hrest]⟩
      · have hout := hcut b missing hb hr hmissing
        exact ⟨[], b :: bs, rfl, by rw [hout.1]; rfl, by rw [hout.2, h]⟩

/-- What a run hands out is what the words that were taken are worth. -/
theorem run_passes {γ : Type*} {worth : β → List γ} {step : σ → ι → σ × ω} {ok : σ → ι → Prop}
    {inv : σ → Prop} {pending : σ → List α} {chunk : ι → List α} {out : ω → Option γ}
    (hinv : ∀ s i, inv s → ok s i → inv (step s i).1)
    (hstep : ∀ s i, inv s → ok s i →
      Passes enc valid worth (pending s ++ chunk i) (out (step s i).2) (pending (step s i).1))
    {s : σ} {is : List ι} {unread : List α} {bs : List β} (hs : inv s)
    (hok : Allowed step ok s is) (hbs : ∀ b ∈ bs, valid b)
    (h : pending s ++ (is.flatMap chunk ++ unread) = encodeAll enc bs) :
    ∃ taken rest, taken ++ rest = bs ∧
      (runOutputs step s is).filterMap out = taken.flatMap worth ∧
      pending (runState step s is) ++ unread = encodeAll enc rest := by
  -- induction on the inputs: a step takes words of the stream and leaves a shorter stream
  induction is generalizing s bs with
  | nil => exact ⟨[], bs, rfl, rfl, h⟩
  | cons i is ih =>
      rw [allowed_cons] at hok
      rw [List.flatMap_cons, List.append_assoc, ← List.append_assoc] at h
      obtain ⟨front, mid, hmid, hout, hleft⟩ := hstep s i hs hok.1 bs _ hbs h
      have hmid_valid : ∀ b ∈ mid, valid b := fun b hb ↦
        hbs b (by rw [← hmid]; exact List.mem_append_right _ hb)
      obtain ⟨taken, rest, hrest, houts, hend⟩ := ih (hinv s i hs hok.1) hok.2 hmid_valid hleft
      refine ⟨front ++ taken, rest, by rw [List.append_assoc, hrest, hmid], ?_, hend⟩
      rw [filterMap_runOutputs_cons, hout, houts, List.flatMap_append]

end Reasoning
