import SubmarineMonitor.Bridge.Uplink

/-!
# Resync — an intact frame behind a cut one

A frame is cut off and the next one follows at once.  The cut frame is read on into the next one,
START included, so the next one survives only where the decoder gives the cut frame up before the
next START arrives.
-/

open Reasoning

namespace SubmarineMonitor

/-! ## 1. The uplink as a machine on byte strings -/

def deframer (l chunk : Bytes) : Bytes × Option Bytes := deframe (l ++ chunk)

def deframed (l : Bytes) (chunks : List Bytes) : List Bytes :=
  (runOutputs deframer l chunks).filterMap id

theorem deframed_nil (l : Bytes) : deframed l [] = [] := rfl

theorem deframed_cons (l c : Bytes) (cs : List Bytes) :
    deframed l (c :: cs) = (deframe (l ++ c)).2.toList ++ deframed (deframe (l ++ c)).1 cs := by
  exact filterMap_runOutputs_cons deframer id l c cs

/-- The loop forwards what the machine puts out. -/
theorem forwarded_eq_deframed {s : BridgeState} {is : List IterationInput} (hs : UplinkBounded s)
    (hfit : Allowed bridgeIteration ChunkFits s is) :
    forwarded s is = deframed s.uplink.pending (is.map (·.uartChunk)) := by
  induction is generalizing s with
  | nil => rfl
  | cons i is ih =>
      rw [allowed_cons] at hfit
      have hstep := bridgeIteration_pending hs hfit.1
      have hrest := ih (uplinkBounded_step s i hs hfit.1) hfit.2
      unfold forwarded at hrest
      rw [List.map_cons, deframed_cons, ← hstep.1, ← hrest, ← hstep.2, forwarded,
        filterMap_runOutputs_cons]

/-- A stream that fits the buffer as a whole fits it in every iteration. -/
theorem allowed_of_short {s : BridgeState} {is : List IterationInput}
    (h : s.uplink.uartRxLen + (is.flatMap (·.uartChunk)).length ≤ 256) :
    Allowed bridgeIteration ChunkFits s is := by
  induction is generalizing s with
  | nil => exact allowed_nil _ _ _
  | cons i is ih =>
      rw [List.flatMap_cons, List.length_append] at h
      have hs : UplinkBounded s := by unfold UplinkBounded; omega
      have hfit : ChunkFits s i := by
        unfold ChunkFits uartRxBufSize
        rw [u16_of_lt (by omega)]
        omega
      have hkeep := deframe_length_le (s.uplink.pending ++ i.uartChunk)
      rw [List.length_append, Uplink.pending_length, ← bridgeIteration_length hs hfit] at hkeep
      exact (allowed_cons _ _ _ _ _).mpr ⟨hfit, ih (by omega)⟩

/-! ## 2. Noise, and a frame behind noise -/

theorem deframed_noise {l : Bytes} {cs : List Bytes} (hl : protoFrameStart ∉ l)
    (hcs : protoFrameStart ∉ cs.flatten) : deframed l cs = [] := by
  induction cs generalizing l with
  | nil => rfl
  | cons c cs ih =>
      rw [List.flatten_cons, List.mem_append, not_or] at hcs
      have hlc : protoFrameStart ∉ l ++ c := by
        rw [List.mem_append, not_or]
        exact ⟨hl, hcs.1⟩
      rw [deframed_cons, deframe_incomplete (parseFrame_no_start hlc)]
      exact ih hlc hcs.2

theorem deframed_frame {l noise p : Bytes} {cs : List Bytes} (hnoise : protoFrameStart ∉ noise)
    (hp : p.length ≤ 256) (h : l ++ cs.flatten = noise ++ frameOf p) (hcs : cs.flatten ≠ []) :
    p ∈ deframed l cs := by
  induction cs generalizing l with
  | nil => exact absurd rfl hcs
  | cons c cs ih =>
      rw [List.flatten_cons, ← List.append_assoc] at h
      rw [deframed_cons]
      -- with the last byte the frame is complete, before that it is cut
      by_cases hlast : cs.flatten = []
      · rw [hlast, List.append_nil] at h
        have hparse := @parseFrame_frame 256 noise p [] hnoise hp (by omega)
        rw [List.append_nil, ← h] at hparse
        rw [deframe, hparse]
        exact List.mem_append_left _ List.mem_cons_self
      · have hinc : parseFrame 256 (l ++ c) = .incomplete := by
          rcases List.append_eq_append_iff.mp h with ⟨missing, hmissing, -⟩ | ⟨t, ht, htail⟩
          · refine parseFrame_no_start fun hmem ↦ hnoise ?_
            rw [hmissing]
            exact List.mem_append_left _ hmem
          · rw [ht]
            exact parseFrame_cut hnoise htail.symm hlast hp (by omega)
        rw [deframe_incomplete hinc]
        exact List.mem_append_right _ (ih h hlast)

/-! ## 3. A cut frame and an intact one -/

section Cut

variable {p q t u : Bytes}

/-- What arrives behind the START of the second frame has no START in it. -/
theorem no_start_behind {a b : Bytes} (h : a ++ b = t ++ frameOf p) (ha : t.length < a.length) :
    protoFrameStart ∉ b := by
  rcases List.append_eq_append_iff.mp h with ⟨x, rfl, -⟩ | ⟨x, rfl, hx⟩
  · rw [List.length_append] at ha
    omega
  · cases x with
    | nil =>
        rw [List.append_nil] at ha
        omega
    | cons y x =>
        rw [frameOf, List.cons_append, List.cons.injEq] at hx
        intro hmem
        exact start_notMem_content p (by rw [hx.2]; exact List.mem_append_right _ hmem)

/-- What is left of the cut frame has no START in it either. -/
theorem no_start_left {a b : Bytes} (hcut : t ++ u = frameOf q) (h : a ++ b = t ++ frameOf p)
    (ha : a.length ≤ t.length) (hne : a ≠ []) :
    ∃ left, b = left ++ frameOf p ∧ protoFrameStart ∉ left := by
  obtain ⟨left, rfl⟩ := List.prefix_of_prefix_length_le ⟨b, h⟩ ⟨_, rfl⟩ ha
  rw [List.append_assoc] at h hcut
  refine ⟨left, List.append_cancel_left h, fun hmem ↦ ?_⟩
  cases a with
  | nil => exact hne rfl
  | cons x a =>
      rw [frameOf, List.cons_append, List.cons.injEq] at hcut
      apply start_notMem_content q
      rw [← hcut.2]
      exact List.mem_append_right _ (List.mem_append_left _ hmem)

/-- The cut frame is never decoded by itself: what is consumed reaches into the second frame. -/
theorem consumed_behind_cut {consumed : Nat} {l : Bytes} (hcut : t ++ u = frameOf q) (hu : u ≠ [])
    (hq : q.length < 65536)
    (h : (∃ x, parseFrame 256 (t ++ l) = .ok x consumed) ∨
      parseFrame 256 (t ++ l) = .malformed consumed) : t.length < consumed := by
  by_contra hle
  -- what was consumed would be a decodable piece of the cut frame
  have htake := parseFrame_take h
  rw [List.take_append_of_le_length (by omega)] at htake
  have hne : parseFrame 256 (t.take consumed) ≠ .incomplete := by
    rw [htake]
    rcases h with ⟨x, h⟩ | h <;> rw [h] <;> simp
  have ht := parseFrame_append hne (t.drop consumed)
  rw [List.take_append_drop, htake] at ht
  rcases parseFrame_cut_cases 256 hcut hu hq with hres | hres
  · rw [hres] at ht
    rcases h with ⟨x, h⟩ | h <;> rw [h] at ht <;> simp at ht
  · rw [hres] at ht
    rcases h with ⟨x, h⟩ | h <;> rw [h] at ht <;> simp at ht

/-- On the way through the chunks the waiting bytes are given up as too large a frame, while they are
    at most `limit`. -/
def GivenUp (limit : Nat) (l : Bytes) (cs : List Bytes) : Prop :=
  ∃ js ks, cs = js ++ ks ∧ (l ++ js.flatten).length ≤ limit ∧
    parseFrame 256 (l ++ js.flatten) = .bufferTooSmall

/-- An undecided buffer is not the place where the cut frame is given up. -/
theorem givenUp_cons_iff {limit : Nat} {l c : Bytes} {cs : List Bytes}
    (hl : parseFrame 256 l = .incomplete) :
    GivenUp limit l (c :: cs) ↔ GivenUp limit (l ++ c) cs := by
  constructor
  · rintro ⟨js, ks, hjs, hlen, hbig⟩
    cases js with
    | nil =>
        rw [List.flatten_nil, List.append_nil, hl] at hbig
        exact absurd hbig (by simp)
    | cons j js =>
        rw [List.cons_append, List.cons.injEq] at hjs
        rw [List.flatten_cons, ← List.append_assoc, ← hjs.1] at hlen hbig
        exact ⟨js, ks, hjs.2, hlen, hbig⟩
  · rintro ⟨js, ks, hjs, hlen, hbig⟩
    refine ⟨c :: js, ks, by rw [hjs, List.cons_append], ?_, ?_⟩
    · rw [List.flatten_cons, ← List.append_assoc]
      exact hlen
    · rw [List.flatten_cons, ← List.append_assoc]
      exact hbig

theorem not_givenUp_of_decided {limit : Nat} {l : Bytes} {cs : List Bytes}
    (hinc : parseFrame 256 l ≠ .incomplete) (hbig : parseFrame 256 l ≠ .bufferTooSmall) :
    ¬ GivenUp limit l cs := by
  rintro ⟨js, ks, -, -, hlater⟩
  rw [parseFrame_append hinc] at hlater
  exact hbig hlater

/-- What the cut frame was decoded with is gone, and what is left has no START. -/
theorem deframed_behind {consumed : Nat} {l : Bytes} {cs : List Bytes} (hcut : t ++ u = frameOf q)
    (hu : u ≠ []) (hq : q.length < 65536) (hstream : l ++ cs.flatten = t ++ frameOf p)
    (h : (∃ x, parseFrame 256 l = .ok x consumed) ∨ parseFrame 256 l = .malformed consumed) :
    deframed (l.drop consumed) cs = [] := by
  have hle := (parseFrame_consumed h).2
  have hinc : parseFrame 256 l ≠ .incomplete := by
    rcases h with ⟨x, h⟩ | h <;> rw [h] <;> simp
  have hall := parseFrame_append hinc cs.flatten
  rw [hstream] at hall
  rw [← hall] at h
  have hbehind := consumed_behind_cut hcut hu hq h
  have hsplit : l.take consumed ++ (l.drop consumed ++ cs.flatten) = t ++ frameOf p := by
    rw [← List.append_assoc, List.take_append_drop, hstream]
  have hno := no_start_behind hsplit (by rw [List.length_take]; omega)
  rw [List.mem_append, not_or] at hno
  exact deframed_noise hno.1 hno.2

/-- From a decided buffer on, nothing that follows changes what becomes of the cut frame. -/
theorem deframed_decided_iff {l : Bytes} {cs : List Bytes} (hcut : t ++ u = frameOf q)
    (hu : u ≠ []) (hq : q.length < 65536) (hp : p.length ≤ 256)
    (hinc : parseFrame 256 l ≠ .incomplete) (hstream : l ++ cs.flatten = t ++ frameOf p) :
    p ∈ (deframe l).2.toList ++ deframed (deframe l).1 cs ↔
      GivenUp t.length l cs ∨ ∃ consumed, parseFrame 256 (t ++ frameOf p) = .ok p consumed := by
  have hall := parseFrame_append hinc cs.flatten
  rw [hstream] at hall
  rw [hall]
  cases hres : parseFrame 256 l with
  | incomplete => exact absurd hres hinc
  | ok x consumed =>
      have hkeep : ¬ GivenUp t.length l cs := not_givenUp_of_decided hinc (by rw [hres]; simp)
      rw [deframe, hres]
      simp only [deframed_behind hcut hu hq hstream (.inl ⟨x, hres⟩), List.append_nil,
        Option.toList_some, List.mem_singleton]
      constructor
      · rintro rfl
        exact .inr ⟨consumed, rfl⟩
      · rintro (hgiven | ⟨consumed', hok⟩)
        · exact absurd hgiven hkeep
        · exact (FrameDecodeResult.ok.inj hok).1.symm
  | malformed consumed =>
      have hkeep : ¬ GivenUp t.length l cs := not_givenUp_of_decided hinc (by rw [hres]; simp)
      rw [deframe, hres]
      simp only [deframed_behind hcut hu hq hstream (.inr hres), Option.toList_none,
        List.append_nil]
      apply iff_of_false List.not_mem_nil
      rintro (hgiven | ⟨consumed', hok⟩)
      · exact hkeep hgiven
      · exact absurd hok (by simp)
  | bufferTooSmall =>
      have hne : l ≠ [] := by
        intro hnil
        rw [hnil] at hres
        exact absurd hres (by decide)
      rw [deframe, hres]
      simp only [Option.toList_none, List.nil_append]
      by_cases hlen : l.length ≤ t.length
      · -- the rest of the cut frame is noise in front of the intact one
        obtain ⟨left, hleft, hno⟩ := no_start_left hcut hstream hlen hne
        have hsome : cs.flatten ≠ [] := by
          rw [hleft, frameOf]
          exact fun hnil ↦ List.cons_ne_nil _ _ (List.append_eq_nil_iff.mp hnil).2
        have hgiven : GivenUp t.length l cs := by
          refine ⟨[], cs, rfl, ?_, ?_⟩
          · rw [List.flatten_nil, List.append_nil]
            exact hlen
          · rw [List.flatten_nil, List.append_nil, hres]
        exact iff_of_true (deframed_frame hno hp hleft hsome) (.inl hgiven)
      · -- the START of the intact frame went with it
        rw [deframed_noise List.not_mem_nil (no_start_behind hstream (by omega))]
        apply iff_of_false List.not_mem_nil
        rintro (⟨js, ks, -, hshort, -⟩ | ⟨consumed', hok⟩)
        · rw [List.length_append] at hshort
          omega
        · exact absurd hok (by simp)

/-- The intact frame comes out when the cut one is given up in time, or when the two together
    happen to decode to it.  The induction is on the chunks, from a buffer that is still undecided. -/
theorem deframed_cut_iff {l : Bytes} {cs : List Bytes} (hcut : t ++ u = frameOf q) (hu : u ≠ [])
    (hq : q.length < 65536) (hp : p.length ≤ 256) (hl : parseFrame 256 l = .incomplete)
    (hstream : l ++ cs.flatten = t ++ frameOf p) :
    p ∈ deframed l cs ↔
      GivenUp t.length l cs ∨ ∃ consumed, parseFrame 256 (t ++ frameOf p) = .ok p consumed := by
  induction cs generalizing l with
  | nil =>
      rw [List.flatten_nil, List.append_nil] at hstream
      rw [← hstream, hl, deframed_nil]
      apply iff_of_false List.not_mem_nil
      rintro (⟨js, ks, hjs, -, hbig⟩ | ⟨consumed, hok⟩)
      · rw [(List.append_eq_nil_iff.mp hjs.symm).1, List.flatten_nil, List.append_nil, hl] at hbig
        exact absurd hbig (by simp)
      · exact absurd hok (by simp)
  | cons c cs ih =>
      rw [List.flatten_cons, ← List.append_assoc] at hstream
      rw [givenUp_cons_iff hl, deframed_cons]
      by_cases hinc : parseFrame 256 (l ++ c) = .incomplete
      · rw [deframe_incomplete hinc]
        exact ih hinc hstream
      · exact deframed_decided_iff hcut hu hq hp hinc hstream

end Cut

/-! ## 4. Resynchronisation -/

theorem uplink_resync_iff {p q t u : Bytes} {s : BridgeState} {is : List IterationInput}
    (hcut : t ++ u = frameOf q) (ht : t ≠ []) (hu : u ≠ []) (hq : q.length < 65536)
    (hfit : t.length + (frameOf p).length ≤ 256) (hs : s.Initial)
    (hstream : is.flatMap (·.uartChunk) = t ++ frameOf p) :
    p ∈ forwarded s is ↔
      (256 < q.length ∧ ∃ js ks, is = js ++ ks ∧
        lengthFieldEnd q ≤ (js.flatMap (·.uartChunk)).length ∧
        (js.flatMap (·.uartChunk)).length ≤ t.length) ∨
      ∃ rest, frameCode.readBytes (p.length + 4) (t.tail ++ frameOf p) =
        some (frameContent p, rest) := by
  have hp := frameOf_length_ge p
  have hshort : s.uplink.uartRxLen + (is.flatMap (·.uartChunk)).length ≤ 256 := by
    unfold BridgeState.Initial at hs
    rw [hstream, List.length_append, hs]
    omega
  have hflatten : ([] : Bytes) ++ (is.map (·.uartChunk)).flatten = t ++ frameOf p := by
    rw [List.nil_append, ← List.flatMap_def, hstream]
  rw [forwarded_eq_deframed hs.bounded (allowed_of_short hshort), hs.pending,
    deframed_cut_iff hcut hu hq (by omega) (parseFrame_no_start List.not_mem_nil) hflatten]
  apply or_congr
  · -- the chunks up to the place where the cut frame is given up are a prefix of it
    have hfront : ∀ js ks, is = js ++ ks → (js.flatMap (·.uartChunk)).length ≤ t.length →
        ∃ v, js.flatMap (·.uartChunk) ++ v = frameOf q := by
      intro js ks hjs hlen
      rw [hjs, List.flatMap_append] at hstream
      obtain ⟨left, rfl⟩ := List.prefix_of_prefix_length_le ⟨_, hstream⟩ ⟨_, rfl⟩ hlen
      exact ⟨left ++ u, by rw [← List.append_assoc]; exact hcut⟩
    constructor
    · rintro ⟨js', ks', hmap, hlen, hbig⟩
      obtain ⟨js, ks, rfl, rfl, rfl⟩ := List.map_eq_append_iff.mp hmap
      rw [List.nil_append, ← List.flatMap_def] at hlen hbig
      obtain ⟨v, hv⟩ := hfront js ks rfl hlen
      have hfield := (parseFrame_cut_tooSmall_iff 256 hv hq).mp hbig
      exact ⟨hfield.1, js, ks, rfl, hfield.2, hlen⟩
    · rintro ⟨hlong, js, ks, rfl, hfield, hlen⟩
      obtain ⟨v, hv⟩ := hfront js ks rfl hlen
      refine ⟨js.map (·.uartChunk), ks.map (·.uartChunk), List.map_append, ?_, ?_⟩
      · rw [List.nil_append, ← List.flatMap_def]
        exact hlen
      · rw [List.nil_append, ← List.flatMap_def]
        exact (parseFrame_cut_tooSmall_iff 256 hv hq).mpr ⟨hlong, hfield⟩
  · cases t with
    | nil => exact absurd rfl ht
    | cons b w =>
        rw [frameOf, List.cons_append, List.cons.injEq] at hcut
        rw [hcut.1, List.cons_append, List.tail_cons]
        exact parseFrame_ok_iff _ (by omega) (by omega)

-- START and LENGTH of a 300-byte payload, one iteration, then the intact frame
theorem uplink_resync_long_frame :
    [0x2A] ∈ forwarded bridgeStart
      [uartIteration [0x7E, 0x01, 0x2C], uartIteration [0x7E, 0x00, 0x01, 0x2A, 0x7A, 0x85]] := by
  have htake : (frameOf (List.replicate 300 0)).take 3 = [0x7E, 0x01, 0x2C] := by decide +kernel
  have hcut : [0x7E, 0x01, 0x2C] ++ (frameOf (List.replicate 300 0)).drop 3 =
      frameOf (List.replicate 300 0) := by
    rw [← htake, List.take_append_drop]
  have hlen : (List.replicate 300 (0 : UInt8)).length = 300 := List.length_replicate
  have hrest : (frameOf (List.replicate 300 0)).drop 3 ≠ [] := by
    have hge := frameOf_length_ge (List.replicate 300 0)
    rw [← List.length_pos_iff, List.length_drop]
    omega
  have hinitial : bridgeStart.Initial := rfl
  have hframe : frameOf [0x2A] = [0x7E, 0x00, 0x01, 0x2A, 0x7A, 0x85] := by decide +kernel
  have hfield : lengthFieldEnd (List.replicate 300 0) = 3 := by
    rw [lengthFieldEnd, hlen]
    decide
  refine (uplink_resync_iff hcut (by simp) hrest (by omega) (by rw [hframe]; decide) hinitial
    (by rw [hframe]; rfl)).mpr (.inl ⟨by omega, [_], [_], rfl, ?_, ?_⟩)
  · rw [hfield]
    decide
  · decide

-- the LNC resets behind the START of an empty payload's frame
theorem uplink_resync_loses_frame :
    [0x7E] ++ [0x00, 0x00, 0x1D, 0x0F] = frameOf [] ∧
      [uartIteration [0x7E], uartIteration (frameOf [0x2A])].flatMap (·.uartChunk) =
        [0x7E] ++ frameOf [0x2A] ∧
      [0x2A] ∉ forwarded bridgeStart [uartIteration [0x7E], uartIteration (frameOf [0x2A])] ∧
      (runState bridgeIteration bridgeStart
        [uartIteration [0x7E], uartIteration (frameOf [0x2A])]).uplink.uartRxLen = 0 := by
  decide +kernel

end SubmarineMonitor
