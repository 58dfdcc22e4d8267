import SubmarineMonitor.Bridge.Deframer
import SubmarineMonitor.Reasoning.Receiver

/-!
# Uplink — runs of the bridge's uplink

What a run forwards of a stream of frames, and when the receive buffer fills up for good.
-/

open Reasoning

namespace SubmarineMonitor

/-! ## 1. The buffer bound -/

def UplinkBounded (s : BridgeState) : Prop := s.uplink.uartRxLen ≤ 256

theorem ChunkFits.le {s : BridgeState} {i : IterationInput} (hs : UplinkBounded s)
    (h : ChunkFits s i) : s.uplink.uartRxLen + i.uartChunk.length ≤ 256 := by
  unfold UplinkBounded at hs
  unfold ChunkFits uartRxBufSize at h
  rw [u16_of_lt (by omega)] at h
  omega

theorem bridgeIteration_pending {s : BridgeState} {i : IterationInput} (hs : UplinkBounded s)
    (h : ChunkFits s i) :
    (bridgeIteration s i).1.uplink.pending = (deframe (s.uplink.pending ++ i.uartChunk)).1 ∧
      (bridgeIteration s i).2.uplinkPayload = (deframe (s.uplink.pending ++ i.uartChunk)).2 := by
  rw [bridgeIteration_uplink, bridgeIteration_payload]
  exact uplinkStep_eq (h.le hs)

theorem bridgeIteration_length {s : BridgeState} {i : IterationInput} (hs : UplinkBounded s)
    (h : ChunkFits s i) :
    (bridgeIteration s i).1.uplink.uartRxLen =
      (deframe (s.uplink.pending ++ i.uartChunk)).1.length := by
  rw [← (bridgeIteration_pending hs h).1, Uplink.pending_length]

theorem uplinkBounded_step (s : BridgeState) (i : IterationInput) (hs : UplinkBounded s)
    (h : ChunkFits s i) : UplinkBounded (bridgeIteration s i).1 := by
  have hle := h.le hs
  have hkeep := deframe_length_le (s.uplink.pending ++ i.uartChunk)
  rw [List.length_append, Uplink.pending_length] at hkeep
  rw [UplinkBounded, bridgeIteration_length hs h]
  omega

theorem BridgeState.Initial.bounded {s : BridgeState} (h : s.Initial) : UplinkBounded s := by
  unfold BridgeState.Initial at h
  unfold UplinkBounded
  omega

theorem BridgeState.Initial.pending {s : BridgeState} (h : s.Initial) : s.uplink.pending = [] := by
  rw [← List.length_eq_zero_iff, Uplink.pending_length]
  exact h

/-! ## 2. A full buffer -/

def LeavesRoom (s : BridgeState) (i : IterationInput) : Prop :=
  (s.uplink.pending ++ i.uartChunk).length < 256 ∨ HoldsFrame 256 (s.uplink.pending ++ i.uartChunk)

theorem bridgeIteration_room_iff {s : BridgeState} {i : IterationInput} (hs : UplinkBounded s)
    (h : ChunkFits s i) :
    (bridgeIteration s i).1.uplink.uartRxLen < uartRxBufSize ↔ LeavesRoom s i := by
  have hle := h.le hs
  have hkeep := deframe_length_le (s.uplink.pending ++ i.uartChunk)
  have hlen : (s.uplink.pending ++ i.uartChunk).length =
      s.uplink.uartRxLen + i.uartChunk.length := by
    rw [List.length_append, Uplink.pending_length]
  rw [bridgeIteration_length hs h, uartRxBufSize, LeavesRoom]
  by_cases hfull : (s.uplink.pending ++ i.uartChunk).length = 256
  · -- a full buffer has room again exactly when something of it was decoded or dropped
    have hstuck := deframe_full_iff hfull
    rw [parseFrame_incomplete_iff] at hstuck
    constructor
    · intro hlt
      exact .inr (by_contra fun hno ↦ by have hsame := hstuck.mpr hno; omega)
    · rintro (hlt | hholds)
      · omega
      · have hne : (deframe (s.uplink.pending ++ i.uartChunk)).1.length ≠ 256 :=
          fun hsame ↦ hstuck.mp hsame hholds
        omega
  · exact iff_of_true (by omega) (.inl (by omega))

theorem uplink_never_wedges_iff {s : BridgeState} {is : List IterationInput} (hs : s.Initial)
    (hfit : Allowed bridgeIteration ChunkFits s is) :
    (∀ js, js <+: is → (runState bridgeIteration s js).uplink.uartRxLen < uartRxBufSize) ↔
      Allowed bridgeIteration LeavesRoom s is := by
  have hbounded := (run_invariant uplinkBounded_step hs.bounded hfit).2
  rw [forall_reached_iff bridgeIteration fun s ↦ s.uplink.uartRxLen < uartRxBufSize]
  constructor
  · intro h p hp
    exact (bridgeIteration_room_iff (hbounded p hp) (hfit p hp)).mp (h.2 p hp)
  · intro h
    refine ⟨?_, fun p hp ↦ (bridgeIteration_room_iff (hbounded p hp) (hfit p hp)).mpr (h p hp)⟩
    unfold BridgeState.Initial at hs
    rw [hs]
    decide

/-- A frame behind noise leaves room, even where the two take the whole buffer. -/
theorem leavesRoom_noise {noise q : Bytes} (hnoise : protoFrameStart ∉ noise)
    (hlen : noise.length + (frameOf q).length ≤ 256) :
    Allowed bridgeIteration ChunkFits bridgeStart [uartIteration noise, uartIteration (frameOf q)] ∧
      Allowed bridgeIteration LeavesRoom bridgeStart
        [uartIteration noise, uartIteration (frameOf q)] := by
  have hge := frameOf_length_ge q
  have hbounded : UplinkBounded bridgeStart := Nat.zero_le 256
  have hfirst : ChunkFits bridgeStart (uartIteration noise) := by
    have hfits : noise.length ≤ 256 := by omega
    exact hfits
  -- the noise waits
  have hpending : (bridgeIteration bridgeStart (uartIteration noise)).1.uplink.pending = noise := by
    rw [(bridgeIteration_pending hbounded hfirst).1]
    exact congrArg Prod.fst (deframe_incomplete (parseFrame_no_start hnoise))
  have hsecond : ChunkFits (bridgeIteration bridgeStart (uartIteration noise)).1
      (uartIteration (frameOf q)) := by
    rw [ChunkFits, ← Uplink.pending_length, hpending, uartRxBufSize, u16_of_lt (by omega)]
    have hfits : (frameOf q).length ≤ 256 - noise.length := by omega
    exact hfits
  have hholds : HoldsFrame 256 (noise ++ frameOf q) := by
    by_contra hno
    have hwhole := @parseFrame_frame 256 noise q [] hnoise (by omega) (by omega)
    rw [List.append_nil, (parseFrame_incomplete_iff _ _).mpr hno] at hwhole
    cases hwhole
  rw [allowed_cons, allowed_cons, allowed_cons, allowed_cons]
  refine ⟨⟨hfirst, hsecond, allowed_nil _ _ _⟩, .inl ?_, .inr ?_, allowed_nil _ _ _⟩
  · have hfits : noise.length < 256 := by omega
    exact hfits
  · rw [hpending]
    exact hholds

-- 250 bytes of noise and a frame of six fill the buffer for a moment
theorem uplink_never_wedges_noise :
    (runState bridgeIteration bridgeStart
      [uartIteration (List.replicate 250 0), uartIteration (frameOf [0x2A])]).uplink.uartRxLen <
        uartRxBufSize := by
  have hnoise : protoFrameStart ∉ List.replicate 250 0 := fun hmem ↦
    absurd (List.eq_of_mem_replicate hmem) (by decide)
  have hlen : (List.replicate 250 (0 : UInt8)).length + (frameOf [0x2A]).length ≤ 256 := by
    rw [List.length_replicate]
    decide +kernel
  obtain ⟨hfit, hroom⟩ := leavesRoom_noise hnoise hlen
  have hinitial : bridgeStart.Initial := rfl
  exact (uplink_never_wedges_iff hinitial hfit).mpr hroom _ List.prefix_rfl

/-- A full buffer without a complete frame stays as it is, whatever comes. -/
theorem uplink_wedged {s : BridgeState} {is : List IterationInput}
    (hfull : s.uplink.uartRxLen = 256) (hstuck : ¬ HoldsFrame 256 s.uplink.pending)
    (hfit : Allowed bridgeIteration ChunkFits s is) :
    (runState bridgeIteration s is).uplink.pending = s.uplink.pending ∧ forwarded s is = [] := by
  induction is generalizing s with
  | nil => exact ⟨rfl, rfl⟩
  | cons i is ih =>
      rw [allowed_cons] at hfit
      have hs : UplinkBounded s := hfull.le
      -- no room, so nothing is read
      have hnone : i.uartChunk = [] := by
        have hle := hfit.1.le hs
        rw [← List.length_eq_zero_iff]
        omega
      have hkeep := deframe_incomplete ((parseFrame_incomplete_iff _ _).mpr hstuck)
      have hstep := bridgeIteration_pending hs hfit.1
      rw [hnone, List.append_nil, hkeep] at hstep
      have hlen : (bridgeIteration s i).1.uplink.uartRxLen = 256 := by
        rw [← Uplink.pending_length, hstep.1, Uplink.pending_length, hfull]
      have hrest := ih hlen (by rw [hstep.1]; exact hstuck) hfit.2
      refine ⟨by rw [runState_cons, hrest.1, hstep.1], ?_⟩
      rw [forwarded, runOutputs, List.filterMap_cons, hstep.2]
      exact hrest.2

theorem uplink_wedges_on_noise :
    bridgeStart.Initial ∧
      Allowed bridgeIteration ChunkFits bridgeStart [uartIteration (List.replicate 256 0)] ∧
      (bridgeIteration bridgeStart (uartIteration (List.replicate 256 0))).1.uplink.uartRxLen =
        uartRxBufSize ∧
      ∀ is, Allowed bridgeIteration ChunkFits
          (bridgeIteration bridgeStart (uartIteration (List.replicate 256 0))).1 is →
        (runState bridgeIteration
            (bridgeIteration bridgeStart (uartIteration (List.replicate 256 0))).1 is).uplink.pending =
          List.replicate 256 0 ∧
        forwarded (bridgeIteration bridgeStart (uartIteration (List.replicate 256 0))).1 is = [] := by
  have hs : UplinkBounded bridgeStart := Nat.zero_le 256
  have hfit : ChunkFits bridgeStart (uartIteration (List.replicate 256 0)) := by
    change (List.replicate 256 (0 : UInt8)).length ≤ 256
    rw [List.length_replicate]
  have hno : ¬ HoldsFrame 256 (List.replicate 256 0) := by
    rw [← parseFrame_incomplete_iff]
    exact parseFrame_no_start fun hmem ↦ absurd (List.eq_of_mem_replicate hmem) (by decide)
  have hstep := (bridgeIteration_pending hs hfit).1
  rw [show bridgeStart.uplink.pending ++ (uartIteration (List.replicate 256 0)).uartChunk =
    List.replicate 256 0 from rfl,
    deframe_incomplete ((parseFrame_incomplete_iff _ _).mpr hno)] at hstep
  have hfull : (bridgeIteration bridgeStart (uartIteration (List.replicate 256 0))).1.uplink.uartRxLen
      = 256 := by
    rw [← Uplink.pending_length, hstep, List.length_replicate]
  refine ⟨rfl, (allowed_cons _ _ _ _ _).mpr ⟨hfit, allowed_nil _ _ _⟩, hfull, fun is his ↦ ?_⟩
  have hwedged := uplink_wedged hfull (by rw [hstep]; exact hno) his
  rw [hstep] at hwedged
  exact hwedged

/-! ## 3. Streams of frames -/

theorem frameOf_prefixFree : PrefixFree frameOf fun p : Bytes ↦ p.length < 65536 where
  ne_nil p := List.cons_ne_nil _ _
  inj := by
    intro p q r s hp hq h
    have hdecode := @parseFrame_frame 65536 [] p r List.not_mem_nil (by omega) hp
    have hdecode' := @parseFrame_frame 65536 [] q s List.not_mem_nil (by omega) hq
    rw [h, hdecode'] at hdecode
    have heq := (FrameDecodeResult.ok.inj hdecode).1
    rw [heq] at h
    exact ⟨heq.symm, List.append_cancel_left h⟩

theorem payload_length_of_frame {p : Bytes} {l r : Bytes} (h : l = frameOf p ++ r)
    (hl : l.length ≤ 256) : p.length ≤ 256 := by
  have hge := frameOf_length_ge p
  rw [h, List.length_append] at hl
  omega

theorem deframe_delivers {l : Bytes} (hl : l.length ≤ 256) :
    Delivers frameOf (fun p ↦ (frameOf p).length ≤ 256) l (deframe l).2 (deframe l).1 := by
  refine delivers_of_cut (fun q r _ h ↦ ?_) (fun q missing hq h hmissing ↦ ?_) (fun h ↦ ?_)
  · rw [h, deframe_frame r (payload_length_of_frame h hl)]
    exact ⟨rfl, rfl⟩
  · have hge := frameOf_length_ge q
    rw [deframe_cut h hmissing (by omega)]
    exact ⟨rfl, rfl⟩
  · rw [h]
    exact ⟨rfl, rfl⟩

/-- A run on a stream of frames: what is not forwarded yet waits in the buffer or is unread. -/
theorem uplink_run_stream {ps : List Bytes} {s : BridgeState} {is : List IterationInput}
    {unread : Bytes} (hps : ∀ p ∈ ps, (frameOf p).length ≤ 256) (hs : s.Initial)
    (hfit : Allowed bridgeIteration ChunkFits s is)
    (hstream : is.flatMap (·.uartChunk) ++ unread = encodeAll frameOf ps) :
    ∃ rest, forwarded s is ++ rest = ps ∧
      (runState bridgeIteration s is).uplink.pending ++ unread = encodeAll frameOf rest := by
  -- one iteration is one step of a receiver of frames
  have hdeliver : ∀ (s : BridgeState) (i : IterationInput), UplinkBounded s → ChunkFits s i →
      Delivers frameOf (fun p ↦ (frameOf p).length ≤ 256) (s.uplink.pending ++ i.uartChunk)
        (bridgeIteration s i).2.uplinkPayload (bridgeIteration s i).1.uplink.pending := by
    intro s i hs hi
    have hlen := hi.le hs
    rw [← Uplink.pending_length, ← List.length_append] at hlen
    have hstep := bridgeIteration_pending hs hi
    rw [hstep.1, hstep.2]
    exact deframe_delivers hlen
  have hstart : s.uplink.pending ++ (is.flatMap (·.uartChunk) ++ unread) = encodeAll frameOf ps := by
    rw [hs.pending, List.nil_append]
    exact hstream
  exact run_delivers uplinkBounded_step hdeliver hs.bounded hfit hps hstart

theorem uplink_transparent {ps : List Bytes} {s : BridgeState} {is : List IterationInput}
    {unread : Bytes} (hps : ∀ p ∈ ps, (frameOf p).length ≤ 256) (hs : s.Initial)
    (hfit : Allowed bridgeIteration ChunkFits s is)
    (hstream : is.flatMap (·.uartChunk) ++ unread = encodeAll frameOf ps) :
    (∃ rest, forwarded s is ++ rest = ps ∧
        (runState bridgeIteration s is).uplink.pending ++ unread = encodeAll frameOf rest ∧
        ∀ other : List Bytes, (∀ p ∈ other, p.length < 65536) →
          (runState bridgeIteration s is).uplink.pending ++ unread = encodeAll frameOf other →
          other = rest) ∧
      ∀ st ∈ runSteps bridgeIteration s is, ∀ q,
        (bridgeIteration st.1 st.2).2.uplinkPayload = some q ↔
          ∃ r, st.1.uplink.pending ++ st.2.uartChunk = frameOf q ++ r := by
  refine ⟨?_, ?_⟩
  · obtain ⟨rest, hrest, hleft⟩ := uplink_run_stream hps hs hfit hstream
    refine ⟨rest, hrest, hleft, fun other hother hbytes ↦ ?_⟩
    have hvalid : ∀ p ∈ rest, p.length < 65536 := fun p hp ↦ by
      have hfits := hps p (by rw [← hrest]; exact List.mem_append_right _ hp)
      have hge := frameOf_length_ge p
      omega
    exact frameOf_prefixFree.encodeAll_inj hother hvalid (hbytes.symm.trans hleft)
  rintro ⟨st, i⟩ hmem q
  obtain ⟨js, ks, his, rfl⟩ := (mem_runSteps _ _ _ _).mp hmem
  have hfits := hfit _ hmem
  have hbounded := (run_invariant uplinkBounded_step hs.bounded hfit).2 _ hmem
  have hlen := hfits.le hbounded
  rw [← Uplink.pending_length, ← List.length_append] at hlen
  rw [(bridgeIteration_pending hbounded hfits).2]
  constructor
  · intro hout
    -- the stream that starts with the buffer starts with a frame, and it is all there
    rw [his, List.flatMap_append, List.flatMap_cons, List.append_assoc, List.append_assoc] at hstream
    rw [his, allowed_append] at hfit
    obtain ⟨rest, hrest, hleft⟩ := uplink_run_stream hps hs hfit.1 hstream
    have hrest_fits : ∀ p ∈ rest, (frameOf p).length ≤ 256 := fun p hp ↦
      hps p (by rw [← hrest]; exact List.mem_append_right _ hp)
    rw [← List.append_assoc] at hleft
    obtain ⟨rest', hnext, -⟩ := deframe_delivers hlen rest _ hrest_fits hleft
    rw [hout, Option.toList_some, List.singleton_append] at hnext
    rw [← hnext] at hleft hrest_fits
    rcases encodeAll_cut hleft with ⟨r, hr, -⟩ | ⟨missing, hcut, hmissing⟩
    · exact ⟨r, hr⟩
    · have hq := hrest_fits q List.mem_cons_self
      have hge := frameOf_length_ge q
      rw [deframe_cut hcut hmissing (by omega)] at hout
      exact absurd hout (by simp)
  · -- a complete frame at the front is forwarded
    rintro ⟨r, hr⟩
    rw [hr, deframe_frame r (payload_length_of_frame hr hlen)]

/-- Two frames in three pieces: the second piece ends the first frame and starts the second one. -/
def twoFrameRun : List IterationInput :=
  [uartIteration [0x7E, 0x00, 0x01, 0x2A], uartIteration [0x7A, 0x85, 0x7E, 0x00],
    uartIteration [0x01, 0x2B]]

theorem uplink_transparent_two_frames :
    ∃ rest, forwarded bridgeStart twoFrameRun ++ rest = [[0x2A], [0x2B]] ∧
      (runState bridgeIteration bridgeStart twoFrameRun).uplink.pending ++ [0x6A, 0xA4] =
        encodeAll frameOf rest ∧
      ∀ other : List Bytes, (∀ p ∈ other, p.length < 65536) →
        (runState bridgeIteration bridgeStart twoFrameRun).uplink.pending ++ [0x6A, 0xA4] =
          encodeAll frameOf other →
        other = rest := by
  have hinitial : bridgeStart.Initial := rfl
  have hfit : Allowed bridgeIteration ChunkFits bridgeStart twoFrameRun := by
    simp only [twoFrameRun, allowed_cons]
    exact ⟨by decide +kernel, by decide +kernel, by decide +kernel, allowed_nil _ _ _⟩
  have hps : ∀ p ∈ [[0x2A], [0x2B]], (frameOf p).length ≤ 256 := by decide +kernel
  have hstream : twoFrameRun.flatMap (·.uartChunk) ++ [0x6A, 0xA4] =
      encodeAll frameOf [[0x2A], [0x2B]] := by decide +kernel
  exact (uplink_transparent hps hinitial hfit hstream).1

end SubmarineMonitor
