import SubmarineMonitor.Bridge.Uplink
import SubmarineMonitor.Protocol.FlippedBits

/-!
# NoisyLine — the uplink on a line that flips bits

A frame with an odd number of flipped bits behind LENGTH, or with two, is thrown away as a whole as long as
the line leaves its escapes alone.  The frames in front of it and behind it are forwarded, in order and
unchanged, however the stream is cut into chunks (`uplink_drops_flipped`).
-/

open Reasoning

namespace SubmarineMonitor

structure SentFrame where
  payload : Bytes
  flips : List Nat
  deriving DecidableEq, Repr

def SentFrame.onLine (f : SentFrame) : Bytes := flippedFrame f.payload f.flips

/-- The frame fits in `uartRxBuf`, and its flipped bits, if any, are an odd number or two different ones
    behind LENGTH that make or unmake no escape. -/
structure SentFrame.Detectable (f : SentFrame) : Prop where
  fits : f.onLine.length ≤ 256
  behind : ∀ q ∈ f.flips, q < 8 * (f.payload.length + 2)
  escapes : KeepsEscapes f.payload f.flips
  flips : f.flips = [] ∨ f.flips.length % 2 = 1 ∨ ∃ a b, f.flips = [a, b] ∧ a ≠ b

def SentFrame.intact (f : SentFrame) : List Bytes := if f.flips = [] then [f.payload] else []

theorem SentFrame.Detectable.payload_length {f : SentFrame} (h : f.Detectable) :
    f.payload.length ≤ 251 := by
  have hframe := frameOf_length_ge f.payload
  have hfits := h.fits
  rw [onLine, flippedFrame_length] at hfits
  omega

/-- In a frame that fits in `uartRxBuf` no two bits are 32767 apart. -/
theorem SentFrame.Detectable.flipSum_ne_zero {f : SentFrame} (h : f.Detectable)
    (hflips : f.flips ≠ []) : flipSum f.flips ≠ 0 := by
  rcases h.flips with hnil | hodd | ⟨a, b, hab, hne⟩
  · exact absurd hnil hflips
  · exact flipSum_ne_zero_of_odd hodd
  · have hlength := h.payload_length
    have hbehind := h.behind
    rw [hab] at hbehind ⊢
    have ha := hbehind a List.mem_cons_self
    have hb := hbehind b (List.mem_cons_of_mem a List.mem_cons_self)
    rw [ne_eq, flipSum_pair_iff]
    omega

theorem deframe_onLine {f : SentFrame} (h : f.Detectable) (rest : Bytes) :
    (deframe (f.onLine ++ rest)).2.toList = f.intact ∧ (deframe (f.onLine ++ rest)).1 = rest := by
  have hlength := h.payload_length
  have hparse := @parseFrame_flippedFrame f.payload f.flips 256 h.behind h.escapes (by omega) (by omega)
    rest
  have hdrop : (f.onLine ++ rest).drop (flippedFrame f.payload f.flips).length = rest :=
    List.drop_left
  rw [SentFrame.onLine] at hdrop ⊢
  by_cases hflips : f.flips = []
  · have hsum : flipSum f.flips = 0 := by rw [hflips]; rfl
    have hpayload : flippedPayload f.payload f.flips = f.payload := by
      rw [flippedPayload, hflips]
      exact List.take_left
    rw [if_pos hsum, hpayload] at hparse
    rw [deframe, hparse, SentFrame.intact, if_pos hflips]
    exact ⟨rfl, hdrop⟩
  · rw [if_neg (h.flipSum_ne_zero hflips)] at hparse
    rw [deframe, hparse, SentFrame.intact, if_neg hflips]
    exact ⟨rfl, hdrop⟩

theorem deframe_passes (l : Bytes) :
    Passes SentFrame.onLine SentFrame.Detectable SentFrame.intact l (deframe l).2 (deframe l).1 := by
  refine passes_of_cut (fun f r hf h ↦ ?_) (fun f missing hf h hmissing ↦ ?_) (fun h ↦ ?_)
  · rw [h]
    exact deframe_onLine hf r
  · have hlength := hf.payload_length
    have hincomplete := @parseFrame_flippedFrame_cut f.payload f.flips 256 hf.behind hf.escapes
      (by omega) (by omega) _ _ h hmissing
    rw [deframe_incomplete hincomplete]
    exact ⟨rfl, rfl⟩
  · rw [h]
    exact ⟨rfl, rfl⟩

theorem uplink_passes {fs : List SentFrame} {s : BridgeState} {is : List IterationInput}
    {unread : Bytes} (hfs : ∀ f ∈ fs, f.Detectable) (hs : s.Initial)
    (hfit : Allowed bridgeIteration ChunkFits s is)
    (hstream : is.flatMap (·.uartChunk) ++ unread = encodeAll SentFrame.onLine fs) :
    ∃ taken rest, taken ++ rest = fs ∧ forwarded s is = taken.flatMap SentFrame.intact ∧
      (runState bridgeIteration s is).uplink.pending ++ unread =
        encodeAll SentFrame.onLine rest := by
  have hpass : ∀ (s : BridgeState) (i : IterationInput), UplinkBounded s → ChunkFits s i →
      Passes SentFrame.onLine SentFrame.Detectable SentFrame.intact (s.uplink.pending ++ i.uartChunk)
        (bridgeIteration s i).2.uplinkPayload (bridgeIteration s i).1.uplink.pending := by
    intro s i hs hi
    have hstep := bridgeIteration_pending hs hi
    rw [hstep.1, hstep.2]
    exact deframe_passes _
  have hstart : s.uplink.pending ++ (is.flatMap (·.uartChunk) ++ unread) =
      encodeAll SentFrame.onLine fs := by
    rw [hs.pending, List.nil_append]
    exact hstream
  exact run_passes uplinkBounded_step hpass hs.bounded hfit hfs hstart

/-- Each iteration in which the line is quiet takes one of the frames that wait. -/
theorem uplink_catches_up {fs : List SentFrame} {s : BridgeState} {quiet : List IterationInput}
    (hfs : ∀ f ∈ fs, f.Detectable) (hs : UplinkBounded s)
    (hpending : s.uplink.pending = encodeAll SentFrame.onLine fs)
    (hquiet : ∀ i ∈ quiet, i.uartChunk = []) (hlen : fs.length ≤ quiet.length) :
    forwarded s quiet = fs.flatMap SentFrame.intact ∧
      (runState bridgeIteration s quiet).uplink.pending = [] := by
  induction quiet generalizing s fs with
  | nil =>
      obtain rfl := List.length_eq_zero_iff.mp (Nat.le_zero.mp hlen)
      exact ⟨rfl, hpending⟩
  | cons i quiet ih =>
      have hi := hquiet i List.mem_cons_self
      have hchunk : ChunkFits s i := by
        rw [ChunkFits, hi]
        exact Nat.zero_le _
      have hstep := bridgeIteration_pending hs hchunk
      have htail := fun j hj ↦ hquiet j (List.mem_cons_of_mem i hj)
      rw [hi, List.append_nil, hpending] at hstep
      rw [forwarded, filterMap_runOutputs_cons, runState_cons]
      cases fs with
      | nil =>
          have hrest := @ih [] _ (fun f hf ↦ absurd hf List.not_mem_nil)
            (uplinkBounded_step s i hs hchunk) hstep.1 htail (Nat.zero_le _)
          rw [hstep.2]
          exact hrest
      | cons f fs =>
          have hf := deframe_onLine (hfs f List.mem_cons_self) (encodeAll SentFrame.onLine fs)
          have hrest := @ih fs _ (fun g hg ↦ hfs g (List.mem_cons_of_mem f hg))
            (uplinkBounded_step s i hs hchunk) (hstep.1.trans hf.2) htail
            (Nat.le_of_succ_le_succ hlen)
          rw [encodeAll_cons] at hstep
          rw [hstep.2, hf.1, List.flatMap_cons]
          exact ⟨congrArg (f.intact ++ ·) hrest.1, hrest.2⟩

/-- In every run on such a stream what has been forwarded are the payloads of the intact frames among
    those that have been taken, and the others wait in the buffer or are unread.  When all has been read,
    as many iterations on a quiet line as frames wait forward the rest. -/
theorem uplink_drops_flipped {fs : List SentFrame} {s : BridgeState} {is : List IterationInput}
    {unread : Bytes} (hfs : ∀ f ∈ fs, f.Detectable) (hs : s.Initial)
    (hfit : Allowed bridgeIteration ChunkFits s is)
    (hstream : is.flatMap (·.uartChunk) ++ unread = encodeAll SentFrame.onLine fs) :
    ∃ taken rest, taken ++ rest = fs ∧ forwarded s is = taken.flatMap SentFrame.intact ∧
      (runState bridgeIteration s is).uplink.pending ++ unread = encodeAll SentFrame.onLine rest ∧
      (unread = [] → ∀ quiet : List IterationInput, (∀ i ∈ quiet, i.uartChunk = []) →
        rest.length ≤ quiet.length → forwarded s (is ++ quiet) = fs.flatMap SentFrame.intact) := by
  obtain ⟨taken, rest, hsplit, hforwarded, hleft⟩ := uplink_passes hfs hs hfit hstream
  refine ⟨taken, rest, hsplit, hforwarded, hleft, fun hunread quiet hquiet hlen ↦ ?_⟩
  rw [hunread, List.append_nil] at hleft
  have hbounded := (run_invariant uplinkBounded_step hs.bounded hfit).1
  have hrest : ∀ f ∈ rest, f.Detectable := fun f hf ↦
    hfs f (by rw [← hsplit]; exact List.mem_append_right _ hf)
  have hquiet := (uplink_catches_up hrest hbounded hleft hquiet hlen).1
  rw [forwarded] at hforwarded hquiet ⊢
  rw [runOutputs_append, List.filterMap_append, hforwarded, hquiet, ← List.flatMap_append, hsplit]

/-- Two frames in one piece, the first of them with two flipped bits. -/
theorem uplink_drops_flipped_first :
    let fs : List SentFrame := [⟨[0x2A], [16, 5]⟩, ⟨[0x2B], []⟩]
    let is := [uartIteration (fs.flatMap SentFrame.onLine)]
    ∃ taken rest, taken ++ rest = fs ∧
      forwarded bridgeStart is = taken.flatMap SentFrame.intact ∧
      (runState bridgeIteration bridgeStart is).uplink.pending ++ [] =
        encodeAll SentFrame.onLine rest ∧
      (([] : Bytes) = [] → ∀ quiet : List IterationInput, (∀ i ∈ quiet, i.uartChunk = []) →
        rest.length ≤ quiet.length →
        forwarded bridgeStart (is ++ quiet) = fs.flatMap SentFrame.intact) := by
  intro fs is
  have hdetectable : ∀ f ∈ fs, f.Detectable := by
    intro f hf
    rcases List.mem_cons.mp hf with rfl | hf
    · exact ⟨by decide +kernel, by decide, by decide +kernel, .inr (.inr ⟨16, 5, rfl, by decide⟩)⟩
    · obtain rfl := List.mem_singleton.mp hf
      exact ⟨by decide +kernel, by decide, by decide +kernel, .inl rfl⟩
  have hfit : Allowed bridgeIteration ChunkFits bridgeStart is := by
    simp only [is, allowed_cons]
    exact ⟨by decide +kernel, allowed_nil _ _ _⟩
  exact uplink_drops_flipped hdetectable rfl hfit (by decide +kernel)

end SubmarineMonitor
