import SubmarineMonitor.Protocol.FrameStream
import SubmarineMonitor.Reasoning.Incremental

/-!
# FrameChunks — the decoder on prefixes and extensions of a buffer

What `Frame_Decode` consumes is the shortest prefix it has a result for, at least START, LENGTH, the
payload and the CRC; with more behind it the result stays.  So a loop that decodes and discards does
not see how the stream was cut (`frameDecode_incremental`).
-/

open Reasoning

namespace SubmarineMonitor

/-! ## 1. Definitions -/

def decodedLength (inBuf : Mem) (inLen : Nat) : Option Nat :=
  let startIdx := frameScanStart inBuf inLen inLen 0
  if startIdx ≥ inLen then none
  else
    (destuffReadBytes inBuf inLen 2 (u16 (startIdx + 1))).map fun p ↦
      protocolGetU16 (ofList p.1 0)

/-- The results that set `*outConsumed`. -/
def FrameDecodeResult.Consumes (r : FrameDecodeResult) (consumed : Nat) : Prop :=
  (∃ p, r = .ok p consumed) ∨ r = .malformed consumed

def DecodesStably (outPayloadCap : Nat) : Prop :=
  ∀ (inBuf inBuf' : Mem) (inLen : Nat) (s : Bytes), inLen + s.length ≤ 65535 →
    slice inBuf' 0 (inLen + s.length) = slice inBuf 0 inLen ++ s →
    frameDecode inBuf inLen outPayloadCap ≠ .incomplete →
    frameDecode inBuf' (inLen + s.length) outPayloadCap = frameDecode inBuf inLen outPayloadCap

structure ConsumesFrame (inBuf : Mem) (inLen outPayloadCap consumed len : Nat) : Prop where
  lower : 5 + len ≤ consumed
  upper : consumed ≤ inLen
  payload : ∀ p, frameDecode inBuf inLen outPayloadCap = .ok p consumed → p.length = len
  enough : frameDecode inBuf consumed outPayloadCap = frameDecode inBuf inLen outPayloadCap
  shorter : ∀ n < consumed, frameDecode inBuf n outPayloadCap = .incomplete

def ConsumesShortest (outPayloadCap : Nat) : Prop :=
  ∀ (inBuf : Mem) (inLen consumed : Nat), inLen ≤ 65535 →
    (frameDecode inBuf inLen outPayloadCap).Consumes consumed →
    ∃ len, decodedLength inBuf inLen = some len ∧
      ConsumesFrame inBuf inLen outPayloadCap consumed len

def FrameDecodeResult.discards : FrameDecodeResult → Option (FrameDecodeResult × Nat)
  | .ok payload consumed => some (.ok payload consumed, consumed)
  | .malformed consumed => some (.malformed consumed, consumed)
  | .incomplete => none
  | .bufferTooSmall => none

def decodeNext (outPayloadCap : Nat) (buf : Bytes) : Option (FrameDecodeResult × Nat) :=
  (frameDecode (ofList buf 0) buf.length outPayloadCap).discards

/-- The results of the loop, the last of which discards nothing, and the bytes that are left. -/
def decodeStream (outPayloadCap : Nat) (chunks : List Bytes) : List FrameDecodeResult × Bytes :=
  let out := feed (decodeNext outPayloadCap) [] chunks
  (out.1 ++ [frameDecode (ofList out.2 0) out.2.length outPayloadCap], out.2)

def ChunkingIrrelevant (outPayloadCap : Nat) : Prop :=
  ∀ chunks chunks' : List Bytes, chunks.flatten = chunks'.flatten →
    FeedsWithin 65535 (decodeNext outPayloadCap) [] chunks →
    FeedsWithin 65535 (decodeNext outPayloadCap) [] chunks' →
    decodeStream outPayloadCap chunks = decodeStream outPayloadCap chunks'

/-! ## 2. The length field -/

def lengthField (l : Bytes) : Option Nat :=
  match l.dropWhile (· ≠ protoFrameStart) with
  | [] => none
  | _ :: wire => (frameCode.readBytes 2 wire).map fun p ↦ protocolGetU16 (ofList p.1 0)

theorem decodedLength_eq (inBuf : Mem) (inLen : Nat) (hlen : inLen ≤ 65535) :
    decodedLength inBuf inLen = lengthField (slice inBuf 0 inLen) := by
  unfold decodedLength lengthField
  rcases frameScanStart_cases inBuf hlen with
    ⟨hdrop, hscan⟩ | ⟨b, wire, hdrop, hsuffix, hscan, hfirst⟩
  · rw [hdrop, if_pos hscan]
  have hwire := eq_slice_of_suffix (n := inLen) (i := 0) hsuffix (Nat.zero_le _)
  rw [hdrop, if_neg hscan, hfirst, destuffReadBytes_eq 2 hlen (Nat.sub_le _ _), ← hwire,
    Option.map_map]
  rfl

theorem lengthField_noise {noise : Bytes} (wire : Bytes) (h : protoFrameStart ∉ noise) :
    lengthField (noise ++ protoFrameStart :: wire) =
      (frameCode.readBytes 2 wire).map fun p ↦ protocolGetU16 (ofList p.1 0) := by
  rw [lengthField, dropWhile_noise wire h]

/-- What is consumed has room for START, LENGTH, the payload and the CRC. -/
theorem parseFrame_consumes {cap consumed : Nat} {l : Bytes}
    (h : (parseFrame cap l).Consumes consumed) :
    ∃ len, lengthField l = some len ∧ 5 + len ≤ consumed ∧
      ∀ p, parseFrame cap l = .ok p consumed → p.length = len := by
  obtain ⟨noise, wire, lenBytes, tail, p, hl, hnoise, hhead, hp, hlower, -, hpayload⟩ :=
    parseFrame_parts h
  refine ⟨p.length, ?_, hlower, fun q hq ↦ congrArg List.length (hpayload q hq)⟩
  rw [hl, lengthField_noise wire hnoise, hhead, hp]
  rfl

theorem parseFrame_shorter {cap consumed n : Nat} {l : Bytes}
    (h : (parseFrame cap l).Consumes consumed) (hn : n < consumed) :
    parseFrame cap (l.take n) = .incomplete := by
  by_contra hresult
  -- the result on the shorter buffer would stay, and consumes no more than there is
  have hstable := parseFrame_append hresult (l.drop n)
  rw [List.take_append_drop] at hstable
  rw [hstable] at h
  have hle := (parseFrame_consumed h).2
  rw [List.length_take] at hle
  omega

/-! ## 3. Extensions and prefixes -/

theorem frameDecode_stable (outPayloadCap : Nat) : DecodesStably outPayloadCap := by
  intro inBuf inBuf' inLen s hlen hext hresult
  have hall := frameDecode_eq_parseFrame inBuf inLen outPayloadCap (by omega)
  rw [hall] at hresult
  rw [hall, frameDecode_eq_parseFrame _ _ _ hlen, hext]
  exact parseFrame_append hresult s

theorem frameDecode_consumes (outPayloadCap : Nat) : ConsumesShortest outPayloadCap := by
  intro inBuf inLen consumed hlen h
  have hall := frameDecode_eq_parseFrame inBuf inLen outPayloadCap hlen
  rw [hall] at h
  obtain ⟨len, hfield, hlower, hpayload⟩ := parseFrame_consumes h
  have hupper := (parseFrame_consumed h).2
  rw [slice_length] at hupper
  have hfront : ∀ n ≤ inLen, frameDecode inBuf n outPayloadCap =
      parseFrame outPayloadCap ((slice inBuf 0 inLen).take n) := by
    intro n hn
    rw [frameDecode_eq_parseFrame _ _ _ (by omega), slice_take _ _ hn]
  refine ⟨len, by rw [decodedLength_eq _ _ hlen, hfield], ?_⟩
  exact
    { lower := hlower
      upper := hupper
      payload := fun p hp ↦ hpayload p (by rw [← hall, hp])
      enough := by rw [hfront consumed hupper, hall, parseFrame_take h]
      shorter := fun n hn ↦ by rw [hfront n (by omega), parseFrame_shorter h hn] }

/-! ## 4. Decoding and discarding -/

theorem FrameDecodeResult.discards_some {r r' : FrameDecodeResult} {consumed : Nat} :
    r.discards = some (r', consumed) ↔ r = r' ∧ r.Consumes consumed := by
  cases r with
  | ok payload n =>
      simp only [FrameDecodeResult.discards, Option.some.injEq, Prod.mk.injEq]
      constructor
      · rintro ⟨rfl, rfl⟩
        exact ⟨rfl, .inl ⟨payload, rfl⟩⟩
      · rintro ⟨rfl, ⟨p, hp⟩ | hp⟩
        · exact ⟨rfl, (FrameDecodeResult.ok.inj hp).2⟩
        · exact absurd hp (by simp)
  | malformed n =>
      simp only [FrameDecodeResult.discards, Option.some.injEq, Prod.mk.injEq]
      constructor
      · rintro ⟨rfl, rfl⟩
        exact ⟨rfl, .inr rfl⟩
      · rintro ⟨rfl, ⟨p, hp⟩ | hp⟩
        · exact absurd hp (by simp)
        · exact ⟨rfl, FrameDecodeResult.malformed.inj hp⟩
  | incomplete =>
      refine iff_of_false (by simp [FrameDecodeResult.discards]) ?_
      rintro ⟨-, ⟨p, hp⟩ | hp⟩
      · exact absurd hp (by simp)
      · exact absurd hp (by simp)
  | bufferTooSmall =>
      refine iff_of_false (by simp [FrameDecodeResult.discards]) ?_
      rintro ⟨-, ⟨p, hp⟩ | hp⟩
      · exact absurd hp (by simp)
      · exact absurd hp (by simp)

theorem FrameDecodeResult.Consumes.ne_incomplete {r : FrameDecodeResult} {consumed : Nat}
    (h : r.Consumes consumed) : r ≠ .incomplete := by
  rintro rfl
  rcases h with ⟨p, hp⟩ | hp
  · exact absurd hp (by simp)
  · exact absurd hp (by simp)

theorem parseFrame_incremental (outPayloadCap : Nat) :
    Incremental fun l ↦ (parseFrame outPayloadCap l).discards where
  consumes h := by
    obtain ⟨rfl, hconsumes⟩ := FrameDecodeResult.discards_some.mp h
    exact parseFrame_consumed hconsumes
  stable s h := by
    obtain ⟨-, hconsumes⟩ := FrameDecodeResult.discards_some.mp h
    rw [parseFrame_append hconsumes.ne_incomplete]
    exact h

theorem decodeNext_eq (outPayloadCap : Nat) (l : Bytes) (hl : l.length ≤ 65535) :
    decodeNext outPayloadCap l = (parseFrame outPayloadCap l).discards := by
  rw [decodeNext, frameDecode_eq_parseFrame _ _ _ hl, slice_ofList]

theorem chunking_irrelevant (outPayloadCap : Nat) : ChunkingIrrelevant outPayloadCap := by
  intro chunks chunks' hsame hfits hfits'
  have hfeed := feed_eq_feed (parseFrame_incremental outPayloadCap) (decodeNext_eq outPayloadCap)
    hsame hfits hfits'
  rw [decodeStream, decodeStream, hfeed]

/-- **The decoder is incremental.** -/
theorem frameDecode_incremental (outPayloadCap : Nat) :
    DecodesStably outPayloadCap ∧ ConsumesShortest outPayloadCap ∧
      ChunkingIrrelevant outPayloadCap :=
  ⟨frameDecode_stable outPayloadCap, frameDecode_consumes outPayloadCap,
    chunking_irrelevant outPayloadCap⟩

end SubmarineMonitor
