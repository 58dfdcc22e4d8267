import SubmarineMonitor.Protocol.Frame
import SubmarineMonitor.Reasoning.Stuffing
import Mathlib.Data.List.TakeWhile

/-!
# FrameWire — frames as byte strings

The two index-driven loops of `Frame_Encode` and `Frame_Decode` are the writer and the reader of an
escape code.  `frameOf` is the frame of a payload as a byte string and `parseFrame` the decoder on
byte strings; `frameEncode_eq_frameOf` and `frameDecode_eq_parseFrame` connect the code to them,
and everything about streams of frames is proved of `parseFrame`.
-/

open Reasoning

namespace SubmarineMonitor

/-! ## 1. The escape code of the link -/

def frameCode : EscapeCode UInt8 where
  start := protoFrameStart
  escape := protoFrameEscape
  flip := (· ^^^ protoFrameEscapeXor)
  flip_flip b := by rw [UInt8.xor_assoc, UInt8.xor_self, UInt8.xor_zero]
  escape_ne_start := by decide
  flip_start_ne_start := by decide
  flip_escape_ne_start := by decide

def frameContent (p : Bytes) : Bytes :=
  protocolPutU16 p.length ++ p ++
    protocolPutU16 (frameCrc (protocolPutU16 p.length) p).toNat

def frameOf (p : Bytes) : Bytes := protoFrameStart :: frameCode.stuff (frameContent p)

/-- `Frame_Decode` behind START, in a buffer of `total` bytes that ends with `wire`. -/
def parseWire (outPayloadCap total : Nat) (wire : Bytes) : FrameDecodeResult :=
  match frameCode.readBytes 2 wire with
  | none => .incomplete
  | some (lenBytes, wire) =>
      let payloadLen := protocolGetU16 (ofList lenBytes 0)
      if payloadLen > outPayloadCap then .bufferTooSmall
      else
        match frameCode.readBytes payloadLen wire with
        | none => .incomplete
        | some (outPayload, wire) =>
            match frameCode.readBytes 2 wire with
            | none => .incomplete
            | some (crcBytes, wire) =>
                if (frameCrc lenBytes outPayload).toNat ≠ protocolGetU16 (ofList crcBytes 0)
                then .malformed (total - wire.length)
                else .ok outPayload (total - wire.length)

/-- `Frame_Decode` on a byte string. -/
def parseFrame (outPayloadCap : Nat) (l : Bytes) : FrameDecodeResult :=
  match l.dropWhile (· ≠ protoFrameStart) with
  | [] => .incomplete
  | _ :: wire => parseWire outPayloadCap l.length wire

/-! ## 2. The writer -/

theorem Writer.put_eq (w : Writer) (b : UInt8) (h : w.idx < 65535) :
    w.put b = { out := store w.out w.idx [b], idx := w.idx + 1 } := by
  rw [Writer.put, u16_of_lt (by omega)]

theorem stuffWriteByte_eq {outCap : Nat} (w : Writer) (b : UInt8) (hcap : outCap ≤ 65535)
    (hfit : w.idx + (frameCode.stuffByte b).length ≤ outCap) :
    stuffWriteByte outCap w b =
      some { out := store w.out w.idx (frameCode.stuffByte b),
             idx := w.idx + (frameCode.stuffByte b).length } := by
  have hcode : frameCode.stuffByte b =
      if b = protoFrameStart ∨ b = protoFrameEscape then
        [protoFrameEscape, b ^^^ protoFrameEscapeXor] else [b] := rfl
  unfold stuffWriteByte
  rw [hcode] at hfit ⊢
  by_cases hb : b = protoFrameStart ∨ b = protoFrameEscape
  · simp only [if_pos hb, List.length_cons, List.length_nil] at hfit ⊢
    rw [u16_of_lt (by omega), if_neg (by omega), w.put_eq _ (by omega),
      Writer.put_eq _ _ (show w.idx + 1 < 65535 by omega)]
    simp only [Option.some.injEq, Writer.mk.injEq, and_true]
    exact store_append w.out w.idx [protoFrameEscape] [b ^^^ protoFrameEscapeXor]
  · simp only [if_neg hb, List.length_cons, List.length_nil] at hfit ⊢
    rw [u16_of_lt (by omega), if_neg (by omega), w.put_eq _ (by omega)]

theorem stuffWriteBytes_eq {outCap : Nat} (l : Bytes) (w : Writer) (hcap : outCap ≤ 65535)
    (hfit : w.idx + (frameCode.stuff l).length ≤ outCap) :
    stuffWriteBytes outCap l w =
      .ok { out := store w.out w.idx (frameCode.stuff l),
            idx := w.idx + (frameCode.stuff l).length } := by
  -- induction on the bytes, with the index where the next one goes
  induction l generalizing w with
  | nil => simp only [stuffWriteBytes, EscapeCode.stuff_nil, store_nil, List.length_nil, Nat.add_zero]
  | cons b l ih =>
      rw [EscapeCode.stuff_cons, List.length_append] at hfit
      rw [stuffWriteBytes, stuffWriteByte_eq w b hcap (by omega)]
      simp only
      rw [ih _ (by simp only; omega), store_append, ← EscapeCode.stuff_cons,
        EscapeCode.stuff_cons, List.length_append, Nat.add_assoc]

/-- Where the frame fits, `Frame_Encode` writes exactly the frame. -/
theorem frameEncode_eq_frameOf (payload : Mem) (payloadLen : Nat) (outBuf : Mem)
    (outBufCap outWritten : Nat) (hcap : outBufCap ≤ 65535)
    (hfit : (frameOf (slice payload 0 payloadLen)).length ≤ outBufCap) :
    frameEncode payload payloadLen outBuf outBufCap outWritten =
      { result := .ok, outBuf := store outBuf 0 (frameOf (slice payload 0 payloadLen)),
        outWritten := (frameOf (slice payload 0 payloadLen)).length } := by
  have hstart : Writer.put { out := outBuf, idx := 0 } protoFrameStart =
      { out := store outBuf 0 [protoFrameStart], idx := 1 } :=
    Writer.put_eq _ _ (show 0 < 65535 by decide)
  have hcontent : frameCode.stuff (frameContent (slice payload 0 payloadLen)) =
      frameCode.stuff (protocolPutU16 payloadLen) ++
        (frameCode.stuff (slice payload 0 payloadLen) ++
          frameCode.stuff (protocolPutU16
            (frameCrc (protocolPutU16 payloadLen) (slice payload 0 payloadLen)).toNat)) := by
    rw [frameContent, slice_length, EscapeCode.stuff_append, EscapeCode.stuff_append,
      List.append_assoc]
  have hlen := congrArg List.length hcontent
  simp only [List.length_append] at hlen
  rw [frameOf, List.length_cons] at hfit
  unfold frameEncode
  rw [if_neg (by omega), hstart]
  -- the three loops write the three parts of the content one behind the other
  simp only [bind, Except.bind]
  rw [stuffWriteBytes_eq _ _ hcap (by simp only; omega)]
  simp only
  rw [stuffWriteBytes_eq _ _ hcap (by simp only; omega)]
  simp only
  rw [stuffWriteBytes_eq _ _ hcap (by simp only; omega)]
  simp only [EncodeOut.mk.injEq, true_and]
  refine ⟨?_, by rw [frameOf, List.length_cons]; omega⟩
  rw [Nat.add_assoc, ← List.length_append, store_append _ 1, store_append _ 1,
    show (1 : Nat) = 0 + [protoFrameStart].length from rfl, store_append, List.append_assoc,
    ← hcontent]
  rfl

/-! ## 3. The reader -/

/-- What is left unread of the first `inLen` cells is the tail of the buffer. -/
theorem eq_slice_of_suffix {m : Mem} {i n : Nat} {r : Bytes} (h : r <:+ slice m i (n - i))
    (hi : i ≤ n) : r = slice m (n - r.length) (n - (n - r.length)) := by
  have hle := h.length_le
  rw [slice_length] at hle
  obtain ⟨s, hs⟩ := h
  have hlen := congrArg List.length hs
  rw [List.length_append, slice_length] at hlen
  have hdrop := slice_drop m i (show s.length ≤ n - i by omega)
  rw [← hs, List.drop_left] at hdrop
  rw [hdrop, slice_length]
  congr 1 <;> omega

theorem destuffReadByte_eq {inBuf : Mem} {inLen inIdx : Nat} (hlen : inLen ≤ 65535) :
    destuffReadByte inBuf inLen inIdx =
      (frameCode.readByte (slice inBuf inIdx (inLen - inIdx))).map
        fun p ↦ (p.1, inLen - p.2.length) := by
  unfold destuffReadByte
  by_cases hend : inIdx ≥ inLen
  · rw [if_pos hend, slice_sub_of_ge _ hend]
    rfl
  rw [if_neg hend, slice_sub_of_lt _ (by omega)]
  by_cases hesc : inBuf inIdx = protoFrameEscape
  · rw [if_pos hesc, u16_of_lt (by omega), hesc]
    -- a trailing escape byte is not committed
    by_cases hpair : inIdx + 1 ≥ inLen
    · rw [if_pos hpair, slice_sub_of_ge _ hpair]
      rfl
    · rw [if_neg hpair, slice_sub_of_lt _ (by omega), u16_of_lt (by omega),
        show protoFrameEscape = frameCode.escape from rfl, EscapeCode.readByte_escape,
        Option.map_some, slice_length]
      simp only [Option.some.injEq, Prod.mk.injEq]
      exact ⟨rfl, by omega⟩
  · rw [if_neg hesc, u16_of_lt (by omega), frameCode.readByte_plain hesc, Option.map_some,
      slice_length]
    simp only [Option.some.injEq, Prod.mk.injEq, true_and]
    omega

theorem destuffReadBytes_eq {inBuf : Mem} {inLen : Nat} (n : Nat) {inIdx : Nat}
    (hlen : inLen ≤ 65535) (hidx : inIdx ≤ inLen) :
    destuffReadBytes inBuf inLen n inIdx =
      (frameCode.readBytes n (slice inBuf inIdx (inLen - inIdx))).map
        fun p ↦ (p.1, inLen - p.2.length) := by
  induction n generalizing inIdx with
  | zero =>
      simp only [destuffReadBytes, EscapeCode.readBytes_zero, Option.map_some, slice_length]
      congr 2; omega
  | succ n ih =>
      rw [destuffReadBytes, destuffReadByte_eq hlen, EscapeCode.readBytes_succ]
      rcases hread : frameCode.readByte (slice inBuf inIdx (inLen - inIdx)) with _ | ⟨b, r⟩
      · rfl
      have htail := eq_slice_of_suffix (frameCode.readByte_suffix hread).1 hidx
      simp only [Option.map_some, Option.bind_some]
      rw [ih (Nat.sub_le _ _), ← htail, Option.map_map, Option.map_map]
      rfl

theorem frameScanStart_eq {inBuf : Mem} {inLen fuel startIdx : Nat} (hlen : inLen ≤ 65535)
    (hidx : startIdx ≤ inLen) (hfuel : inLen - startIdx ≤ fuel) :
    frameScanStart inBuf inLen fuel startIdx = inLen -
      ((slice inBuf startIdx (inLen - startIdx)).dropWhile (· ≠ protoFrameStart)).length := by
  -- one iteration of the loop is one step of `dropWhile`
  induction fuel generalizing startIdx with
  | zero =>
      rw [frameScanStart, slice_sub_of_ge _ (by omega), List.dropWhile_nil, List.length_nil]
      omega
  | succ fuel ih =>
      rw [frameScanStart]
      by_cases hend : startIdx < inLen
      · rw [slice_sub_of_lt _ hend, List.dropWhile_cons]
        by_cases hb : inBuf startIdx = protoFrameStart
        · rw [if_neg (by tauto), if_neg (by simpa using hb), List.length_cons, slice_length]
          omega
        · rw [if_pos ⟨hend, hb⟩, if_pos (by simpa using hb), u16_of_lt (by omega),
            ih (by omega) (by omega)]
      · rw [if_neg (by tauto), slice_sub_of_ge _ (by omega), List.dropWhile_nil, List.length_nil]
        omega

/-- There is no START, or what follows the first one is the rest of the buffer. -/
theorem frameScanStart_cases (inBuf : Mem) {inLen : Nat} (hlen : inLen ≤ 65535) :
    ((slice inBuf 0 inLen).dropWhile (· ≠ protoFrameStart) = [] ∧
        frameScanStart inBuf inLen inLen 0 ≥ inLen) ∨
      ∃ b wire, (slice inBuf 0 inLen).dropWhile (· ≠ protoFrameStart) = b :: wire ∧
        wire <:+ slice inBuf 0 inLen ∧ ¬ frameScanStart inBuf inLen inLen 0 ≥ inLen ∧
        u16 (frameScanStart inBuf inLen inLen 0 + 1) = inLen - wire.length := by
  have hscan := @frameScanStart_eq inBuf inLen inLen 0 hlen (Nat.zero_le _) (Nat.sub_le _ _)
  rw [Nat.sub_zero] at hscan
  have hsuffix := List.dropWhile_suffix (l := slice inBuf 0 inLen)
    (fun b ↦ decide (b ≠ protoFrameStart))
  rw [hscan]
  cases hdrop : (slice inBuf 0 inLen).dropWhile (fun b ↦ decide (b ≠ protoFrameStart)) with
  | nil => exact .inl ⟨rfl, by rw [List.length_nil]; omega⟩
  | cons b wire =>
      rw [hdrop] at hsuffix
      have hle := hsuffix.length_le
      rw [slice_length, List.length_cons] at hle
      refine .inr ⟨b, wire, rfl, (List.suffix_cons b wire).trans hsuffix, ?_, ?_⟩
      · rw [List.length_cons]
        omega
      · rw [List.length_cons, u16_of_lt (by omega)]
        omega

/-- `Frame_Decode` on a buffer is `parseFrame` on the bytes in it. -/
theorem frameDecode_eq_parseFrame (inBuf : Mem) (inLen outPayloadCap : Nat)
    (hlen : inLen ≤ 65535) :
    frameDecode inBuf inLen outPayloadCap = parseFrame outPayloadCap (slice inBuf 0 inLen) := by
  unfold frameDecode parseFrame parseWire
  rcases frameScanStart_cases inBuf hlen with
    ⟨hdrop, hscan⟩ | ⟨b, wire, hdrop, hsuffix, hscan, hfirst⟩
  · rw [hdrop, if_pos hscan]
  have hwire := eq_slice_of_suffix (n := inLen) (i := 0) hsuffix (Nat.zero_le _)
  rw [hdrop, if_neg hscan, hfirst, destuffReadBytes_eq 2 hlen (Nat.sub_le _ _), ← hwire]
  simp only [slice_length]
  -- the LENGTH field, then what it asks for, then the CRC: each read starts where the last one ended
  rcases hhead : frameCode.readBytes 2 wire with _ | ⟨lenBytes, wire₁⟩
  · rfl
  simp only [Option.map_some]
  -- decided on LENGTH alone
  by_cases hbig : protocolGetU16 (ofList lenBytes 0) > outPayloadCap
  · rw [if_pos hbig, if_pos hbig]
  rw [if_neg hbig, if_neg hbig]
  have hsuffix₁ := (frameCode.readBytes_suffix hhead).1.trans hsuffix
  have hwire₁ := eq_slice_of_suffix (n := inLen) (i := 0) hsuffix₁ (Nat.zero_le _)
  rw [destuffReadBytes_eq _ hlen (Nat.sub_le _ _), ← hwire₁]
  rcases hpay : frameCode.readBytes (protocolGetU16 (ofList lenBytes 0)) wire₁
    with _ | ⟨outPayload, wire₂⟩
  · rfl
  simp only [Option.map_some]
  have hsuffix₂ := (frameCode.readBytes_suffix hpay).1.trans hsuffix₁
  have hwire₂ := eq_slice_of_suffix (n := inLen) (i := 0) hsuffix₂ (Nat.zero_le _)
  rw [destuffReadBytes_eq 2 hlen (Nat.sub_le _ _), ← hwire₂]
  rcases frameCode.readBytes 2 wire₂ with _ | ⟨crcBytes, wire₃⟩
  · rfl
  · rfl

/-! ## 4. What the decoder makes of a stream -/

theorem frameContent_length (p : Bytes) : (frameContent p).length = p.length + 4 := by
  simp only [frameContent, List.length_append, protocolPutU16_length]
  omega

theorem frameOf_length (p : Bytes) :
    (frameOf p).length = 1 + ((frameContent p).map frameCode.cost).sum := by
  rw [frameOf, List.length_cons, EscapeCode.stuff_length, Nat.add_comm]

theorem frameOf_length_ge (p : Bytes) : p.length + 5 ≤ (frameOf p).length := by
  have h := frameCode.length_le_stuff (frameContent p)
  rw [frameContent_length] at h
  rw [frameOf, List.length_cons]
  omega

theorem frameOf_length_le (p : Bytes) : (frameOf p).length ≤ 2 * p.length + 9 := by
  have h := frameCode.stuff_length_le (frameContent p)
  rw [frameContent_length] at h
  rw [frameOf, List.length_cons]
  omega

theorem start_notMem_content (p : Bytes) :
    protoFrameStart ∉ frameCode.stuff (frameContent p) :=
  frameCode.start_notMem_stuff _

theorem protocolGetU16_put {n : Nat} (h : n < 65536) :
    protocolGetU16 (ofList (protocolPutU16 n) 0) = n :=
  protocolGetU16_of_slice h (slice_ofList (protocolPutU16 n) 0)

theorem parseFrame_no_start {cap : Nat} {l : Bytes} (h : protoFrameStart ∉ l) :
    parseFrame cap l = .incomplete := by
  have hdrop : l.dropWhile (fun b ↦ decide (b ≠ protoFrameStart)) = [] := by
    rw [List.dropWhile_eq_nil_iff]
    intro b hb
    simp only [ne_eq, decide_not, Bool.not_eq_eq_eq_not, Bool.not_true, decide_eq_false_iff_not]
    exact fun he ↦ h (he ▸ hb)
  rw [parseFrame, hdrop]

theorem dropWhile_noise {noise : Bytes} (wire : Bytes) (h : protoFrameStart ∉ noise) :
    (noise ++ protoFrameStart :: wire).dropWhile (fun b ↦ decide (b ≠ protoFrameStart)) =
      protoFrameStart :: wire := by
  rw [List.dropWhile_append_of_pos]
  · rw [List.dropWhile_cons, if_neg (by decide)]
  · intro b hb
    simp only [ne_eq, decide_not, Bool.not_eq_eq_eq_not, Bool.not_true, decide_eq_false_iff_not]
    exact fun he ↦ h (he ▸ hb)

theorem parseFrame_noise {cap : Nat} {noise : Bytes} (wire : Bytes)
    (h : protoFrameStart ∉ noise) :
    parseFrame cap (noise ++ protoFrameStart :: wire) =
      parseWire cap (noise.length + (wire.length + 1)) wire := by
  rw [parseFrame, dropWhile_noise wire h, List.length_append, List.length_cons]

theorem parseFrame_start (cap : Nat) (wire : Bytes) :
    parseFrame cap (protoFrameStart :: wire) = parseWire cap (wire.length + 1) wire := by
  have h := @parseFrame_noise cap [] wire List.not_mem_nil
  rwa [List.nil_append, List.length_nil, Nat.zero_add] at h

theorem parseWire_frame {cap total : Nat} {p : Bytes} (rest : Bytes) (hcap : p.length ≤ cap)
    (hlen : p.length < 65536) :
    parseWire cap total (frameCode.stuff (frameContent p) ++ rest) =
      .ok p (total - rest.length) := by
  have hcrc : (frameCrc (protocolPutU16 p.length) p).toNat < 65536 := UInt16.toNat_lt _
  have hhead := frameCode.readBytes_stuff (protocolPutU16 p.length)
  have htail := frameCode.readBytes_stuff
    (protocolPutU16 (frameCrc (protocolPutU16 p.length) p).toNat)
  rw [protocolPutU16_length] at hhead htail
  rw [frameContent, EscapeCode.stuff_append, EscapeCode.stuff_append, List.append_assoc,
    List.append_assoc, parseWire, hhead]
  simp only [protocolGetU16_put hlen]
  rw [if_neg (by omega), frameCode.readBytes_stuff]
  simp only
  rw [htail]
  simp only [protocolGetU16_put hcrc, ne_eq, not_true_eq_false, if_false]

/-- **Round trip in a stream.**  Noise, a frame and whatever follows decode to the payload. -/
theorem parseFrame_frame {cap : Nat} {noise p : Bytes} (rest : Bytes)
    (hnoise : protoFrameStart ∉ noise) (hcap : p.length ≤ cap) (hlen : p.length < 65536) :
    parseFrame cap (noise ++ (frameOf p ++ rest)) =
      .ok p (noise.length + (frameOf p).length) := by
  rw [frameOf, List.cons_append, parseFrame_noise _ hnoise, parseWire_frame rest hcap hlen,
    List.length_append, List.length_cons]
  congr 1; omega

theorem parseWire_cut {cap total : Nat} {p t u : Bytes}
    (h : t ++ u = frameCode.stuff (frameContent p)) (hu : u ≠ []) (hcap : p.length ≤ cap)
    (hlen : p.length < 65536) : parseWire cap total t = .incomplete := by
  have hnone := frameCode.readBytes_of_prefix h hu
  rw [frameContent_length] at hnone
  unfold parseWire
  rcases hhead : frameCode.readBytes 2 t with _ | ⟨lenBytes, w⟩
  · rfl
  have hhead' := frameCode.readBytes_append hhead u
  have hstuff := frameCode.readBytes_stuff (protocolPutU16 p.length)
    (frameCode.stuff (p ++ protocolPutU16 (frameCrc (protocolPutU16 p.length) p).toNat))
  rw [← EscapeCode.stuff_append, ← List.append_assoc, ← frameContent, protocolPutU16_length, ← h,
    hhead'] at hstuff
  -- what was read of LENGTH is the LENGTH of `p`
  obtain rfl : lenBytes = protocolPutU16 p.length := (Prod.mk.inj (Option.some.inj hstuff)).1
  simp only [protocolGetU16_put hlen]
  rw [if_neg (by omega)]
  rcases hpay : frameCode.readBytes p.length w with _ | ⟨d, w₂⟩
  · rfl
  rcases hcrc : frameCode.readBytes 2 w₂ with _ | ⟨e, w₃⟩
  · simp only [hcrc]
  -- all of the content was read, so nothing was cut off
  have hall := frameCode.readBytes_add (n := p.length + 2) hhead
  rw [frameCode.readBytes_add (n := 2) hpay, hcrc] at hall
  rw [show p.length + 4 = 2 + (p.length + 2) by omega, hall] at hnone
  simp at hnone

theorem parseFrame_cut {cap : Nat} {noise p t u : Bytes} (hnoise : protoFrameStart ∉ noise)
    (h : t ++ u = frameOf p) (hu : u ≠ []) (hcap : p.length ≤ cap) (hlen : p.length < 65536) :
    parseFrame cap (noise ++ t) = .incomplete := by
  rcases t with _ | ⟨b, t⟩
  · rw [List.append_nil, parseFrame_no_start hnoise]
  · rw [List.cons_append, frameOf, List.cons.injEq] at h
    rw [h.1, parseFrame_noise _ hnoise, parseWire_cut h.2 hu hcap hlen]

/-! ## 5. The codec round trip -/

def stuffedFrameSize (p : Bytes) : Nat :=
  1 + ((frameContent p).map fun b ↦ if b = 0x7E ∨ b = 0x7D then 2 else 1).sum

theorem stuffedFrameSize_eq (p : Bytes) : stuffedFrameSize p = (frameOf p).length := by
  rw [frameOf_length]
  rfl

theorem frameOf_store_start (m : Mem) (p : Bytes) {i : Nat} (hi : i < (frameOf p).length) :
    store m 0 (frameOf p) i = protoFrameStart ↔ i = 0 := by
  rw [store_of_mem m _ (Nat.zero_le _) (by omega)]
  rcases i with _ | i
  · exact ⟨fun _ ↦ rfl, fun _ ↦ rfl⟩
  · rw [frameOf, List.length_cons] at hi
    have hmem : (frameCode.stuff (frameContent p)).get ⟨i, by omega⟩ ∈
        frameCode.stuff (frameContent p) := List.get_mem _ _
    constructor
    · intro h
      exact absurd (h ▸ hmem) (start_notMem_content p)
    · intro h
      exact absurd h (Nat.succ_ne_zero i)

theorem frame_roundTrip (payload outBuf inBuf : Mem)
    (payloadLen outBufCap outWritten outPayloadCap : Nat) (noise suffix : Bytes)
    (hfit : stuffedFrameSize (slice payload 0 payloadLen) ≤ outBufCap)
    (hcap : outBufCap ≤ 65535) (hnoise : protoFrameStart ∉ noise)
    (htotal : noise.length + stuffedFrameSize (slice payload 0 payloadLen) + suffix.length
      ≤ 65535)
    (hroom : payloadLen ≤ outPayloadCap) :
    let p := slice payload 0 payloadLen
    let enc := frameEncode payload payloadLen outBuf outBufCap outWritten
    enc.result = .ok ∧ enc.outWritten = stuffedFrameSize p ∧
      (∀ i, i < enc.outWritten → (enc.outBuf i = protoFrameStart ↔ i = 0)) ∧
      (slice inBuf 0 (noise.length + enc.outWritten + suffix.length) =
          noise ++ (slice enc.outBuf 0 enc.outWritten ++ suffix) →
        frameDecode inBuf (noise.length + enc.outWritten + suffix.length) outPayloadCap =
          .ok p (noise.length + stuffedFrameSize p)) := by
  rw [stuffedFrameSize_eq] at hfit htotal
  intro p enc
  have henc : enc = { result := .ok, outBuf := store outBuf 0 (frameOf p),
                      outWritten := (frameOf p).length } :=
    frameEncode_eq_frameOf payload payloadLen outBuf outBufCap outWritten hcap hfit
  have hge : p.length + 5 ≤ (frameOf (slice payload 0 payloadLen)).length := frameOf_length_ge p
  have hp : p.length = payloadLen := slice_length payload 0 payloadLen
  rw [henc, stuffedFrameSize_eq]
  refine ⟨rfl, rfl, fun i hi ↦ frameOf_store_start outBuf p hi, fun hin ↦ ?_⟩
  simp only [slice_store] at hin
  rw [frameDecode_eq_parseFrame _ _ _ htotal, hin,
    parseFrame_frame suffix hnoise (by omega) (by omega)]

-- escaped bytes in the payload, noise in front and the next frame's START behind
theorem frame_roundTrip_escaped :
    frameDecode (ofList [0x01, 0x7E, 0x00, 0x03, 0x7D, 0x5E, 0x00, 0x7D, 0x5D, 0xE6, 0xE3, 0x7E] 0)
      12 256 = .ok [0x7E, 0x00, 0x7D] 11 := by
  have hsize : stuffedFrameSize (slice (ofList [0x7E, 0x00, 0x7D] 0) 0 3) = 10 := by
    decide +kernel
  obtain ⟨-, hwritten, -, hdecode⟩ :=
    frame_roundTrip (ofList [0x7E, 0x00, 0x7D] 0) (fun _ ↦ 0)
      (ofList [0x01, 0x7E, 0x00, 0x03, 0x7D, 0x5E, 0x00, 0x7D, 0x5D, 0xE6, 0xE3, 0x7E] 0)
      3 600 0 256 [0x01] [0x7E] (by decide +kernel) (by decide) (by decide)
      (by decide +kernel) (by decide)
  rw [hsize] at hwritten hdecode
  rw [hwritten] at hdecode
  exact hdecode (by decide +kernel)

end SubmarineMonitor
