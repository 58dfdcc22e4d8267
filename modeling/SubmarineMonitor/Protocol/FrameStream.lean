import SubmarineMonitor.Protocol.FrameWire

/-!
# FrameStream — the decoder on a stream that is still arriving

The results of `Frame_Decode` one by one, and how they depend on how much of a stream is there: a
result other than `PROTO_ERR_INCOMPLETE` is not changed by what arrives later, and what is consumed
is all that was looked at.
-/

open Reasoning

namespace SubmarineMonitor

/-! ## 1. The results of the decoder -/

/-- What the decoder makes of a wire, result by result. -/
theorem parseWire_cases (cap total : Nat) (wire : Bytes) :
    (frameCode.readBytes 2 wire = none ∧ parseWire cap total wire = .incomplete) ∨
      ∃ lenBytes tail, frameCode.readBytes 2 wire = some (lenBytes, tail) ∧
        ((cap < protocolGetU16 (ofList lenBytes 0) ∧ parseWire cap total wire = .bufferTooSmall) ∨
          (protocolGetU16 (ofList lenBytes 0) ≤ cap ∧
            frameCode.readBytes (protocolGetU16 (ofList lenBytes 0) + 2) tail = none ∧
            parseWire cap total wire = .incomplete) ∨
          ∃ p crcBytes rest, p.length = protocolGetU16 (ofList lenBytes 0) ∧ p.length ≤ cap ∧
            frameCode.readBytes (p.length + 2) tail = some (p ++ crcBytes, rest) ∧
            parseWire cap total wire =
              if (frameCrc lenBytes p).toNat ≠ protocolGetU16 (ofList crcBytes 0)
              then .malformed (total - rest.length) else .ok p (total - rest.length)) := by
  unfold parseWire
  rcases hhead : frameCode.readBytes 2 wire with _ | ⟨lenBytes, tail⟩
  · exact .inl ⟨rfl, rfl⟩
  refine .inr ⟨lenBytes, tail, rfl, ?_⟩
  simp only
  by_cases hbig : protocolGetU16 (ofList lenBytes 0) > cap
  · exact .inl ⟨hbig, by rw [if_pos hbig]⟩
  rw [if_neg hbig]
  rcases hpay : frameCode.readBytes (protocolGetU16 (ofList lenBytes 0)) tail with _ | ⟨p, tail₂⟩
  · exact .inr (.inl ⟨by omega, frameCode.readBytes_add_none hpay, rfl⟩)
  have hp := frameCode.readBytes_length hpay
  have hsum := frameCode.readBytes_add (n := 2) hpay
  rcases hcrc : frameCode.readBytes 2 tail₂ with _ | ⟨crcBytes, rest⟩
  · rw [hcrc] at hsum
    exact .inr (.inl ⟨by omega, hsum, by simp only [hcrc]⟩)
  · rw [hcrc] at hsum
    refine .inr (.inr ⟨p, crcBytes, rest, hp, by omega, ?_, by simp only [hcrc]⟩)
    rw [hp, hsum]
    rfl

/-- A byte string without START, or the noise and the wire around its first START. -/
theorem start_split (l : Bytes) :
    protoFrameStart ∉ l ∨ ∃ noise wire, l = noise ++ protoFrameStart :: wire ∧
      protoFrameStart ∉ noise := by
  by_cases h : protoFrameStart ∈ l
  · exact .inr (List.eq_append_cons_of_mem h)
  · exact .inl h

theorem start_split_unique {noise noise' wire wire' : Bytes} (hnoise : protoFrameStart ∉ noise)
    (hnoise' : protoFrameStart ∉ noise')
    (h : noise ++ protoFrameStart :: wire = noise' ++ protoFrameStart :: wire') :
    noise = noise' ∧ wire = wire' := by
  -- the first START of a byte string is in one place only
  induction noise generalizing noise' with
  | nil =>
      cases noise' with
      | nil => exact ⟨rfl, (List.cons.inj h).2⟩
      | cons b noise' =>
          exact absurd (List.mem_cons.mpr (.inl (List.cons.inj h).1)) hnoise'
  | cons a noise ih =>
      cases noise' with
      | nil => exact absurd (List.mem_cons.mpr (.inl (List.cons.inj h).1.symm)) hnoise
      | cons b noise' =>
          have htail := ih (fun hmem ↦ hnoise (List.mem_cons_of_mem a hmem))
            (fun hmem ↦ hnoise' (List.mem_cons_of_mem b hmem)) (List.cons.inj h).2
          exact ⟨by rw [(List.cons.inj h).1, htail.1], htail.2⟩

/-- A search that reported the end of a frame found START and read all of the frame behind it; the CRC
    decides which of the two results it is. -/
theorem parseFrame_reads {cap consumed : Nat} {l : Bytes}
    (h : (∃ p, parseFrame cap l = .ok p consumed) ∨ parseFrame cap l = .malformed consumed) :
    ∃ noise wire lenBytes tail p crcBytes rest, l = noise ++ protoFrameStart :: wire ∧
      protoFrameStart ∉ noise ∧ frameCode.readBytes 2 wire = some (lenBytes, tail) ∧
      p.length = protocolGetU16 (ofList lenBytes 0) ∧
      frameCode.readBytes (p.length + 2) tail = some (p ++ crcBytes, rest) ∧
      consumed = noise.length + (wire.length + 1) - rest.length ∧
      parseFrame cap l =
        if (frameCrc lenBytes p).toNat ≠ protocolGetU16 (ofList crcBytes 0)
        then .malformed consumed else .ok p consumed := by
  rcases start_split l with hno | ⟨noise, wire, rfl, hnoise⟩
  · rw [parseFrame_no_start hno] at h
    exact absurd h (by simp)
  rw [parseFrame_noise wire hnoise] at h ⊢
  rcases parseWire_cases cap (noise.length + (wire.length + 1)) wire with
    ⟨-, hres⟩ | ⟨lenBytes, tail, hhead, ⟨-, hres⟩ | ⟨-, -, hres⟩ | ⟨p, crcBytes, rest, hp, -, hread, hres⟩⟩
  · exact absurd h (by simp [hres])
  · exact absurd h (by simp [hres])
  · exact absurd h (by simp [hres])
  -- both results of a frame that was read say where it ends
  have hconsumed : consumed = noise.length + (wire.length + 1) - rest.length := by
    rw [hres] at h
    by_cases hcrc : (frameCrc lenBytes p).toNat ≠ protocolGetU16 (ofList crcBytes 0)
    · simp only [if_pos hcrc, reduceCtorEq, exists_false, FrameDecodeResult.malformed.injEq,
        false_or] at h
      exact h.symm
    · simp only [if_neg hcrc, reduceCtorEq, FrameDecodeResult.ok.injEq, exists_eq_left',
        or_false] at h
      exact h.symm
  refine ⟨noise, wire, lenBytes, tail, p, crcBytes, rest, rfl, hnoise, hhead, hp, hread,
    hconsumed, ?_⟩
  rw [hres, hconsumed]

/-- What is consumed reaches from the front to the end of a frame: START, LENGTH, as many payload bytes
    as LENGTH says, and the CRC. -/
theorem parseFrame_parts {cap consumed : Nat} {l : Bytes}
    (h : (∃ p, parseFrame cap l = .ok p consumed) ∨ parseFrame cap l = .malformed consumed) :
    ∃ noise wire lenBytes tail p, l = noise ++ protoFrameStart :: wire ∧ protoFrameStart ∉ noise ∧
      frameCode.readBytes 2 wire = some (lenBytes, tail) ∧
      p.length = protocolGetU16 (ofList lenBytes 0) ∧ 5 + p.length ≤ consumed ∧
      consumed ≤ l.length ∧ ∀ q, parseFrame cap l = .ok q consumed → q = p := by
  obtain ⟨noise, wire, lenBytes, tail, p, crcBytes, rest, rfl, hnoise, hhead, hp, hread, hconsumed,
    hres⟩ := parseFrame_reads h
  -- each read used up at least as much wire as the bytes it gave
  have htail := (frameCode.readBytes_suffix hhead).2
  have hrest := (frameCode.readBytes_suffix hread).2
  refine ⟨noise, wire, lenBytes, tail, p, rfl, hnoise, hhead, hp, by omega, ?_, fun q hq ↦ ?_⟩
  · rw [List.length_append, List.length_cons]
    omega
  · rw [hres] at hq
    by_cases hcrc : (frameCrc lenBytes p).toNat ≠ protocolGetU16 (ofList crcBytes 0)
    · rw [if_pos hcrc] at hq
      exact absurd hq (by simp)
    · rw [if_neg hcrc] at hq
      exact (FrameDecodeResult.ok.inj hq).1.symm

theorem parseFrame_consumed {cap consumed : Nat} {l : Bytes}
    (h : (∃ p, parseFrame cap l = .ok p consumed) ∨ parseFrame cap l = .malformed consumed) :
    0 < consumed ∧ consumed ≤ l.length := by
  obtain ⟨-, -, -, -, p, -, -, -, -, hlower, hupper, -⟩ := parseFrame_parts h
  exact ⟨by omega, hupper⟩

/-- Behind the first START there is a LENGTH over the capacity, or all that LENGTH asks
    for. -/
def HoldsFrame (cap : Nat) (l : Bytes) : Prop :=
  ∃ noise wire lenBytes tail, l = noise ++ protoFrameStart :: wire ∧ protoFrameStart ∉ noise ∧
    frameCode.readBytes 2 wire = some (lenBytes, tail) ∧
    (cap < protocolGetU16 (ofList lenBytes 0) ∨
      ∃ content rest, frameCode.readBytes (protocolGetU16 (ofList lenBytes 0) + 2) tail =
        some (content, rest))

theorem parseFrame_incomplete_iff (cap : Nat) (l : Bytes) :
    parseFrame cap l = .incomplete ↔ ¬ HoldsFrame cap l := by
  rcases start_split l with hno | ⟨noise, wire, rfl, hnoise⟩
  · -- no START: nothing to decode
    rw [parseFrame_no_start hno]
    refine iff_of_true rfl fun h ↦ ?_
    obtain ⟨noise, wire, -, -, rfl, -⟩ := h
    exact hno (List.mem_append_right _ List.mem_cons_self)
  have hholds : HoldsFrame cap (noise ++ protoFrameStart :: wire) ↔
      ∃ lenBytes tail, frameCode.readBytes 2 wire = some (lenBytes, tail) ∧
        (cap < protocolGetU16 (ofList lenBytes 0) ∨
          ∃ content rest, frameCode.readBytes (protocolGetU16 (ofList lenBytes 0) + 2) tail =
            some (content, rest)) := by
    constructor
    · rintro ⟨noise', wire', lenBytes, tail, heq, hnoise', hread⟩
      have hwire := (start_split_unique hnoise hnoise' heq).2
      exact ⟨lenBytes, tail, by rw [hwire]; exact hread.1, hread.2⟩
    · rintro ⟨lenBytes, tail, hread⟩
      exact ⟨noise, wire, lenBytes, tail, rfl, hnoise, hread⟩
  rw [parseFrame_noise wire hnoise, hholds]
  rcases parseWire_cases cap (noise.length + (wire.length + 1)) wire with
    ⟨hhead, hres⟩ | ⟨lenBytes, tail, hhead, hcases⟩
  · rw [hres, hhead]
    simp
  rw [hhead]
  -- too large, not all there, or all there
  rcases hcases with ⟨hbig, hres⟩ | ⟨hfit, hread, hres⟩ | ⟨p, crcBytes, rest, hp, hcap, hread, hres⟩
  · rw [hres]
    refine iff_of_false (by simp) fun h ↦ h ⟨lenBytes, tail, rfl, .inl hbig⟩
  · rw [hres]
    apply iff_of_true rfl
    rintro ⟨lenBytes', tail', heq, hholds'⟩
    obtain ⟨rfl, rfl⟩ := Prod.mk.inj (Option.some.inj heq)
    rcases hholds' with hbig | ⟨content, rest, hread'⟩
    · omega
    · rw [hread] at hread'
      exact absurd hread' (by simp)
  · rw [hp] at hread
    refine iff_of_false ?_ fun h ↦ h ⟨lenBytes, tail, rfl, .inr ⟨_, rest, hread⟩⟩
    rw [hres]
    split <;> simp

/-! ## 2. More bytes -/

theorem parseFrame_cap_mono {cap cap' : Nat} {l : Bytes} (hcap : cap ≤ cap')
    (h : parseFrame cap l ≠ .bufferTooSmall) : parseFrame cap' l = parseFrame cap l := by
  unfold parseFrame at h ⊢
  cases hdrop : l.dropWhile (fun b ↦ decide (b ≠ protoFrameStart)) with
  | nil => rfl
  | cons b wire =>
      rw [hdrop] at h
      simp only [parseWire] at h ⊢
      cases hhead : frameCode.readBytes 2 wire with
      | none => rfl
      | some head =>
          simp only [hhead] at h ⊢
          by_cases hbig : protocolGetU16 (ofList head.1 0) > cap
          · rw [if_pos hbig] at h
            exact absurd rfl h
          · rw [if_neg hbig, if_neg (by omega)]

/-- A result is not changed by what arrives behind it. -/
theorem parseFrame_append {cap : Nat} {l : Bytes} (h : parseFrame cap l ≠ .incomplete)
    (s : Bytes) : parseFrame cap (l ++ s) = parseFrame cap l := by
  rcases start_split l with hno | ⟨noise, wire, rfl, hnoise⟩
  · exact absurd (parseFrame_no_start hno) h
  rw [List.append_assoc, List.cons_append, parseFrame_noise _ hnoise, parseFrame_noise _ hnoise]
  rw [parseFrame_noise _ hnoise] at h
  unfold parseWire at h ⊢
  rcases hhead : frameCode.readBytes 2 wire with _ | ⟨lenBytes, tail⟩
  · rw [hhead] at h
    exact absurd rfl h
  simp only [hhead] at h
  simp only [frameCode.readBytes_append hhead s]
  -- each read that succeeded succeeds in the same way with more behind it
  by_cases hbig : protocolGetU16 (ofList lenBytes 0) > cap
  · rw [if_pos hbig, if_pos hbig]
  rw [if_neg hbig] at h ⊢
  rw [if_neg hbig]
  rcases hpay : frameCode.readBytes (protocolGetU16 (ofList lenBytes 0)) tail with _ | ⟨p, tail₂⟩
  · rw [hpay] at h
    exact absurd rfl h
  simp only [hpay] at h
  simp only [frameCode.readBytes_append hpay s]
  rcases hcrc : frameCode.readBytes 2 tail₂ with _ | ⟨crcBytes, rest⟩
  · rw [hcrc] at h
    exact absurd rfl h
  simp only [frameCode.readBytes_append hcrc s, List.length_append]
  rw [show noise.length + (wire.length + s.length + 1) - (rest.length + s.length) =
    noise.length + (wire.length + 1) - rest.length by omega]

/-- What is consumed is all that was looked at. -/
theorem parseFrame_take {cap consumed : Nat} {l : Bytes}
    (h : (∃ p, parseFrame cap l = .ok p consumed) ∨ parseFrame cap l = .malformed consumed) :
    parseFrame cap (l.take consumed) = parseFrame cap l := by
  have hholds : HoldsFrame cap (l.take consumed) := by
    obtain ⟨noise, wire, lenBytes, tail, p, crcBytes, rest, rfl, hnoise, hhead, hp, hread, hconsumed,
      -⟩ := parseFrame_reads h
    -- the wire split into what LENGTH used, what payload and CRC used, and the rest
    obtain ⟨used, rfl, hused⟩ := frameCode.readBytes_used hhead
    obtain ⟨used₂, rfl, hused₂⟩ := frameCode.readBytes_used hread
    have htake : (noise ++ protoFrameStart :: (used ++ (used₂ ++ rest))).take consumed =
        noise ++ protoFrameStart :: (used ++ used₂) := by
      rw [show noise ++ protoFrameStart :: (used ++ (used₂ ++ rest)) =
        (noise ++ protoFrameStart :: (used ++ used₂)) ++ rest by simp]
      apply List.take_left'
      simp only [hconsumed, List.length_append, List.length_cons]
      omega
    have hall := hused₂ []
    rw [List.append_nil] at hall
    rw [htake]
    exact ⟨noise, used ++ used₂, lenBytes, used₂, rfl, hnoise, hused used₂,
      .inr ⟨_, [], by rw [← hp]; exact hall⟩⟩
  have hcomplete : parseFrame cap (l.take consumed) ≠ .incomplete := fun hinc ↦
    (parseFrame_incomplete_iff cap _).mp hinc hholds
  rw [← parseFrame_append hcomplete (l.drop consumed), List.take_append_drop]

/-! ## 3. Cut frames -/

def lengthFieldEnd (q : Bytes) : Nat :=
  1 + (frameCode.stuff (protocolPutU16 q.length)).length

theorem parseFrame_cut_cases (cap : Nat) {q t u : Bytes} (h : t ++ u = frameOf q) (hu : u ≠ [])
    (hq : q.length < 65536) :
    parseFrame cap t = .incomplete ∨ parseFrame cap t = .bufferTooSmall := by
  by_cases hbig : parseFrame cap t = .bufferTooSmall
  · exact .inr hbig
  · -- with room for the payload a cut frame is incomplete
    have hroom : q.length ≤ max cap 65536 := by omega
    have hcut := @parseFrame_cut (max cap 65536) [] q t u List.not_mem_nil h hu hroom hq
    rw [List.nil_append, parseFrame_cap_mono (Nat.le_max_left cap 65536) hbig] at hcut
    exact .inl hcut

theorem parseWire_tooSmall_iff (cap total : Nat) (wire : Bytes) :
    parseWire cap total wire = .bufferTooSmall ↔
      ∃ lenBytes tail, frameCode.readBytes 2 wire = some (lenBytes, tail) ∧
        cap < protocolGetU16 (ofList lenBytes 0) := by
  rcases parseWire_cases cap total wire with ⟨hhead, hres⟩ | ⟨lenBytes, tail, hhead, hcases⟩
  · rw [hres, hhead]
    simp
  rw [hhead]
  rcases hcases with ⟨hbig, hres⟩ | ⟨hfit, -, hres⟩ | ⟨p, crcBytes, rest, hp, hcap, -, hres⟩
  · exact iff_of_true hres ⟨lenBytes, tail, rfl, hbig⟩
  · rw [hres]
    apply iff_of_false (by simp)
    rintro ⟨lenBytes', tail', heq, hbig⟩
    obtain ⟨rfl, rfl⟩ := Prod.mk.inj (Option.some.inj heq)
    omega
  · rw [hres]
    apply iff_of_false (by split <;> simp)
    rintro ⟨lenBytes', tail', heq, hbig⟩
    obtain ⟨rfl, rfl⟩ := Prod.mk.inj (Option.some.inj heq)
    omega

theorem parseFrame_cut_tooSmall_iff (cap : Nat) {q t u : Bytes} (h : t ++ u = frameOf q)
    (hq : q.length < 65536) :
    parseFrame cap t = .bufferTooSmall ↔ cap < q.length ∧ lengthFieldEnd q ≤ t.length := by
  cases t with
  | nil =>
      rw [parseFrame_no_start List.not_mem_nil, lengthFieldEnd]
      simp
  | cons b w =>
      rw [List.cons_append, frameOf, List.cons.injEq, frameContent, List.append_assoc,
        EscapeCode.stuff_append] at h
      rw [h.1, parseFrame_start, parseWire_tooSmall_iff, lengthFieldEnd, List.length_cons]
      by_cases hfield : (frameCode.stuff (protocolPutU16 q.length)).length ≤ w.length
      · -- all of LENGTH is there
        obtain ⟨w', rfl⟩ := List.prefix_of_prefix_length_le ⟨_, rfl⟩ ⟨u, h.2⟩ hfield
        have hread := frameCode.readBytes_stuff (protocolPutU16 q.length) w'
        rw [protocolPutU16_length] at hread
        rw [hread]
        constructor
        · rintro ⟨lenBytes, tail, heq, hbig⟩
          obtain ⟨rfl, rfl⟩ := Prod.mk.inj (Option.some.inj heq)
          rw [protocolGetU16_put hq] at hbig
          exact ⟨hbig, by omega⟩
        · intro hbig
          exact ⟨_, w', rfl, by rw [protocolGetU16_put hq]; exact hbig.1⟩
      · -- the cut is inside LENGTH
        obtain ⟨missing, hw⟩ := List.prefix_of_prefix_length_le ⟨u, h.2⟩ ⟨_, rfl⟩ (by omega)
        have hmissing : missing ≠ [] := by
          rintro rfl
          have hsame := congrArg List.length hw
          rw [List.append_nil] at hsame
          omega
        have hnone := frameCode.readBytes_of_prefix hw hmissing
        rw [protocolPutU16_length] at hnone
        rw [hnone]
        exact iff_of_false (by simp) (by omega)

/-- A wire decodes to `p` exactly when its first symbols are the content of the frame of `p`. -/
theorem parseFrame_ok_iff {cap : Nat} {p : Bytes} (wire : Bytes) (hcap : p.length ≤ cap)
    (hp : p.length < 65536) :
    (∃ consumed, parseFrame cap (protoFrameStart :: wire) = .ok p consumed) ↔
      ∃ rest, frameCode.readBytes (p.length + 4) wire = some (frameContent p, rest) := by
  rw [parseFrame_start]
  constructor
  · rintro ⟨consumed, h⟩
    rcases parseWire_cases cap (wire.length + 1) wire with
      ⟨-, hres⟩ | ⟨lenBytes, tail, hhead, ⟨-, hres⟩ | ⟨-, -, hres⟩ | ⟨p', crcBytes, rest, hlen, -, hread, hres⟩⟩
    · exact absurd (hres.symm.trans h) (by simp)
    · exact absurd (hres.symm.trans h) (by simp)
    · exact absurd (hres.symm.trans h) (by simp)
    rw [hres] at h
    by_cases hcrc : (frameCrc lenBytes p').toNat ≠ protocolGetU16 (ofList crcBytes 0)
    · rw [if_pos hcrc] at h
      exact absurd h (by simp)
    rw [if_neg hcrc] at h
    obtain ⟨rfl, -⟩ := FrameDecodeResult.ok.inj h
    -- LENGTH, payload and CRC read one by one are the content read at once
    have hlenBytes := protocolPutU16_get (frameCode.readBytes_length hhead)
    have hcrcBytes : crcBytes.length = 2 := by
      have hsum := frameCode.readBytes_length hread
      rw [List.length_append] at hsum
      omega
    have hsum := frameCode.readBytes_add (n := p'.length + 2) hhead
    rw [hread] at hsum
    refine ⟨rest, ?_⟩
    rw [show p'.length + 4 = 2 + (p'.length + 2) by omega, hsum, frameContent, hlen, hlenBytes,
      not_not.mp hcrc, protocolPutU16_get hcrcBytes, List.append_assoc]
    rfl
  · rintro ⟨rest, h⟩
    rw [show p.length + 4 = 2 + (p.length + 2) by omega] at h
    obtain ⟨lenBytes, body, tail, hcontent, hhead, hbody⟩ := frameCode.readBytes_split h
    rw [frameContent, List.append_assoc] at hcontent
    have hlen : (protocolPutU16 p.length).length = lenBytes.length := by
      rw [protocolPutU16_length, frameCode.readBytes_length hhead]
    obtain ⟨rfl, rfl⟩ := List.append_inj hcontent hlen
    have hget := protocolGetU16_put hp
    rcases parseWire_cases cap (wire.length + 1) wire with
      ⟨hnone, -⟩ | ⟨lenBytes', tail', hhead', hcases⟩
    · rw [hhead] at hnone
      exact absurd hnone (by simp)
    rw [hhead] at hhead'
    obtain ⟨rfl, rfl⟩ := Prod.mk.inj (Option.some.inj hhead')
    rw [hget] at hcases
    rcases hcases with ⟨hbig, -⟩ | ⟨-, hnone, -⟩ | ⟨p', crcBytes, rest', hlen', -, hread, hres⟩
    · omega
    · rw [hbody] at hnone
      exact absurd hnone (by simp)
    rw [hlen', hbody] at hread
    obtain ⟨hbytes, rfl⟩ := Prod.mk.inj (Option.some.inj hread)
    obtain ⟨rfl, rfl⟩ := List.append_inj hbytes hlen'.symm
    rw [protocolGetU16_put (UInt16.toNat_lt _), if_neg (by simp)] at hres
    exact ⟨_, hres⟩

end SubmarineMonitor
