import SubmarineMonitor.Protocol.FrameWire
import SubmarineMonitor.Reasoning.ShiftRegister
import Mathlib.Data.Nat.Bitwise

/-!
# BurstErrors — what the CRC of a frame detects

The CRC register is a linear shift register over bytes, two bytes wide, and a frame carries the
contents of the register behind its payload.  So a frame passes the check exactly if the register runs
out to zero over its content, and a change within two consecutive bytes behind LENGTH never does
(`frameDecode_burst`).
-/

open Reasoning

namespace SubmarineMonitor

/-! ## 1. The register -/

theorem crc16Bit_eq (crc : UInt16) :
    crc16Bit crc = (crc <<< 1) ^^^ (if crc.toNat.testBit 15 then 0x1021 else 0) := by
  have hbit : (crc &&& 0x8000).toNat = (crc.toNat.testBit 15).toNat * 2 ^ 15 := by
    rw [UInt16.toNat_and]
    exact Nat.and_two_pow crc.toNat 15
  unfold crc16Bit
  by_cases htop : crc.toNat.testBit 15 = true
  · have hset : crc &&& 0x8000 ≠ 0 := by
      intro hzero
      rw [hzero, htop] at hbit
      exact absurd hbit (by decide)
    rw [if_pos hset, if_pos htop]
  · have hclear : crc &&& 0x8000 = 0 := by
      apply UInt16.toNat.inj
      rw [hbit, Bool.eq_false_of_not_eq_true htop]
      rfl
    rw [if_neg fun hset ↦ hset hclear, if_neg htop, UInt16.xor_zero]

theorem crc16Bit_xor (crc crc' : UInt16) :
    crc16Bit (crc ^^^ crc') = crc16Bit crc ^^^ crc16Bit crc' := by
  have hswap : ∀ a b c d : UInt16, a ^^^ b ^^^ (c ^^^ d) = a ^^^ c ^^^ (b ^^^ d) := by
    intro a b c d
    rw [UInt16.xor_assoc, ← UInt16.xor_assoc b, UInt16.xor_comm b c, UInt16.xor_assoc c,
      ← UInt16.xor_assoc a]
  rw [crc16Bit_eq, crc16Bit_eq, crc16Bit_eq, UInt16.shiftLeft_xor, UInt16.toNat_xor,
    Nat.testBit_xor, hswap]
  congr 1
  -- the feedback of the sum is the sum of the feedbacks
  cases crc.toNat.testBit 15 with
  | false => cases crc'.toNat.testBit 15 <;> decide
  | true => cases crc'.toNat.testBit 15 <;> decide

theorem shiftLeft_one_toNat (crc : UInt16) : (crc <<< 1).toNat = crc.toNat * 2 % 65536 := by
  rw [UInt16.toNat_shiftLeft, Nat.shiftLeft_eq]
  rfl

/-- The polynomial has its lowest bit set, so feedback never leaves zero. -/
theorem crc16Bit_eq_zero {crc : UInt16} (h : crc16Bit crc = 0) : crc = 0 := by
  have hlt := crc.toNat_lt
  rw [crc16Bit_eq, UInt16.xor_eq_zero_iff] at h
  have hnat := congrArg UInt16.toNat h
  rw [shiftLeft_one_toNat, Nat.testBit_eq_decide_div_mod_eq] at hnat
  by_cases htop : crc.toNat / 2 ^ 15 % 2 = 1
  · rw [if_pos (decide_eq_true htop)] at hnat
    have hodd : (0x1021 : UInt16).toNat = 4129 := rfl
    omega
  · rw [if_neg fun hd ↦ htop (of_decide_eq_true hd)] at hnat
    apply UInt16.toNat.inj
    have hzero : (0 : UInt16).toNat = 0 := rfl
    omega

theorem crc16Bit_toNat {crc : UInt16} (h : crc.toNat < 32768) :
    (crc16Bit crc).toNat = crc.toNat * 2 := by
  have hclear : crc.toNat.testBit 15 = false := Nat.testBit_lt_two_pow h
  rw [crc16Bit_eq, hclear, if_neg Bool.false_ne_true, UInt16.xor_zero, shiftLeft_one_toNat]
  omega

theorem crc16Bit_iterate_toNat {crc : UInt16} {n : Nat} (h : crc.toNat * 2 ^ n < 65536) :
    (crc16Bit^[n] crc).toNat = crc.toNat * 2 ^ n := by
  induction n with
  | zero => rw [Function.iterate_zero_apply, Nat.pow_zero, Nat.mul_one]
  | succ n ih =>
      rw [Nat.pow_succ, ← Nat.mul_assoc] at h ⊢
      have hn := ih (by omega)
      rw [Function.iterate_succ_apply', crc16Bit_toNat (by omega), hn]

theorem shiftLeft_byte_toNat (b : UInt8) : (b.toUInt16 <<< 8).toNat = b.toNat * 256 := by
  have hb := b.toNat_lt
  rw [UInt16.toNat_shiftLeft, Nat.shiftLeft_eq, UInt8.toNat_toUInt16,
    show (8 : UInt16).toNat % 16 = 8 from rfl]
  exact Nat.mod_eq_of_lt (by omega)

/-- A byte in the low half comes to the high half in one step. -/
theorem crc16Bit_iterate_byte (b : UInt8) : crc16Bit^[8] b.toUInt16 = b.toUInt16 <<< 8 := by
  have hb := b.toNat_lt
  apply UInt16.toNat.inj
  rw [crc16Bit_iterate_toNat (by rw [UInt8.toNat_toUInt16]; omega), shiftLeft_byte_toNat,
    UInt8.toNat_toUInt16]
  rfl

theorem crc16Bit_iterate_xor (n : Nat) (crc crc' : UInt16) :
    crc16Bit^[n] (crc ^^^ crc') = crc16Bit^[n] crc ^^^ crc16Bit^[n] crc' := by
  induction n generalizing crc crc' with
  | zero => rfl
  | succ n ih => rw [Function.iterate_succ_apply, crc16Bit_xor, ih]; rfl

theorem crc16Bit_iterate_eq_zero {n : Nat} {crc : UInt16} (h : crc16Bit^[n] crc = 0) : crc = 0 := by
  induction n generalizing crc with
  | zero => exact h
  | succ n ih => exact crc16Bit_eq_zero (ih h)

/-- The register of `crc16_update`; a byte goes into its high half. -/
def crcRegister : ShiftRegister UInt16 UInt8 where
  xor := (· ^^^ ·)
  zero := 0
  next := crc16Bit^[8]
  width := 2
  place k b := if k = 0 then b.toUInt16 <<< 8 else b.toUInt16
  xor_assoc := UInt16.xor_assoc
  xor_self _ := UInt16.xor_self
  zero_xor _ := UInt16.zero_xor
  xor_zero _ := UInt16.xor_zero
  next_xor := crc16Bit_iterate_xor 8
  eq_zero_of_next _ := crc16Bit_iterate_eq_zero
  next_place k b hk := by
    obtain rfl : k = 0 := by omega
    exact crc16Bit_iterate_byte b

theorem crc16Update_eq_run (crc : UInt16) (data : Bytes) :
    crc16Update crc data = crcRegister.run crc data := rfl

theorem frameCrc_eq_run (lenBytes payload : Bytes) :
    frameCrc lenBytes payload = crcRegister.run 0xFFFF (lenBytes ++ payload) := by
  rw [frameCrc, crc16Update_eq_run, crc16Update_eq_run, crcRegister.run_append]

/-! ## 2. Two bytes in the register -/

theorem pack_pair_toNat (hi lo : UInt8) :
    (crcRegister.pack 0 [hi, lo]).toNat = bigEndian16 hi lo := by
  have hlo := lo.toNat_lt
  have hpack : crcRegister.pack 0 [hi, lo] = (hi.toUInt16 <<< 8) ^^^ lo.toUInt16 :=
    congrArg _ UInt16.xor_zero
  have hlow : (hi.toNat * 256 ^^^ lo.toNat) % 2 ^ 8 = lo.toNat := by
    rw [Nat.xor_mod_two_pow, show hi.toNat * 256 % 2 ^ 8 = 0 by omega, Nat.zero_xor]
    exact Nat.mod_eq_of_lt (by omega)
  have hhigh : (hi.toNat * 256 ^^^ lo.toNat) / 2 ^ 8 = hi.toNat := by
    rw [Nat.xor_div_two_pow, show lo.toNat / 2 ^ 8 = 0 by omega, Nat.xor_zero]
    omega
  rw [hpack, UInt16.toNat_xor, shiftLeft_byte_toNat, UInt8.toNat_toUInt16, bigEndian16]
  omega

theorem pack_pair_inj {hi lo hi' lo' : UInt8}
    (h : crcRegister.pack 0 [hi', lo'] = crcRegister.pack 0 [hi, lo]) : hi' = hi ∧ lo' = lo := by
  have hword := congrArg (fun crc : UInt16 ↦ protocolPutU16 crc.toNat) h
  simp only [pack_pair_toNat, protocolPutU16_bigEndian16, List.cons.injEq, and_true] at hword
  exact hword

theorem pack_inj {w w' : Bytes} (hwidth : w.length ≤ 2) (hsame : w'.length = w.length)
    (h : crcRegister.pack 0 w' = crcRegister.pack 0 w) : w' = w := by
  match w, w', hwidth, hsame with
  | [], [], _, _ => rfl
  | [a], [a'], _, _ =>
      -- one byte is the high half of a pair
      have hzero : ∀ b : UInt8, crcRegister.pack 0 [b] = crcRegister.pack 0 [b, 0] := fun _ ↦ rfl
      rw [hzero, hzero] at h
      rw [(pack_pair_inj h).1]
  | [a, b], [a', b'], _, _ =>
      obtain ⟨rfl, rfl⟩ := pack_pair_inj h
      rfl

/-- The check of a frame is that the register runs out to zero over its content. -/
theorem frameCrc_eq_iff {crcBytes : Bytes} (h : crcBytes.length = 2) (lenBytes payload : Bytes) :
    (frameCrc lenBytes payload).toNat = protocolGetU16 (ofList crcBytes 0) ↔
      crcRegister.run 0xFFFF (lenBytes ++ payload ++ crcBytes) = 0 := by
  have hget : protocolGetU16 (ofList crcBytes 0) = (crcRegister.pack 0 crcBytes).toNat := by
    match crcBytes, h with
    | [hi, lo], _ => rw [pack_pair_toNat, protocolGetU16_eq]; rfl
  have hzero := @crcRegister.run_eq_zero_iff _ _ (frameCrc lenBytes payload) crcBytes (Nat.le_of_eq h)
  rw [hget, crcRegister.run_append, ← frameCrc_eq_run]
  exact Iff.trans ⟨UInt16.toNat.inj, congrArg UInt16.toNat⟩ hzero.symm

/-! ## 3. Frames -/

theorem run_frameContent (p : Bytes) : crcRegister.run 0xFFFF (frameContent p) = 0 := by
  apply (frameCrc_eq_iff (protocolPutU16_length _) (protocolPutU16 p.length) p).mp
  exact (protocolGetU16_put (UInt16.toNat_lt _)).symm

/-- A frame whose content does not run out to zero is taken whole and refused. -/
theorem parseWire_malformed {cap total : Nat} {payload crcBytes : Bytes}
    (hcrc : crcBytes.length = 2) (hlen : payload.length < 65536) (hcap : payload.length ≤ cap)
    (h : crcRegister.run 0xFFFF (protocolPutU16 payload.length ++ payload ++ crcBytes) ≠ 0) :
    parseWire cap total
        (frameCode.stuff (protocolPutU16 payload.length ++ payload ++ crcBytes)) =
      .malformed total := by
  have hhead := frameCode.readBytes_stuff (protocolPutU16 payload.length)
  have htail := frameCode.readBytes_stuff crcBytes []
  rw [protocolPutU16_length] at hhead
  rw [hcrc, List.append_nil] at htail
  rw [EscapeCode.stuff_append, EscapeCode.stuff_append, List.append_assoc, parseWire, hhead]
  simp only [protocolGetU16_put hlen]
  rw [if_neg (by omega), frameCode.readBytes_stuff]
  simp only
  rw [htail]
  exact if_pos fun heq ↦ h ((frameCrc_eq_iff hcrc _ _).mp heq)

/-- A change within two consecutive bytes of the payload and the CRC is always detected. -/
theorem frameDecode_burst (p front w w' back : Bytes) (inBuf : Mem) (inLen outPayloadCap : Nat)
    (hcontent : frameContent p = protocolPutU16 p.length ++ (front ++ w ++ back))
    (hwindow : w.length ≤ 2) (hsame : w'.length = w.length) (hchanged : w' ≠ w)
    (hcap : p.length ≤ outPayloadCap) (hlen : inLen ≤ 65535)
    (hin : slice inBuf 0 inLen = protoFrameStart ::
      frameCode.stuff (protocolPutU16 p.length ++ (front ++ w' ++ back))) :
    frameDecode inBuf inLen outPayloadCap = .malformed inLen := by
  have htotal := congrArg List.length hin
  have hstuffed := frameCode.length_le_stuff (protocolPutU16 p.length ++ (front ++ w' ++ back))
  have hbody := congrArg List.length hcontent
  rw [frameContent_length] at hbody
  rw [slice_length, List.length_cons] at htotal
  simp only [List.length_append, protocolPutU16_length] at hstuffed hbody
  -- the changed bytes are a payload of the same length and two bytes behind it
  obtain ⟨payload, crcBytes, hsplit, hpayload, hcrc⟩ : ∃ payload crcBytes,
      front ++ w' ++ back = payload ++ crcBytes ∧ payload.length = p.length ∧
        crcBytes.length = 2 := by
    have hall : (front ++ w' ++ back).length = p.length + 2 := by
      simp only [List.length_append]
      omega
    refine ⟨_, _, (List.take_append_drop p.length (front ++ w' ++ back)).symm, ?_, ?_⟩
    · rw [List.length_take, hall]
      omega
    · rw [List.length_drop, hall]
      omega
  have hrun : crcRegister.run 0xFFFF (protocolPutU16 p.length ++ (front ++ w' ++ back)) ≠ 0 := by
    intro hzero
    have hvalid := run_frameContent p
    rw [hcontent, ← hzero] at hvalid
    simp only [← List.append_assoc] at hvalid
    exact hchanged (pack_inj hwindow hsame
      (crcRegister.pack_eq_of_burst (protocolPutU16 p.length ++ front) back hsame hwindow
        hvalid.symm))
  rw [frameDecode_eq_parseFrame inBuf inLen outPayloadCap hlen, hin, parseFrame_start, ← htotal]
  rw [hsplit, ← hpayload, ← List.append_assoc] at hrun ⊢
  exact parseWire_malformed hcrc (by omega) (by omega) hrun

-- the window is the payload byte and the first byte of the CRC
theorem frameDecode_burst_straddling :
    frameDecode (ofList [0x7E, 0x00, 0x01, 0x2B, 0x00, 0x85] 0) 6 256 = .malformed 6 :=
  frameDecode_burst [0x2A] [] [0x2A, 0x7A] [0x2B, 0x00] [0x85] _ 6 256 (by decide +kernel)
    (by decide) rfl (by decide) (by decide) (by decide) (by decide)

end SubmarineMonitor
