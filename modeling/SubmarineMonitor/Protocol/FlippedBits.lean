import SubmarineMonitor.Protocol.BurstErrors
import SubmarineMonitor.Protocol.FrameStream
import Mathlib.Tactic.NormNum.Prime

/-!
# FlippedBits — single bits that the CRC of a frame detects

Moving on by one bit is multiplication by `x` modulo the polynomial `x^16 + x^12 + x^5 + 1`.  Its factor
`x + 1` keeps the parity of the register, and the other factor has the order 32767.  So an odd number of
flipped bits behind LENGTH is always detected, and two flipped bits are unless 32767 divides their
distance (`frameDecode_flipped`).
-/

open Reasoning

namespace SubmarineMonitor

/-! ## 1. Parity -/

def bitParity (l : List Nat) (crc : UInt16) : Bool :=
  l.foldr (fun i p ↦ Bool.xor (crc.toNat.testBit i) p) false

def crcParity : UInt16 → Bool := bitParity (List.range 16)

theorem bitParity_xor (l : List Nat) (crc crc' : UInt16) :
    bitParity l (crc ^^^ crc') = Bool.xor (bitParity l crc) (bitParity l crc') := by
  induction l with
  | nil => rfl
  | cons i l ih =>
      show Bool.xor ((crc ^^^ crc').toNat.testBit i) (bitParity l (crc ^^^ crc')) =
        Bool.xor (Bool.xor (crc.toNat.testBit i) (bitParity l crc))
          (Bool.xor (crc'.toNat.testBit i) (bitParity l crc'))
      rw [ih, UInt16.toNat_xor, Nat.testBit_xor, Bool.xor_assoc, Bool.xor_assoc,
        Bool.xor_left_comm (crc'.toNat.testBit i)]

theorem bitParity_concat (l : List Nat) (i : Nat) (crc : UInt16) :
    bitParity (l ++ [i]) crc = Bool.xor (bitParity l crc) (crc.toNat.testBit i) := by
  induction l with
  | nil => exact (Bool.xor_false _).trans (Bool.false_xor _).symm
  | cons j l ih =>
      show Bool.xor (crc.toNat.testBit j) (bitParity (l ++ [i]) crc) =
        Bool.xor (Bool.xor (crc.toNat.testBit j) (bitParity l crc)) (crc.toNat.testBit i)
      rw [ih, Bool.xor_assoc]

/-- The bits of a register that has moved on, but for its feedback. -/
theorem bitParity_shiftLeft {l : List Nat} {crc : UInt16} (h : ∀ i ∈ l, i + 1 < 16) :
    bitParity (l.map (· + 1)) (crc <<< 1) = bitParity l crc := by
  induction l with
  | nil => rfl
  | cons i l ih =>
      have hbit : (crc <<< 1).toNat.testBit (i + 1) = crc.toNat.testBit i := by
        rw [shiftLeft_one_toNat, show (65536 : Nat) = 2 ^ 16 from rfl, Nat.testBit_mod_two_pow,
          decide_eq_true (h i List.mem_cons_self), Bool.true_and, Nat.testBit_succ,
          Nat.mul_div_cancel _ (by decide)]
      show Bool.xor ((crc <<< 1).toNat.testBit (i + 1)) (bitParity (l.map (· + 1)) (crc <<< 1)) =
        Bool.xor (crc.toNat.testBit i) (bitParity l crc)
      rw [hbit, ih fun j hj ↦ h j (List.mem_cons_of_mem i hj)]

/-- The bit that falls out at the top comes back as three bits. -/
theorem crcParity_crc16Bit (crc : UInt16) : crcParity (crc16Bit crc) = crcParity crc := by
  have hfeedback : crcParity (if crc.toNat.testBit 15 then 0x1021 else 0) = crc.toNat.testBit 15 := by
    cases crc.toNat.testBit 15 <;> decide
  have hlow : (crc <<< 1).toNat.testBit 0 = false := by
    rw [shiftLeft_one_toNat, Nat.testBit_zero]
    exact decide_eq_false (by omega)
  have hshift : crcParity (crc <<< 1) = bitParity (List.range 15) crc := by
    rw [crcParity, List.range_succ_eq_map]
    show Bool.xor ((crc <<< 1).toNat.testBit 0)
      (bitParity ((List.range 15).map (· + 1)) (crc <<< 1)) = _
    rw [hlow, Bool.false_xor]
    exact bitParity_shiftLeft fun i hi ↦ Nat.succ_lt_succ (List.mem_range.mp hi)
  have hall : crcParity crc = Bool.xor (bitParity (List.range 15) crc) (crc.toNat.testBit 15) := by
    rw [crcParity, List.range_succ, bitParity_concat]
  rw [crc16Bit_eq, hall, ← hshift]
  exact (bitParity_xor _ _ _).trans (congrArg (Bool.xor _) hfeedback)

theorem crcParity_iterate (n : Nat) (crc : UInt16) : crcParity (crc16Bit^[n] crc) = crcParity crc := by
  induction n with
  | zero => rfl
  | succ n ih => rw [Function.iterate_succ_apply', crcParity_crc16Bit, ih]

/-! ## 2. Powers -/

/-- `x^n` modulo the polynomial. -/
def crcPower (n : Nat) : UInt16 := crc16Bit^[n] 1

def bitSum (f : Nat → UInt16) (crc : UInt16) (l : List Nat) : UInt16 :=
  l.foldr (fun i r ↦ (if crc.toNat.testBit i then f i else 0) ^^^ r) 0

def crcTimes (a b : UInt16) : UInt16 := bitSum (fun i ↦ crc16Bit^[i] a) b (List.range 16)

theorem bitSum_concat (f : Nat → UInt16) (crc : UInt16) (l : List Nat) (i : Nat) :
    bitSum f crc (l ++ [i]) = bitSum f crc l ^^^ if crc.toNat.testBit i then f i else 0 := by
  induction l with
  | nil => exact UInt16.xor_zero.trans UInt16.zero_xor.symm
  | cons j l ih =>
      show _ ^^^ bitSum f crc (l ++ [i]) = (_ ^^^ bitSum f crc l) ^^^ _
      rw [ih, UInt16.xor_assoc]

theorem crc16Bit_iterate_zero (n : Nat) : crc16Bit^[n] 0 = 0 := Function.iterate_fixed rfl n

theorem iterate_bitSum (n : Nat) (f : Nat → UInt16) (crc : UInt16) (l : List Nat) :
    crc16Bit^[n] (bitSum f crc l) = bitSum (fun i ↦ crc16Bit^[n] (f i)) crc l := by
  induction l with
  | nil => exact crc16Bit_iterate_zero n
  | cons i l ih =>
      show crc16Bit^[n] (_ ^^^ bitSum f crc l) = _ ^^^ bitSum _ crc l
      rw [crc16Bit_iterate_xor, ih]
      congr 1
      split_ifs
      · rfl
      · exact crc16Bit_iterate_zero n

theorem crcPower_toNat {i : Nat} (h : i < 16) : (crcPower i).toNat = 2 ^ i := by
  have hone : (1 : UInt16).toNat = 1 := rfl
  have hpow : 2 ^ i ≤ 2 ^ 15 := Nat.pow_le_pow_right (by decide) (by omega)
  rw [crcPower, crc16Bit_iterate_toNat (by rw [hone]; omega), hone, Nat.one_mul]

/-- A register is the sum of the powers of its bits. -/
theorem bitSum_crcPower {crc : UInt16} {k : Nat} (h : k ≤ 16) :
    (bitSum crcPower crc (List.range k)).toNat = crc.toNat % 2 ^ k := by
  induction k with
  | zero => exact (Nat.mod_one _).symm
  | succ k ih =>
      rw [List.range_succ, bitSum_concat, UInt16.toNat_xor, ih (by omega)]
      refine Nat.eq_of_testBit_eq fun j ↦ ?_
      rw [Nat.testBit_xor, Nat.testBit_mod_two_pow, Nat.testBit_mod_two_pow]
      by_cases hbit : crc.toNat.testBit k
      · rw [if_pos hbit, crcPower_toNat (by omega), Nat.testBit_two_pow]
        rcases Nat.lt_trichotomy j k with hlt | rfl | hgt
        · simp [hlt, Nat.lt_succ_of_lt hlt, hlt.ne']
        · simp [hbit]
        · simp [hgt.ne, Nat.not_lt.mpr hgt.le, show ¬ j < k + 1 by omega]
      · rw [if_neg hbit]
        rcases Nat.lt_trichotomy j k with hlt | rfl | hgt
        · simp [hlt, Nat.lt_succ_of_lt hlt]
        · simp [hbit]
        · simp [Nat.not_lt.mpr hgt.le, show ¬ j < k + 1 by omega]

theorem crcPower_add (m n : Nat) : crcPower (m + n) = crcTimes (crcPower m) (crcPower n) := by
  have hbits : crcPower n = bitSum crcPower (crcPower n) (List.range 16) := by
    apply UInt16.toNat.inj
    rw [bitSum_crcPower (Nat.le_refl 16), Nat.mod_eq_of_lt (UInt16.toNat_lt _)]
  have hmove : crcPower (m + n) = crc16Bit^[m] (crcPower n) := by
    rw [crcPower, Function.iterate_add_apply]
    rfl
  rw [hmove, hbits, iterate_bitSum, ← hbits, crcTimes]
  congr 1
  funext i
  rw [crcPower, crcPower, ← Function.iterate_add_apply, Nat.add_comm, Function.iterate_add_apply]

/-! ## 3. The order of `x` -/

theorem crcPower_sum {k m n : Nat} {a b c : UInt16} (ha : crcPower m = a) (hb : crcPower n = b)
    (hk : k = m + n) (hc : crcTimes a b = c) : crcPower k = c := by
  rw [hk, crcPower_add, ha, hb, hc]

/-- The powers that decide the order, by squaring. -/
theorem crcPower_values : crcPower 217 = 0x48E3 ∧ crcPower 1057 = 0xF2AF ∧ crcPower 4681 = 0x2C42 ∧
    crcPower 32768 = 2 := by
  have h1 : crcPower 1 = 2 := by decide +kernel
  have h8 : crcPower 8 = 0x100 := by decide +kernel
  have h16 : crcPower 16 = 0x1021 := by decide +kernel
  have h32 : crcPower 32 = 0x3730 := crcPower_sum h16 h16 rfl (by decide +kernel)
  have h64 : crcPower 64 = 0xB861 := crcPower_sum h32 h32 rfl (by decide +kernel)
  have h128 : crcPower 128 = 0xAEFC := crcPower_sum h64 h64 rfl (by decide +kernel)
  have h256 : crcPower 256 = 0x8E29 := crcPower_sum h128 h128 rfl (by decide +kernel)
  have h512 : crcPower 512 = 0x13FC := crcPower_sum h256 h256 rfl (by decide +kernel)
  have h1024 : crcPower 1024 = 0x36C4 := crcPower_sum h512 h512 rfl (by decide +kernel)
  have h2048 : crcPower 2048 = 0xFD50 := crcPower_sum h1024 h1024 rfl (by decide +kernel)
  have h4096 : crcPower 4096 = 0xAA9E := crcPower_sum h2048 h2048 rfl (by decide +kernel)
  have h8192 : crcPower 8192 = 0x881C := crcPower_sum h4096 h4096 rfl (by decide +kernel)
  have h16384 : crcPower 16384 = 0x4458 := crcPower_sum h8192 h8192 rfl (by decide +kernel)
  have h9 : crcPower 9 = 0x200 := crcPower_sum h8 h1 rfl (by decide +kernel)
  have h25 : crcPower 25 = crcTimes 0x1021 0x200 := crcPower_sum h16 h9 rfl rfl
  have h89 : crcPower 89 = _ := crcPower_sum h64 h25 rfl rfl
  have h33 : crcPower 33 = _ := crcPower_sum h32 h1 rfl rfl
  have h73 : crcPower 73 = _ := crcPower_sum h64 h9 rfl rfl
  have h585 : crcPower 585 = _ := crcPower_sum h512 h73 rfl rfl
  exact ⟨crcPower_sum h128 h89 rfl (by decide +kernel), crcPower_sum h1024 h33 rfl (by decide +kernel),
    crcPower_sum h4096 h585 rfl (by decide +kernel), crcPower_sum h16384 h16384 rfl (by decide +kernel)⟩

theorem crc16Bit_injective : Function.Injective crc16Bit := by
  intro a b h
  refine UInt16.xor_eq_zero_iff.mp (crc16Bit_eq_zero ?_)
  rw [crc16Bit_xor, h, UInt16.xor_self]

theorem minimalPeriod_crc16Bit : Function.minimalPeriod crc16Bit 1 = 32767 := by
  obtain ⟨h217, h1057, h4681, h32768⟩ := crcPower_values
  have hperiod : crc16Bit^[32767] 1 = 1 := by
    apply crc16Bit_injective
    rw [← Function.iterate_succ_apply' crc16Bit 32767]
    exact h32768
  refine minimalPeriod_eq_of_primes hperiod fun p hp hdvd ↦ ?_
  rw [show 32767 = 7 * (31 * 151) from rfl, hp.dvd_mul, hp.dvd_mul,
    Nat.prime_dvd_prime_iff_eq hp (by norm_num), Nat.prime_dvd_prime_iff_eq hp (by norm_num),
    Nat.prime_dvd_prime_iff_eq hp (by norm_num)] at hdvd
  rcases hdvd with rfl | rfl | rfl
  · exact h4681.trans_ne (by decide)
  · exact h1057.trans_ne (by decide)
  · exact h217.trans_ne (by decide)

/-- Powers agree exactly if the order divides the difference of their exponents. -/
theorem crcPower_eq_iff {a b : Nat} (h : a ≤ b) : crcPower b = crcPower a ↔ 32767 ∣ b - a := by
  have hsplit : crcPower b = crc16Bit^[a] (crcPower (b - a)) := by
    rw [crcPower, crcPower, ← Function.iterate_add_apply, Nat.add_sub_cancel' h]
  have hiff : crcPower b = crcPower a ↔ crcPower (b - a) = 1 := by
    rw [hsplit]
    exact (crc16Bit_injective.iterate a).eq_iff' rfl
  rw [hiff, ← minimalPeriod_crc16Bit]
  exact Function.isPeriodicPt_iff_minimalPeriod_dvd

/-! ## 4. Flipped bits -/

/-- The content with bit `q` flipped, counted from the last bit of it. -/
def flipBit (l : Bytes) (q : Nat) : Bytes :=
  l.modify (l.length - 1 - q / 8) (· ^^^ (1 <<< UInt8.ofNat (q % 8)))

theorem flipBit_length (l : Bytes) (q : Nat) : (flipBit l q).length = l.length :=
  List.length_modify _ _ _

/-- The byte that holds the bit, and what is before and behind it. -/
theorem flipBit_split {l : Bytes} {q : Nat} (h : q < 8 * l.length) :
    ∃ front b back, l = front ++ b :: back ∧ back.length = q / 8 ∧
      flipBit l q = front ++ (b ^^^ (1 <<< UInt8.ofNat (q % 8))) :: back := by
  have hk : l.length - 1 - q / 8 < l.length := by omega
  refine ⟨l.take (l.length - 1 - q / 8), l[l.length - 1 - q / 8], l.drop (l.length - 1 - q / 8 + 1),
    ?_, ?_, ?_⟩
  · rw [List.getElem_cons_drop, List.take_append_drop]
  · rw [List.length_drop]
    omega
  · rw [flipBit, List.modify_eq_take_cons_drop hk]

theorem place_flipped (b : UInt8) {i : Nat} (h : i < 8) :
    crcRegister.place 0 (b ^^^ (1 <<< UInt8.ofNat i)) = crcRegister.place 0 b ^^^ crcPower (8 + i) := by
  have hbit : ∀ i : Fin 8, ((1 : UInt8) <<< UInt8.ofNat i.val).toUInt16 = crcPower i.val := by
    decide +kernel
  have hone : crc16Bit^[8] ((1 : UInt8) <<< UInt8.ofNat i).toUInt16 = crcPower (8 + i) := by
    rw [crcPower, Function.iterate_add_apply, hbit ⟨i, h⟩]
    rfl
  show (b ^^^ (1 <<< UInt8.ofNat i)).toUInt16 <<< 8 = b.toUInt16 <<< 8 ^^^ crcPower (8 + i)
  rw [← hone, crc16Bit_iterate_byte, UInt8.toUInt16_xor, UInt16.shiftLeft_xor]

/-- A flipped bit adds a power of `x` to the register. -/
theorem run_flipBit (crc : UInt16) {l : Bytes} {q : Nat} (h : q < 8 * l.length) :
    crcRegister.run crc (flipBit l q) = crcRegister.run crc l ^^^ crcPower (16 + q) := by
  obtain ⟨front, b, back, hl, hback, hflip⟩ := flipBit_split h
  have hmove : crcRegister.next^[back.length + 1] (crcPower (8 + q % 8)) = crcPower (16 + q) := by
    rw [show crcRegister.next = crc16Bit^[8] from rfl, ← Function.iterate_mul, crcPower, crcPower,
      ← Function.iterate_add_apply, show 8 * (back.length + 1) + (8 + q % 8) = 16 + q by omega]
  rw [hflip, hl, ← hmove]
  exact crcRegister.run_changed crc front back (place_flipped b (by omega))

def flipBits (l : Bytes) (qs : List Nat) : Bytes := qs.foldl flipBit l

theorem flipBits_length (l : Bytes) (qs : List Nat) : (flipBits l qs).length = l.length := by
  induction qs generalizing l with
  | nil => rfl
  | cons q qs ih => exact (ih (flipBit l q)).trans (flipBit_length l q)

def flipSum (qs : List Nat) : UInt16 := qs.foldr (fun q r ↦ crcPower (16 + q) ^^^ r) 0

theorem run_flipBits (crc : UInt16) {l : Bytes} {qs : List Nat} (h : ∀ q ∈ qs, q < 8 * l.length) :
    crcRegister.run crc (flipBits l qs) = crcRegister.run crc l ^^^ flipSum qs := by
  induction qs generalizing l with
  | nil => exact UInt16.xor_zero.symm
  | cons q qs ih =>
      have htail : ∀ q' ∈ qs, q' < 8 * (flipBit l q).length := fun q' hq' ↦ by
        rw [flipBit_length]
        exact h q' (List.mem_cons_of_mem q hq')
      show crcRegister.run crc (flipBits (flipBit l q) qs) = _ ^^^ (crcPower (16 + q) ^^^ flipSum qs)
      rw [ih htail, run_flipBit crc (h q List.mem_cons_self), UInt16.xor_assoc]

theorem modify_append_right (front l : Bytes) (k : Nat) (f : UInt8 → UInt8) :
    (front ++ l).modify (front.length + k) f = front ++ l.modify k f := by
  induction front with
  | nil => rw [List.length_nil, Nat.zero_add]; rfl
  | cons b front ih =>
      rw [List.length_cons, Nat.add_right_comm, List.cons_append, List.modify_succ_cons, ih]
      rfl

/-- Bits of the last part of a content are flipped in that part. -/
theorem flipBits_append (front l : Bytes) {qs : List Nat} (h : ∀ q ∈ qs, q < 8 * l.length) :
    flipBits (front ++ l) qs = front ++ flipBits l qs := by
  induction qs generalizing l with
  | nil => rfl
  | cons q qs ih =>
      have hq := h q List.mem_cons_self
      have hindex : (front ++ l).length - 1 - q / 8 = front.length + (l.length - 1 - q / 8) := by
        rw [List.length_append]
        omega
      show flipBits (flipBit (front ++ l) q) qs = front ++ flipBits (flipBit l q) qs
      rw [flipBit, hindex, modify_append_right]
      exact ih (flipBit l q) fun q' hq' ↦ by
        rw [flipBit_length]
        exact h q' (List.mem_cons_of_mem q hq')

/-! ## 5. What cancels -/

theorem crcParity_flipSum (qs : List Nat) : crcParity (flipSum qs) = decide (qs.length % 2 = 1) := by
  induction qs with
  | nil => decide
  | cons q qs ih =>
      show crcParity (crcPower (16 + q) ^^^ flipSum qs) = _
      have hpower : crcParity (crcPower (16 + q)) = true := (crcParity_iterate _ _).trans (by decide)
      have hsum := bitParity_xor (List.range 16) (crcPower (16 + q)) (flipSum qs)
      rw [crcParity] at hpower ih ⊢
      rw [hsum, hpower, ih, List.length_cons, Bool.true_xor, ← decide_not]
      exact decide_eq_decide.mpr (by omega)

theorem flipSum_ne_zero_of_odd {qs : List Nat} (h : qs.length % 2 = 1) : flipSum qs ≠ 0 := by
  intro hzero
  have hparity := crcParity_flipSum qs
  rw [hzero, decide_eq_true h] at hparity
  exact absurd hparity (by decide)

theorem flipSum_pair_iff (a b : Nat) : flipSum [a, b] = 0 ↔ (32767 : Int) ∣ a - b := by
  have hsum : flipSum [a, b] = crcPower (16 + a) ^^^ crcPower (16 + b) :=
    congrArg (_ ^^^ ·) UInt16.xor_zero
  rw [hsum, UInt16.xor_eq_zero_iff]
  rcases Nat.le_total a b with h | h
  · rw [eq_comm, crcPower_eq_iff (by omega)]
    omega
  · rw [crcPower_eq_iff (by omega)]
    omega

/-! ## 6. Bits on the line -/

/-- Where bit `q` of a content is on the line, both counted from the last bit: behind it there may be
    escapes. -/
def lineBit (content : Bytes) (q : Nat) : Nat :=
  q + 8 * (content.drop (content.length - q / 8)).countP frameCode.escaped

theorem lineBit_eq (front : Bytes) (b : UInt8) {back : Bytes} {q : Nat} (h : back.length = q / 8) :
    lineBit (front ++ b :: back) q = q + 8 * back.countP frameCode.escaped := by
  have hdrop : (front ++ b :: back).length - q / 8 = (front ++ [b]).length := by
    rw [List.length_append, List.length_append, List.length_cons, List.length_singleton]
    omega
  rw [lineBit, hdrop, List.append_cons front b back, List.drop_left]

/-- The last byte of what stands for a byte carries its bits. -/
theorem flipBit_alterByte (front : Bytes) (b b' : UInt8) {back : Bytes} {q : Nat}
    (h : back.length = q / 8) :
    flipBit (front ++ (frameCode.alterByte b b' ++ back)) q =
      front ++ (frameCode.alterByte b (b' ^^^ (1 <<< UInt8.ofNat (q % 8))) ++ back) := by
  have hlast : ∀ (pre : Bytes) (x : UInt8), flipBit (pre ++ x :: back) q =
      pre ++ (x ^^^ (1 <<< UInt8.ofNat (q % 8))) :: back := by
    intro pre x
    have hindex : (pre ++ x :: back).length - 1 - q / 8 = pre.length + 0 := by
      rw [List.length_append, List.length_cons]
      omega
    rw [flipBit, hindex, modify_append_right]
    rfl
  rw [EscapeCode.alterByte, EscapeCode.alterByte]
  split_ifs
  · have hflip : frameCode.flip (b' ^^^ (1 <<< UInt8.ofNat (q % 8))) =
        frameCode.flip b' ^^^ (1 <<< UInt8.ofNat (q % 8)) := by
      show b' ^^^ _ ^^^ protoFrameEscapeXor = b' ^^^ protoFrameEscapeXor ^^^ _
      rw [UInt8.xor_assoc, UInt8.xor_comm _ protoFrameEscapeXor, ← UInt8.xor_assoc]
    have hshape : ∀ x : UInt8, front ++ ([frameCode.escape, x] ++ back) =
        (front ++ [frameCode.escape]) ++ x :: back := fun x ↦ by
      rw [List.append_assoc]
      rfl
    rw [hshape, hlast, hflip, hshape]
  · exact hlast front b'

section Line

variable {c c' : Bytes} {q : Nat}

/-- A bit that is flipped on the line is flipped in the content. -/
theorem flipBit_altered (hsame : c'.length = c.length) (h : q < 8 * c.length) :
    flipBit (frameCode.altered c c') (lineBit c q) = frameCode.altered c (flipBit c' q) := by
  obtain ⟨front', b', back', rfl, hback', hflip⟩ := @flipBit_split c' q (by omega)
  obtain ⟨front, b, back, rfl, hback, -⟩ := flipBit_split h
  have hbacks : back'.length = back.length := hback'.trans hback.symm
  have hfronts : front'.length = front.length := by
    rw [List.length_append, List.length_append, List.length_cons, List.length_cons] at hsame
    omega
  have hline := frameCode.altered_length hbacks
  rw [frameCode.stuff_length_eq] at hline
  rw [hflip, frameCode.altered_append hfronts, frameCode.altered_append hfronts,
    EscapeCode.altered_cons, EscapeCode.altered_cons, lineBit_eq front b hback,
    flipBit_alterByte _ _ _ (by omega), Nat.add_mul_mod_self_left]

theorem flipBits_altered {qs : List Nat} (hsame : c'.length = c.length)
    (h : ∀ q ∈ qs, q < 8 * c.length) :
    flipBits (frameCode.altered c c') (qs.map (lineBit c)) = frameCode.altered c (flipBits c' qs) := by
  induction qs generalizing c' with
  | nil => rfl
  | cons q qs ih =>
      show flipBits (flipBit (frameCode.altered c c') (lineBit c q)) (qs.map (lineBit c)) =
        frameCode.altered c (flipBits (flipBit c' q) qs)
      rw [flipBit_altered hsame (h q List.mem_cons_self)]
      exact ih ((flipBit_length c' q).trans hsame) fun q' hq' ↦ h q' (List.mem_cons_of_mem q hq')

theorem lineBit_lt (h : q < 8 * c.length) : lineBit c q < 8 * (frameCode.stuff c).length := by
  obtain ⟨front, b, back, rfl, hback, -⟩ := flipBit_split h
  rw [frameCode.stuff_length_eq, lineBit_eq front b hback, List.countP_append, List.countP_cons,
    List.length_append, List.length_cons]
  omega

end Line

/-! ## 7. Frames -/

def frameBody (p : Bytes) : Bytes := p ++ protocolPutU16 (frameCrc (protocolPutU16 p.length) p).toNat

/-- The frame of a payload on a line that flips bits of these bits of its content. -/
def flippedFrame (p : Bytes) (qs : List Nat) : Bytes :=
  flipBits (frameOf p) (qs.map (lineBit (frameContent p)))

/-- No byte on the line has become an escape or stopped being one. -/
def KeepsEscapes (p : Bytes) (qs : List Nat) : Prop :=
  (flippedFrame p qs).map (decide <| · = protoFrameEscape) =
    (frameOf p).map (decide <| · = protoFrameEscape)

instance (p : Bytes) (qs : List Nat) : Decidable (KeepsEscapes p qs) :=
  inferInstanceAs (Decidable (_ = _))

def flippedPayload (p : Bytes) (qs : List Nat) : Bytes := (flipBits (frameBody p) qs).take p.length

section Frames

variable {p : Bytes} {qs : List Nat} {cap : Nat}

theorem frameContent_eq (p : Bytes) : frameContent p = protocolPutU16 p.length ++ frameBody p :=
  List.append_assoc _ _ _

theorem frameBody_length (p : Bytes) : (frameBody p).length = p.length + 2 := by
  rw [frameBody, List.length_append, protocolPutU16_length]

theorem flippedFrame_length (p : Bytes) (qs : List Nat) :
    (flippedFrame p qs).length = (frameOf p).length := flipBits_length _ _

/-- The bits behind LENGTH are changed, and nothing else on the line. -/
theorem flippedFrame_eq (hqs : ∀ q ∈ qs, q < 8 * (p.length + 2)) :
    flippedFrame p qs = protoFrameStart :: (frameCode.stuff (protocolPutU16 p.length) ++
      frameCode.altered (frameBody p) (flipBits (frameBody p) qs)) := by
  have hbody : ∀ q ∈ qs, q < 8 * (frameBody p).length := by
    rw [frameBody_length]
    exact hqs
  have hall : ∀ q ∈ qs, q < 8 * (frameContent p).length := fun q hq ↦ by
    have hq := hbody q hq
    rw [frameContent_eq, List.length_append]
    omega
  have hline : ∀ q ∈ qs.map (lineBit (frameContent p)),
      q < 8 * (frameCode.stuff (frameContent p)).length := fun q hq ↦ by
    obtain ⟨bit, hbit, rfl⟩ := List.mem_map.mp hq
    exact lineBit_lt (hall bit hbit)
  calc flippedFrame p qs
      = [protoFrameStart] ++ flipBits (frameCode.altered (frameContent p) (frameContent p))
          (qs.map (lineBit (frameContent p))) := by
        rw [frameCode.altered_self]
        exact flipBits_append [protoFrameStart] _ hline
    _ = [protoFrameStart] ++ frameCode.altered (frameContent p) (flipBits (frameContent p) qs) := by
        rw [flipBits_altered rfl hall]
    _ = _ := by
        rw [frameContent_eq, flipBits_append _ _ hbody, frameCode.altered_append rfl,
          frameCode.altered_self]
        rfl

/-- With its escapes in place the line carries the changed bytes. -/
theorem KeepsEscapes.readable (h : KeepsEscapes p qs) (hqs : ∀ q ∈ qs, q < 8 * (p.length + 2)) :
    frameCode.Readable (frameBody p) (flipBits (frameBody p) qs) := by
  apply frameCode.readable_of_escapes (flipBits_length _ _)
  rw [KeepsEscapes, flippedFrame_eq hqs, frameOf, frameContent_eq, frameCode.stuff_append,
    List.map_cons, List.map_cons, List.map_append, List.map_append] at h
  exact List.append_cancel_left (List.tail_eq_of_cons_eq h)

theorem run_flipBits_frame (hqs : ∀ q ∈ qs, q < 8 * (p.length + 2)) :
    crcRegister.run 0xFFFF (protocolPutU16 p.length ++ flipBits (frameBody p) qs) = flipSum qs := by
  have hbody : ∀ q ∈ qs, q < 8 * (frameBody p).length := by
    rw [frameBody_length]
    exact hqs
  have hvalid := run_frameContent p
  rw [frameContent_eq] at hvalid
  rw [← flipBits_append _ _ hbody, run_flipBits _ fun q hq ↦ ?_, hvalid, UInt16.zero_xor]
  have hq := hbody q hq
  rw [List.length_append]
  omega

/-- Behind LENGTH, a payload and a CRC that the line has changed. -/
theorem parseWire_altered {total : Nat} {payload crcBytes : Bytes} (hp : p.length < 65536)
    (hcap : p.length ≤ cap) (hpayload : payload.length = p.length) (hcrc : crcBytes.length = 2)
    (hread : frameCode.Readable (frameBody p) (payload ++ crcBytes)) (rest : Bytes) :
    parseWire cap total (frameCode.stuff (protocolPutU16 p.length) ++
        (frameCode.altered (frameBody p) (payload ++ crcBytes) ++ rest)) =
      if crcRegister.run 0xFFFF (protocolPutU16 p.length ++ (payload ++ crcBytes)) = 0
      then .ok payload (total - rest.length) else .malformed (total - rest.length) := by
  have hhead := frameCode.readBytes_stuff (protocolPutU16 p.length)
    (frameCode.altered (frameBody p) (payload ++ crcBytes) ++ rest)
  have hsame : (payload ++ crcBytes).length = (frameBody p).length := by
    rw [List.length_append, frameBody_length, hpayload, hcrc]
  have hall := frameCode.readBytes_altered hsame hread rest
  rw [hsame, frameBody_length] at hall
  obtain ⟨first, second, wire, hsplit, hfirst, hsecond⟩ := frameCode.readBytes_split hall
  obtain ⟨rfl, rfl⟩ := List.append_inj hsplit (hpayload.trans (frameCode.readBytes_length hfirst).symm)
  have hcheck := frameCrc_eq_iff hcrc (protocolPutU16 p.length) payload
  rw [protocolPutU16_length] at hhead
  rw [List.append_assoc] at hcheck
  rw [parseWire, hhead]
  simp only [protocolGetU16_put hp]
  rw [if_neg (by omega), hfirst]
  simp only
  rw [hsecond]
  simp only
  by_cases hzero : crcRegister.run 0xFFFF (protocolPutU16 p.length ++ (payload ++ crcBytes)) = 0
  · rw [if_pos hzero, if_neg (not_not_intro (hcheck.mpr hzero))]
  · rw [if_neg hzero, if_pos (mt hcheck.mp hzero)]

/-- A frame with flipped bits is taken whole, and accepted exactly if the flipped bits cancel in the
    register. -/
theorem parseFrame_flippedFrame (hqs : ∀ q ∈ qs, q < 8 * (p.length + 2)) (hkeeps : KeepsEscapes p qs)
    (hp : p.length < 65536) (hcap : p.length ≤ cap) (rest : Bytes) :
    parseFrame cap (flippedFrame p qs ++ rest) =
      if flipSum qs = 0 then .ok (flippedPayload p qs) (flippedFrame p qs).length
      else .malformed (flippedFrame p qs).length := by
  have hlength : (flipBits (frameBody p) qs).length = p.length + 2 :=
    (flipBits_length _ _).trans (frameBody_length p)
  -- the changed bytes are a payload of the same length and two bytes behind it
  have hpayload : (flippedPayload p qs).length = p.length := by
    rw [flippedPayload, List.length_take, hlength]
    omega
  have hcrc : ((flipBits (frameBody p) qs).drop p.length).length = 2 := by
    rw [List.length_drop, hlength]
    omega
  have hsplit : flippedPayload p qs ++ (flipBits (frameBody p) qs).drop p.length =
      flipBits (frameBody p) qs := List.take_append_drop _ _
  have hread := hkeeps.readable hqs
  have htotal : (flippedFrame p qs ++ rest).length - rest.length = (flippedFrame p qs).length := by
    rw [List.length_append, Nat.add_sub_cancel]
  have hparse := @parseWire_altered p cap (flippedFrame p qs ++ rest).length (flippedPayload p qs) _ hp
    hcap hpayload hcrc (by rw [hsplit]; exact hread) rest
  rw [hsplit, run_flipBits_frame hqs, htotal] at hparse
  rw [← hparse, flippedFrame_eq hqs, List.cons_append, List.append_assoc, parseFrame_start]
  rfl

/-- A cut in front of the end of such a frame leaves an incomplete one. -/
theorem parseFrame_flippedFrame_cut (hqs : ∀ q ∈ qs, q < 8 * (p.length + 2))
    (hkeeps : KeepsEscapes p qs) (hp : p.length < 65536)
    (hcap : p.length ≤ cap) {received missing : Bytes}
    (h : received ++ missing = flippedFrame p qs) (hmissing : missing ≠ []) :
    parseFrame cap received = .incomplete := by
  by_contra hne
  have hwhole := parseFrame_flippedFrame hqs hkeeps hp hcap []
  rw [List.append_nil, ← h, parseFrame_append hne] at hwhole
  have hlength := congrArg List.length h
  rw [List.length_append] at hlength
  have hpos := List.length_pos_iff.mpr hmissing
  -- the end of the frame would have been found in what was received of it
  split_ifs at hwhole
  · have hle := (parseFrame_consumed (.inl ⟨_, hwhole⟩)).2
    rw [List.length_append] at hle
    omega
  · have hle := (parseFrame_consumed (.inr hwhole)).2
    rw [List.length_append] at hle
    omega

/-- On a line that leaves the escapes alone an odd number of flipped bits behind LENGTH is always detected,
    and two of them exactly if 32767 does not divide their distance in the content. -/
theorem frameDecode_flipped (hqs : ∀ q ∈ qs, q < 8 * (p.length + 2)) (hkeeps : KeepsEscapes p qs)
    (hcap : p.length ≤ cap) (inBuf : Mem) (inLen : Nat) (rest : Bytes) (hlen : inLen ≤ 65535)
    (hin : slice inBuf 0 inLen = flippedFrame p qs ++ rest) :
    (qs.length % 2 = 1 →
        frameDecode inBuf inLen cap = .malformed (flippedFrame p qs).length) ∧
      ∀ a b, qs = [a, b] →
        (frameDecode inBuf inLen cap = .malformed (flippedFrame p qs).length ↔
          ¬ (32767 : Int) ∣ a - b) := by
  have hp : p.length < 65536 := by
    have htotal := congrArg List.length hin
    have hframe := frameOf_length_ge p
    rw [slice_length, List.length_append, flippedFrame_length] at htotal
    omega
  rw [frameDecode_eq_parseFrame inBuf inLen cap hlen, hin, parseFrame_flippedFrame hqs hkeeps hp hcap]
  refine ⟨fun hodd ↦ if_neg (flipSum_ne_zero_of_odd hodd), fun a b hab ↦ ?_⟩
  rw [hab, ← not_congr (flipSum_pair_iff a b)]
  by_cases hzero : flipSum [a, b] = 0
  · rw [if_pos hzero]
    exact iff_of_false (fun h ↦ by cases h) (not_not_intro hzero)
  · rw [if_neg hzero]
    exact iff_of_true rfl hzero

end Frames

/-- Three flipped bits of a payload of one byte, which is escaped: one in it and two in the CRC. -/
theorem frameDecode_flipped_three :
    frameDecode (ofList (flippedFrame [0x7E] [20, 9, 3] ++ [0x7E]) 0) 8 256 =
      .malformed (flippedFrame [0x7E] [20, 9, 3]).length :=
  (@frameDecode_flipped [0x7E] [20, 9, 3] 256 (by decide) (by decide +kernel) (by decide) _ 8 [0x7E]
    (by decide) (by decide +kernel)).1 rfl

end SubmarineMonitor
