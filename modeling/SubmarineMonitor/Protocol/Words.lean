import SubmarineMonitor.Reasoning.Memory
import Mathlib.Tactic.Ring
import Mathlib.Tactic.NormNum

/-!
# Words — the machine integers and constants of `common/protocol.h`

Lengths and indices are natural numbers and every `(uint16_t)` or `(uint32_t)` of the source is an
explicit `u16` or `u32`, so that a sum that wraps is visible where it is written.  Bytes are `UInt8`
and buffers are memories of bytes.
-/

open Reasoning

namespace SubmarineMonitor

abbrev Bytes := List UInt8

abbrev Mem := Memory UInt8

/-- The cast `(uint16_t)`. -/
def u16 (n : Nat) : Nat := n % 2 ^ 16

def u32 (n : Nat) : Nat := n % 2 ^ 32

theorem u16_of_lt {n : Nat} (h : n < 65536) : u16 n = n := Nat.mod_eq_of_lt h

theorem u32_of_lt {n : Nat} (h : n < 4294967296) : u32 n = n := Nat.mod_eq_of_lt h

theorem u32_lt (n : Nat) : u32 n < 4294967296 := Nat.mod_lt _ (by decide)

/-! ## 1. Result codes, tags and fields -/

inductive ProtoResult
  | ok
  | errBufferTooSmall
  | errIncomplete
  | errMalformed
  | errNotFound
  deriving DecidableEq, Repr

def protoFrameStart : UInt8 := 0x7E
def protoFrameEscape : UInt8 := 0x7D
def protoFrameEscapeXor : UInt8 := 0x20

def protoTagSetBatteryWarningMin : UInt8 := 0x08
def protoTagSetRtcReq : UInt8 := 0x09
def protoTagGetTimeReq : UInt8 := 0x0A
def protoTagGetTimeResp : UInt8 := 0x0B
def protoTagConfigAck : UInt8 := 0x0C
def protoTagGetMeasurementsReq : UInt8 := 0x0D
def protoTagGetMeasurementsResp : UInt8 := 0x0E
def protoTagGetEventsReq : UInt8 := 0x0F
def protoTagGetEventsResp : UInt8 := 0x10
def protoTagKeepAlive : UInt8 := 0x11
def protoTagEventReport : UInt8 := 0x12
def protoTagGsGetLogReq : UInt8 := 0x13
def protoTagGsGetLogResp : UInt8 := 0x14
def protoTagGsGetEventsReq : UInt8 := 0x15
def protoTagGsGetEventsResp : UInt8 := 0x16

def protoFieldTimestamp : UInt8 := 0x20
def protoFieldBatteryMin : UInt8 := 0x25
def protoFieldStatus : UInt8 := 0x26
def protoFieldTimeRangeStart : UInt8 := 0x27
def protoFieldTimeRangeEnd : UInt8 := 0x28
def protoFieldMeasurementRecord : UInt8 := 0x29
def protoFieldEventType : UInt8 := 0x2A
def protoFieldEventSource : UInt8 := 0x2B
def protoFieldMode : UInt8 := 0x2C
def protoFieldWdResetFlag : UInt8 := 0x2D
def protoFieldTemperature : UInt8 := 0x2E
def protoFieldHumidity : UInt8 := 0x2F
def protoFieldLight : UInt8 := 0x30
def protoFieldBatteryVoltage : UInt8 := 0x31
def protoFieldSubmarineId : UInt8 := 0x32
def protoFieldEventRecord : UInt8 := 0x33
def protoFieldCursorDay : UInt8 := 0x34
def protoFieldCursorOffset : UInt8 := 0x35

def protoStatusSuccess : UInt8 := 0x00
def protoStatusNoDataFound : UInt8 := 0x03
def protoStatusInternalError : UInt8 := 0x05

/-! ## 2. Big-endian primitives -/

def protocolPutU16 (value : Nat) : Bytes :=
  [UInt8.ofNat (value >>> 8), UInt8.ofNat (value &&& 0xFF)]

def protocolPutU32 (value : Nat) : Bytes :=
  [UInt8.ofNat (value >>> 24), UInt8.ofNat (value >>> 16), UInt8.ofNat (value >>> 8),
    UInt8.ofNat (value &&& 0xFF)]

def protocolGetU16 (buf : Mem) : Nat := u16 ((buf 0).toNat <<< 8 ||| (buf 1).toNat)

def protocolGetU32 (buf : Mem) : Nat :=
  u32 ((buf 0).toNat <<< 24 ||| (buf 1).toNat <<< 16 ||| (buf 2).toNat <<< 8 ||| (buf 3).toNat)

@[simp] theorem protocolPutU16_length (value : Nat) : (protocolPutU16 value).length = 2 := rfl

@[simp] theorem protocolPutU32_length (value : Nat) : (protocolPutU32 value).length = 4 := rfl

def bigEndian16 (hi lo : UInt8) : Nat := hi.toNat * 256 + lo.toNat

theorem bigEndian16_lt (hi lo : UInt8) : bigEndian16 hi lo < 65536 := by
  have h := UInt8.toNat_lt hi
  have l := UInt8.toNat_lt lo
  unfold bigEndian16
  omega

theorem protocolGetU16_eq (buf : Mem) : protocolGetU16 buf = bigEndian16 (buf 0) (buf 1) := by
  have hlo : (buf 1).toNat < 2 ^ 8 := UInt8.toNat_lt _
  unfold protocolGetU16
  rw [← Nat.shiftLeft_add_eq_or_of_lt hlo, Nat.shiftLeft_eq]
  exact u16_of_lt (bigEndian16_lt (buf 0) (buf 1))

theorem protocolPutU16_eq (value : Nat) :
    protocolPutU16 value = [UInt8.ofNat (value / 256), UInt8.ofNat (value % 256)] := by
  unfold protocolPutU16
  rw [Nat.shiftRight_eq_div_pow, show (0xFF : Nat) = 2 ^ 8 - 1 from rfl,
    Nat.and_two_pow_sub_one_eq_mod]

theorem bigEndian16_put {value : Nat} (h : value < 65536) :
    bigEndian16 (UInt8.ofNat (value / 256)) (UInt8.ofNat (value % 256)) = value := by
  simp only [bigEndian16, UInt8.toNat_ofNat']
  omega

theorem protocolPutU16_bigEndian16 (hi lo : UInt8) :
    protocolPutU16 (bigEndian16 hi lo) = [hi, lo] := by
  have hhi := UInt8.toNat_lt hi
  have hlo := UInt8.toNat_lt lo
  rw [protocolPutU16_eq, bigEndian16, show (hi.toNat * 256 + lo.toNat) / 256 = hi.toNat by omega,
    show (hi.toNat * 256 + lo.toNat) % 256 = lo.toNat by omega, UInt8.ofNat_toNat,
    UInt8.ofNat_toNat]

theorem protocolGetU16_of_slice {buf : Mem} {value : Nat} (hv : value < 65536)
    (h : slice buf 0 2 = protocolPutU16 value) : protocolGetU16 buf = value := by
  rw [protocolPutU16_eq] at h
  simp only [slice_succ, slice_zero, Nat.zero_add, List.cons.injEq, and_true] at h
  rw [protocolGetU16_eq, h.1, h.2, bigEndian16_put hv]

theorem protocolPutU16_get {l : Bytes} (h : l.length = 2) :
    protocolPutU16 (protocolGetU16 (ofList l 0)) = l := by
  match l, h with
  | [hi, lo], _ =>
      rw [protocolGetU16_eq]
      exact protocolPutU16_bigEndian16 hi lo

def bigEndian32 (b0 b1 b2 b3 : UInt8) : Nat :=
  b0.toNat * 2 ^ 24 + b1.toNat * 2 ^ 16 + b2.toNat * 2 ^ 8 + b3.toNat

theorem bigEndian32_lt (b0 b1 b2 b3 : UInt8) : bigEndian32 b0 b1 b2 b3 < 4294967296 := by
  have h0 := UInt8.toNat_lt b0
  have h1 := UInt8.toNat_lt b1
  have h2 := UInt8.toNat_lt b2
  have h3 := UInt8.toNat_lt b3
  unfold bigEndian32
  omega

theorem protocolGetU32_eq (buf : Mem) :
    protocolGetU32 buf = bigEndian32 (buf 0) (buf 1) (buf 2) (buf 3) := by
  have h1 : (buf 1).toNat < 2 ^ 8 := UInt8.toNat_lt _
  have h2 : (buf 2).toNat < 2 ^ 8 := UInt8.toNat_lt _
  have h3 : (buf 3).toNat < 2 ^ 8 := UInt8.toNat_lt _
  have hor : (buf 0).toNat <<< 24 ||| (buf 1).toNat <<< 16 ||| (buf 2).toNat <<< 8 |||
      (buf 3).toNat = bigEndian32 (buf 0) (buf 1) (buf 2) (buf 3) := by
    -- each `|||` meets only zero bits, so it is a sum
    rw [show (buf 0).toNat <<< 24 = ((buf 0).toNat <<< 8) <<< 16 by rw [← Nat.shiftLeft_add],
      ← Nat.shiftLeft_or_distrib, ← Nat.shiftLeft_add_eq_or_of_lt h1,
      show ((buf 0).toNat <<< 8 + (buf 1).toNat) <<< 16 =
        (((buf 0).toNat <<< 8 + (buf 1).toNat) <<< 8) <<< 8 by rw [← Nat.shiftLeft_add],
      ← Nat.shiftLeft_or_distrib, ← Nat.shiftLeft_add_eq_or_of_lt h2,
      ← Nat.shiftLeft_add_eq_or_of_lt h3]
    simp only [Nat.shiftLeft_eq, bigEndian32]
    ring
  unfold protocolGetU32
  rw [hor, u32_of_lt (bigEndian32_lt _ _ _ _)]

theorem protocolPutU32_eq (value : Nat) :
    protocolPutU32 value = [UInt8.ofNat (value / 2 ^ 24), UInt8.ofNat (value / 2 ^ 16),
      UInt8.ofNat (value / 2 ^ 8), UInt8.ofNat (value % 2 ^ 8)] := by
  unfold protocolPutU32
  simp only [Nat.shiftRight_eq_div_pow]
  rw [show (0xFF : Nat) = 2 ^ 8 - 1 from rfl, Nat.and_two_pow_sub_one_eq_mod]

theorem bigEndian32_put {value : Nat} (h : value < 4294967296) :
    bigEndian32 (UInt8.ofNat (value / 2 ^ 24)) (UInt8.ofNat (value / 2 ^ 16))
      (UInt8.ofNat (value / 2 ^ 8)) (UInt8.ofNat (value % 2 ^ 8)) = value := by
  simp only [bigEndian32, UInt8.toNat_ofNat']
  omega

theorem protocolGetU32_of_slice {buf : Mem} {value : Nat} (hv : value < 4294967296)
    (h : slice buf 0 4 = protocolPutU32 value) : protocolGetU32 buf = value := by
  rw [protocolPutU32_eq] at h
  simp only [slice_succ, slice_zero, Nat.zero_add, List.cons.injEq, and_true] at h
  rw [protocolGetU32_eq, h.1, h.2.1, h.2.2.1, h.2.2.2, bigEndian32_put hv]

theorem protocolPutU32_bigEndian32 (b0 b1 b2 b3 : UInt8) :
    protocolPutU32 (bigEndian32 b0 b1 b2 b3) = [b0, b1, b2, b3] := by
  have h0 := UInt8.toNat_lt b0
  have h1 := UInt8.toNat_lt b1
  have h2 := UInt8.toNat_lt b2
  have h3 := UInt8.toNat_lt b3
  have hbyte : ∀ {n : Nat} (b : UInt8), n % 2 ^ 8 = b.toNat → UInt8.ofNat n = b := by
    intro n b hn
    apply UInt8.toNat_inj.mp
    rw [UInt8.toNat_ofNat', hn]
  rw [protocolPutU32_eq, hbyte b0 (by rw [bigEndian32]; omega), hbyte b1 (by rw [bigEndian32]; omega),
    hbyte b2 (by rw [bigEndian32]; omega), hbyte b3 (by rw [bigEndian32]; omega)]

theorem protocolPutU32_get {l : Bytes} (h : l.length = 4) :
    protocolPutU32 (protocolGetU32 (ofList l 0)) = l := by
  match l, h with
  | [b0, b1, b2, b3], _ =>
      rw [protocolGetU32_eq]
      exact protocolPutU32_bigEndian32 b0 b1 b2 b3

end SubmarineMonitor
