import SubmarineMonitor.Protocol.Tlv
import SubmarineMonitor.Reasoning.StreamCode

/-!
# TlvGrammar — TLV sequences as byte strings

A buffer is a sequence of complete TLVs in exact arithmetic, possibly with a stop behind it: the
end, a TLV with the searched tag, or bytes that are no complete TLV.  The parse up to the stop is
unique, so what a search for a tag should return is determined by the bytes.
-/

open Reasoning

namespace SubmarineMonitor

/-! ## 1. The grammar -/

structure Tlv where
  tag : UInt8
  value : Bytes
  length_lt : value.length < 65536

def Tlv.bytes (f : Tlv) : Bytes := f.tag :: (protocolPutU16 f.value.length ++ f.value)

def tlvBytes (l : List Tlv) : Bytes := encodeAll Tlv.bytes l

def FirstField (tag : UInt8) (v bytes : Bytes) : Prop :=
  ∃ (pre : List Tlv) (f : Tlv) (rest : Bytes), (∀ g ∈ pre, g.tag ≠ tag) ∧ f.tag = tag ∧ f.value = v ∧
    bytes = tlvBytes pre ++ (f.bytes ++ rest)

def NoField (tag : UInt8) (bytes : Bytes) : Prop :=
  ∃ pre : List Tlv, (∀ g ∈ pre, g.tag ≠ tag) ∧ bytes = tlvBytes pre

@[simp] theorem tlvBytes_nil : tlvBytes [] = [] := rfl

@[simp] theorem tlvBytes_cons (f : Tlv) (l : List Tlv) :
    tlvBytes (f :: l) = f.bytes ++ tlvBytes l := rfl

theorem tlvBytes_append (l r : List Tlv) : tlvBytes (l ++ r) = tlvBytes l ++ tlvBytes r :=
  encodeAll_append l r

theorem Tlv.bytes_length (f : Tlv) : f.bytes.length = 3 + f.value.length := by
  simp only [Tlv.bytes, List.length_cons, List.length_append, protocolPutU16_length]
  omega

theorem Tlv.bytes_eq (f : Tlv) : f.bytes = f.tag :: UInt8.ofNat (f.value.length / 256) ::
    UInt8.ofNat (f.value.length % 256) :: f.value := by
  rw [Tlv.bytes, protocolPutU16_eq]
  rfl

/-- A memory that holds a TLV holds its value behind the header, and then what follows. -/
theorem slice_tlv {m : Mem} {off n : Nat} {f : Tlv} {s : Bytes} (h : slice m off n = f.bytes ++ s) :
    slice m (off + 3) f.value.length = f.value ∧
      slice m (off + f.bytes.length) (n - f.bytes.length) = s := by
  have hn := congrArg List.length h
  have hb := f.bytes_length
  rw [slice_length, List.length_append] at hn
  have htail := slice_drop m off (k := f.bytes.length) (n := n) (by omega)
  have hvalue := congrArg (fun l ↦ (l.drop 3).take f.value.length) h
  rw [slice_drop _ _ (by omega), slice_take _ _ (by omega), f.bytes_eq] at hvalue
  simp only [List.cons_append, List.drop_succ_cons, List.drop_zero, List.take_left] at hvalue
  rw [h, List.drop_left] at htail
  exact ⟨hvalue, htail.symm⟩

theorem tlv_of_header {t hi lo : UInt8} {rest : Bytes}
    (h : bigEndian16 hi lo ≤ rest.length) :
    ∃ f : Tlv, f.tag = t ∧ f.value.length = bigEndian16 hi lo ∧
      t :: hi :: lo :: rest = f.bytes ++ rest.drop (bigEndian16 hi lo) := by
  have hlen : (rest.take (bigEndian16 hi lo)).length = bigEndian16 hi lo :=
    List.length_take_of_le h
  refine ⟨{ tag := t, value := rest.take (bigEndian16 hi lo),
            length_lt := by rw [hlen]; exact bigEndian16_lt hi lo }, rfl, hlen, ?_⟩
  simp only [Tlv.bytes, hlen, protocolPutU16_bigEndian16, List.cons_append, List.nil_append,
    List.take_append_drop]

theorem tlv_prefixFree : PrefixFree Tlv.bytes fun _ ↦ True where
  ne_nil f := List.cons_ne_nil _ _
  inj {f g r s} _ _ h := by
    rw [f.bytes_eq, g.bytes_eq] at h
    simp only [List.cons_append, List.cons.injEq] at h
    obtain ⟨htag, hhi, hlo, hrest⟩ := h
    have hlen : f.value.length = g.value.length := by
      rw [← bigEndian16_put f.length_lt, ← bigEndian16_put g.length_lt, hhi, hlo]
    obtain ⟨hvalue, htail⟩ := List.append_inj hrest hlen
    cases f
    cases g
    simp only at htag hvalue
    subst htag hvalue
    exact ⟨rfl, htail⟩

def Stops (tag : UInt8) (l : Bytes) : Prop := ∀ f : Tlv, ∀ s, l = f.bytes ++ s → f.tag = tag

theorem tlv_parse (tag : UInt8) (l : Bytes) :
    ∃ pre x, l = tlvBytes pre ++ x ∧ (∀ g ∈ pre, g.tag ≠ tag) ∧ Stops tag x := by
  -- induction on the length: a TLV of another tag leaves fewer bytes
  induction h : l.length using Nat.strong_induction_on generalizing l with
  | h n ih =>
      by_cases hstop : Stops tag l
      · exact ⟨[], l, rfl, fun g hg ↦ absurd hg List.not_mem_nil, hstop⟩
      · simp only [Stops, not_forall] at hstop
        obtain ⟨f, s, rfl, htag⟩ := hstop
        have hlen := f.bytes_length
        rw [List.length_append] at h
        obtain ⟨pre, x, rfl, hpre, hx⟩ := ih s.length (by omega) s rfl
        refine ⟨f :: pre, x, by rw [tlvBytes_cons, List.append_assoc], ?_, hx⟩
        intro g hg
        rcases List.mem_cons.mp hg with rfl | hg
        · exact htag
        · exact hpre g hg

theorem tlv_parse_unique {tag : UInt8} {pre pre' : List Tlv} {x x' : Bytes}
    (h : tlvBytes pre ++ x = tlvBytes pre' ++ x') (hpre : ∀ g ∈ pre, g.tag ≠ tag)
    (hpre' : ∀ g ∈ pre', g.tag ≠ tag) (hx : Stops tag x) (hx' : Stops tag x') : x = x' := by
  induction pre generalizing pre' with
  | nil =>
      cases pre' with
      | nil => exact h
      | cons g pre' =>
          rw [tlvBytes_nil, List.nil_append, tlvBytes_cons, List.append_assoc] at h
          exact absurd (hx g _ h) (hpre' g List.mem_cons_self)
  | cons f pre ih =>
      cases pre' with
      | nil =>
          rw [tlvBytes_nil, List.nil_append, tlvBytes_cons, List.append_assoc] at h
          exact absurd (hx' f _ h.symm) (hpre f List.mem_cons_self)
      | cons g pre' =>
          rw [tlvBytes_cons, tlvBytes_cons, List.append_assoc, List.append_assoc] at h
          exact ih (tlv_prefixFree.inj trivial trivial h).2
            (fun y hy ↦ hpre y (List.mem_cons_of_mem f hy))
            (fun y hy ↦ hpre' y (List.mem_cons_of_mem g hy))

/-- Bytes with a header that are no complete TLV lack a part of the value. -/
theorem cut_of_not_tlv {t hi lo : UInt8} {rest : Bytes}
    (h : ∀ f : Tlv, ∀ s, t :: hi :: lo :: rest ≠ f.bytes ++ s) :
    rest.length < bigEndian16 hi lo := by
  by_contra hle
  obtain ⟨f, -, -, hf⟩ := tlv_of_header (t := t) (Nat.le_of_not_lt hle)
  exact h f _ hf

end SubmarineMonitor
