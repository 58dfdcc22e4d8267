import SubmarineMonitor.Protocol.Lookup

/-!
# TlvWalk — the hand-written walk over sibling TLVs

The walk trusts each length it reads: it visits a header whether or not its value is there, and both
its guard and its step wrap at 65536.  It visits exactly the complete TLVs when fewer than three
bytes lie behind them and they end before the guard wraps (`walkTlv_siblings_iff`).
-/

open Reasoning

namespace SubmarineMonitor

/-! ## 1. The complete TLVs of a buffer -/

/-- The TLVs decoded one behind the other from the first byte on, as long as they are complete. -/
def siblings : Bytes → List Tlv
  | t :: hi :: lo :: rest =>
      if h : bigEndian16 hi lo ≤ rest.length then
        { tag := t, value := rest.take (bigEndian16 hi lo)
          length_lt := by rw [List.length_take_of_le h]; exact bigEndian16_lt hi lo } ::
          siblings (rest.drop (bigEndian16 hi lo))
      else []
  | _ => []
termination_by bytes => bytes.length
decreasing_by
  rw [List.length_drop]
  simp only [List.length_cons]
  omega

def placed : Nat → List Tlv → List (UInt8 × Field)
  | _, [] => []
  | off, f :: fs =>
      (f.tag, { off := off + 3, len := f.value.length }) :: placed (off + f.bytes.length) fs

theorem siblings_of_tlv (f : Tlv) (s : Bytes) : siblings (f.bytes ++ s) = f :: siblings s := by
  have hlen : bigEndian16 (UInt8.ofNat (f.value.length / 256))
      (UInt8.ofNat (f.value.length % 256)) = f.value.length := bigEndian16_put f.length_lt
  rw [f.bytes_eq]
  simp only [List.cons_append]
  rw [siblings]
  simp only [hlen, List.take_left, List.drop_left]
  rw [dif_pos (by rw [List.length_append]; exact Nat.le_add_right _ _)]

theorem siblings_of_not_tlv {x : Bytes} (h : ∀ f : Tlv, ∀ s, x ≠ f.bytes ++ s) :
    siblings x = [] := by
  rcases bytes_cases x with rfl | ⟨-, hlt⟩ | ⟨t, hi, lo, rest, rfl⟩
  · rw [siblings]
    exact fun _ _ _ _ h ↦ absurd h (by simp)
  · rw [siblings]
    rintro t hi lo rest rfl
    simp only [List.length_cons] at hlt
    omega
  · have hcut := cut_of_not_tlv h
    rw [siblings, dif_neg (by omega)]

theorem siblings_tlvBytes {fs : List Tlv} {x : Bytes} (h : ∀ f : Tlv, ∀ s, x ≠ f.bytes ++ s) :
    siblings (tlvBytes fs ++ x) = fs := by
  induction fs with
  | nil => rw [tlvBytes_nil, List.nil_append, siblings_of_not_tlv h]
  | cons f fs ih => rw [tlvBytes_cons, List.append_assoc, siblings_of_tlv, ih]

theorem siblings_complete (fs : List Tlv) : siblings (tlvBytes fs) = fs := by
  have h := @siblings_tlvBytes fs [] fun f s hx ↦
    absurd (List.append_eq_nil_iff.mp hx.symm).1 (List.cons_ne_nil _ _)
  rwa [List.append_nil] at h

theorem siblings_split (l : Bytes) :
    ∃ x, l = tlvBytes (siblings l) ++ x ∧ ∀ f : Tlv, ∀ s, x ≠ f.bytes ++ s := by
  -- induction on the length: a complete TLV leaves fewer bytes
  induction h : l.length using Nat.strong_induction_on generalizing l with
  | h n ih =>
      by_cases hnone : ∀ f : Tlv, ∀ s, l ≠ f.bytes ++ s
      · exact ⟨l, by rw [siblings_of_not_tlv hnone, tlvBytes_nil, List.nil_append], hnone⟩
      · simp only [not_forall, not_not] at hnone
        obtain ⟨f, s, rfl⟩ := hnone
        have hb := f.bytes_length
        rw [List.length_append] at h
        obtain ⟨x, hx, hend⟩ := ih s.length (by omega) s rfl
        refine ⟨x, ?_, hend⟩
        rw [siblings_of_tlv, tlvBytes_cons, List.append_assoc, ← hx]

theorem siblings_length_le (l : Bytes) : (tlvBytes (siblings l)).length ≤ l.length := by
  obtain ⟨x, hx, -⟩ := siblings_split l
  have hlen := congrArg List.length hx
  rw [List.length_append] at hlen
  omega

/-! ## 2. Places -/

theorem placed_inside {off : Nat} {fs : List Tlv} {p : UInt8 × Field} (h : p ∈ placed off fs) :
    p.2.off + p.2.len ≤ off + (tlvBytes fs).length := by
  induction fs generalizing off with
  | nil => exact absurd h List.not_mem_nil
  | cons f fs ih =>
      have hb := f.bytes_length
      rw [tlvBytes_cons, List.length_append]
      rcases List.mem_cons.mp h with rfl | h
      · dsimp only
        omega
      · have hp := ih h
        omega

theorem placed_values {value : Mem} {off n : Nat} {fs : List Tlv} {x : Bytes}
    (h : slice value off n = tlvBytes fs ++ x) :
    (placed off fs).map (fun p ↦ (p.1, slice value p.2.off p.2.len)) =
      fs.map fun f ↦ (f.tag, f.value) := by
  induction fs generalizing off n with
  | nil => rfl
  | cons f fs ih =>
      rw [tlvBytes_cons, List.append_assoc] at h
      obtain ⟨hvalue, htail⟩ := slice_tlv h
      rw [placed, List.map_cons, List.map_cons, ih htail, hvalue]

theorem forall_placed_iff {value : Mem} {off n : Nat} {fs : List Tlv} {x : Bytes}
    (h : slice value off n = tlvBytes fs ++ x) (P : UInt8 → Bytes → Prop) :
    (∀ p ∈ placed off fs, P p.1 (slice value p.2.off p.2.len)) ↔ ∀ f ∈ fs, P f.tag f.value := by
  have hvalues := placed_values h
  constructor
  · intro hall f hf
    have hmem : (f.tag, f.value) ∈ fs.map fun f ↦ (f.tag, f.value) := List.mem_map_of_mem hf
    rw [← hvalues] at hmem
    obtain ⟨p, hp, hpf⟩ := List.mem_map.mp hmem
    rw [Prod.mk.injEq] at hpf
    rw [← hpf.1, ← hpf.2]
    exact hall p hp
  · intro hall p hp
    have hmem : (p.1, slice value p.2.off p.2.len) ∈ (placed off fs).map fun p ↦
        (p.1, slice value p.2.off p.2.len) := List.mem_map_of_mem hp
    rw [hvalues] at hmem
    obtain ⟨f, hf, hpf⟩ := List.mem_map.mp hmem
    rw [Prod.mk.injEq] at hpf
    rw [← hpf.1, ← hpf.2]
    exact hall f hf

theorem mapM_placed {ι α : Type} {tlv : ι → Tlv} {xs : List ι} {value : Mem} {off n : Nat}
    {x : Bytes} (h : slice value off n = tlvBytes (xs.map tlv) ++ x) (recordTag : UInt8)
    {print : Mem → Nat → Option α} {shown : ι → α}
    (hprint : ∀ i ∈ xs, (tlv i).tag = recordTag → ∀ record,
      slice record 0 (tlv i).value.length = (tlv i).value →
        print record (tlv i).value.length = some (shown i)) :
    ((placed off (xs.map tlv)).filter fun p ↦ p.1 = recordTag).mapM (fun p ↦
        print (advance value p.2.off) p.2.len) =
      some ((xs.filter fun i ↦ (tlv i).tag = recordTag).map shown) := by
  induction xs generalizing off n with
  | nil => rfl
  | cons i xs ih =>
      rw [List.map_cons, tlvBytes_cons, List.append_assoc] at h
      obtain ⟨hvalue, htail⟩ := slice_tlv h
      have hrest := ih htail fun j hj ↦ hprint j (List.mem_cons_of_mem i hj)
      rw [List.map_cons, placed]
      by_cases htag : (tlv i).tag = recordTag
      · have hi : print (advance value (off + 3)) (tlv i).value.length = some (shown i) :=
          hprint i List.mem_cons_self htag _ (by rw [slice_advance, Nat.add_zero]; exact hvalue)
        rw [List.filter_cons, if_pos (decide_eq_true htag), List.mapM_cons, hi, hrest,
          List.filter_cons, if_pos (decide_eq_true htag)]
        rfl
      · have hother : ¬ decide ((tlv i).tag = recordTag) = true := mt of_decide_eq_true htag
        rw [List.filter_cons, if_neg hother, hrest, List.filter_cons, if_neg hother]

/-! ## 3. The walk -/

section Walk

variable {value : Mem} {valueLen : Nat}

theorem walkLoop_front {offset : Nat} {fs : List Tlv} {x : Bytes} (fuel : Nat)
    (hlen : valueLen ≤ 65535)
    (h : slice value offset (valueLen - offset) = tlvBytes fs ++ x) :
    walkLoop value valueLen (fuel + fs.length) offset =
      (walkLoop value valueLen fuel (offset + (tlvBytes fs).length)).map (placed offset fs ++ ·) := by
  induction fs generalizing offset with
  | nil =>
      rw [tlvBytes_nil, List.length_nil, List.length_nil, Nat.add_zero, Nat.add_zero]
      cases walkLoop value valueLen fuel offset with
      | none => rfl
      | some visited => rfl
  | cons f fs ih =>
      rw [tlvBytes_cons, List.append_assoc] at h
      have htail := (slice_tlv h).2
      rw [Nat.sub_sub] at htail
      rw [List.length_cons, show fuel + (fs.length + 1) = fuel + fs.length + 1 by omega,
        walkLoop_tlv _ hlen h, ih htail, Option.map_map, tlvBytes_cons,
        List.length_append, Nat.add_assoc]
      rfl

/-- A walk whose guard holds visits one more header, or does not end. -/
theorem walkLoop_guard {offset fuel : Nat} (h : u16 (offset + 3) ≤ valueLen) :
    walkLoop value valueLen fuel offset ≠ some [] := by
  cases fuel with
  | zero => exact fun hnone ↦ absurd hnone (by simp [walkLoop])
  | succ fuel =>
      rw [walkLoop, if_pos h]
      dsimp only
      cases walkLoop value valueLen fuel
          (u16 (offset + 3 + protocolGetU16 (advance value (offset + 1)))) with
      | none => exact fun hnone ↦ absurd hnone (by simp)
      | some visited => exact fun hcons ↦ absurd (Option.some.inj hcons) (List.cons_ne_nil _ _)

structure WalkEnds (bytes : Bytes) : Prop where
  /-- The guard of the last test does not wrap. -/
  short : (tlvBytes (siblings bytes)).length ≤ 65532
  /-- No header of an incomplete TLV is left. -/
  left : bytes.length < (tlvBytes (siblings bytes)).length + 3

/-- The guard of the last test fails exactly there. -/
theorem not_guard_iff {front : Nat} (hfront : front ≤ valueLen) (hlen : valueLen ≤ 65535) :
    ¬ u16 (front + 3) ≤ valueLen ↔ front ≤ 65532 ∧ valueLen < front + 3 := by
  by_cases hwrap : front ≤ 65532
  · rw [u16_of_lt (by omega)]
    omega
  · have hsmall : u16 (front + 3) = front - 65533 := by
      unfold u16
      omega
    rw [hsmall]
    omega

theorem walkEnds_iff (hlen : valueLen ≤ 65535) :
    WalkEnds (slice value 0 valueLen) ↔
      ¬ u16 ((tlvBytes (siblings (slice value 0 valueLen))).length + 3) ≤ valueLen := by
  have hle := siblings_length_le (slice value 0 valueLen)
  rw [slice_length] at hle
  rw [not_guard_iff hle hlen]
  constructor
  · intro h
    have hleft := h.left
    rw [slice_length] at hleft
    exact ⟨h.short, hleft⟩
  · intro h
    exact ⟨h.1, by rw [slice_length]; exact h.2⟩

theorem walkTlv_siblings_iff (hlen : valueLen ≤ 65535) :
    walkTlv value valueLen = some (placed 0 (siblings (slice value 0 valueLen))) ↔
      WalkEnds (slice value 0 valueLen) := by
  obtain ⟨x, hx, -⟩ := siblings_split (slice value 0 valueLen)
  have hle := siblings_length_le (slice value 0 valueLen)
  have hge := tlvBytes_length_ge (siblings (slice value 0 valueLen))
  rw [slice_length] at hle
  rw [walkEnds_iff hlen]
  generalize siblings (slice value 0 valueLen) = fs at hx hle hge
  have hfront := @walkLoop_front value valueLen 0 fs x (65535 - fs.length + 1) hlen hx
  rw [show 65535 - fs.length + 1 + fs.length = 65536 by omega, Nat.zero_add] at hfront
  rw [walkTlv, hfront]
  constructor
  · intro hexact hguard
    -- one more header is visited behind the TLVs
    have hmore := @walkLoop_guard value valueLen _ (65535 - fs.length + 1) hguard
    cases hrest : walkLoop value valueLen (65535 - fs.length + 1) (tlvBytes fs).length with
    | none =>
        rw [hrest] at hexact
        exact absurd hexact (by simp)
    | some visited =>
        rw [hrest] at hexact hmore
        have hnil := List.append_right_eq_self.mp (Option.some.inj hexact)
        exact hmore (congrArg some hnil)
  · intro hguard
    rw [walkLoop, if_neg hguard]
    show some (placed 0 fs ++ []) = _
    rw [List.append_nil]

/-- On complete TLVs the walk visits each of them, in order. -/
theorem walkTlv_complete {fs : List Tlv} (hlen : valueLen ≤ 65532)
    (h : slice value 0 valueLen = tlvBytes fs) :
    walkTlv value valueLen = some (placed 0 fs) := by
  have hn := congrArg List.length h
  rw [slice_length] at hn
  have hfs : siblings (slice value 0 valueLen) = fs := by rw [h, siblings_complete]
  rw [← hfs]
  apply (walkTlv_siblings_iff (Nat.le_trans hlen (by decide))).mpr
  exact { short := by rw [hfs]; omega, left := by rw [hfs, slice_length]; omega }

end Walk

end SubmarineMonitor
