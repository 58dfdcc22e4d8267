import SubmarineMonitor.Protocol.TlvGrammar

/-!
# FindField — the scan of `Protocol_FindField` against the TLV grammar

The scan agrees with the grammar up to a header that declares 65533 bytes or more: there
`3 + valueLen` wraps in 16 bits, the completeness test passes, and the scan goes on up to two bytes
behind the header (`findField_followsGrammar_iff`) or stays on it for ever (`findFieldLoop_hangs`).
-/

open Reasoning

namespace SubmarineMonitor

/-! ## 1. The scan against the grammar -/

theorem slice_header_length {m : Mem} {off n : Nat} {t hi lo : UInt8} {rest : Bytes}
    (h : slice m off n = t :: hi :: lo :: rest) : n = rest.length + 3 := by
  rw [← slice_length m off n, h]
  rfl

theorem decodeTLV_short {m : Mem} {n : Nat} (h : n < 3) :
    protocolDecodeTLV m n = .error .errIncomplete := if_pos h

theorem decodeTLV_header {m : Mem} {n : Nat} {t hi lo : UInt8} {rest : Bytes}
    (h : slice m 0 n = t :: hi :: lo :: rest) :
    protocolDecodeTLV m n =
      if n < u16 (3 + bigEndian16 hi lo) then .error .errIncomplete
      else .ok { tag := t, valueOff := 3, valueLen := bigEndian16 hi lo,
                 consumed := u16 (3 + bigEndian16 hi lo) } := by
  have hn := slice_header_length h
  obtain ⟨n, rfl⟩ : ∃ k, n = k + 3 := ⟨rest.length, by omega⟩
  simp only [slice_succ, Nat.zero_add, List.cons.injEq] at h
  unfold protocolDecodeTLV
  rw [if_neg (by omega), protocolGetU16_eq]
  simp only [advance_apply, Nat.add_zero, h.1, h.2.1, h.2.2.1]

section Scan

variable {buf : Mem} {len : Nat} {tag : UInt8}

theorem findFieldLoop_end {offset : Nat} (fuel : Nat) (h : len ≤ offset) :
    findFieldLoop buf len tag (fuel + 1) offset = some (.error .errNotFound) := by
  rw [findFieldLoop, if_neg (by omega)]

theorem findFieldLoop_short {offset : Nat} (fuel : Nat) (hlt : offset < len)
    (h : len - offset < 3) :
    findFieldLoop buf len tag (fuel + 1) offset = some (.error .errMalformed) := by
  rw [findFieldLoop, if_pos hlt, u16_of_lt (by omega), decodeTLV_short h]

/-- One loop iteration at a header. -/
theorem findFieldLoop_header {offset : Nat} {t hi lo : UInt8} {rest : Bytes} (fuel : Nat)
    (hlen : len ≤ 65535) (h : slice buf offset (len - offset) = t :: hi :: lo :: rest) :
    findFieldLoop buf len tag (fuel + 1) offset =
      if len - offset < u16 (3 + bigEndian16 hi lo) then some (.error .errMalformed)
      else if t = tag then some (.ok { off := offset + 3, len := bigEndian16 hi lo })
      else findFieldLoop buf len tag fuel (u16 (offset + u16 (3 + bigEndian16 hi lo))) := by
  have hn := slice_header_length h
  have hcur : slice (advance buf offset) 0 (len - offset) = t :: hi :: lo :: rest := by
    rw [slice_advance]
    exact h
  rw [findFieldLoop, if_pos (by omega), u16_of_lt (show len - offset < 65536 by omega),
    decodeTLV_header hcur]
  by_cases hcut : len - offset < u16 (3 + bigEndian16 hi lo)
  · rw [if_pos hcut, if_pos hcut]
  · rw [if_neg hcut, if_neg hcut]

theorem findFieldLoop_tlv {offset : Nat} {f : Tlv} {s : Bytes} (fuel : Nat) (hlen : len ≤ 65535)
    (h : slice buf offset (len - offset) = f.bytes ++ s) :
    findFieldLoop buf len tag (fuel + 1) offset =
      if f.tag = tag then some (.ok { off := offset + 3, len := f.value.length })
      else findFieldLoop buf len tag fuel (offset + f.bytes.length) := by
  have hn := congrArg List.length h
  have hb := f.bytes_length
  rw [slice_length, List.length_append] at hn
  rw [f.bytes_eq] at h
  rw [findFieldLoop_header fuel hlen h, bigEndian16_put f.length_lt, u16_of_lt (by omega),
    if_neg (by omega), u16_of_lt (by omega), hb]

theorem findFieldLoop_pre {offset : Nat} {pre : List Tlv} {x : Bytes} (fuel : Nat)
    (hlen : len ≤ 65535) (h : slice buf offset (len - offset) = tlvBytes pre ++ x)
    (hpre : ∀ g ∈ pre, g.tag ≠ tag) :
    findFieldLoop buf len tag (fuel + pre.length) offset =
      findFieldLoop buf len tag fuel (offset + (tlvBytes pre).length) := by
  induction pre generalizing offset with
  | nil => rfl
  | cons g pre ih =>
      rw [tlvBytes_cons, List.append_assoc] at h
      have htail := (slice_tlv h).2
      rw [Nat.sub_sub] at htail
      rw [List.length_cons, show fuel + (pre.length + 1) = fuel + pre.length + 1 by omega,
        findFieldLoop_tlv _ hlen h, if_neg (hpre g List.mem_cons_self), ih htail
          (fun y hy ↦ hpre y (List.mem_cons_of_mem g hy)), tlvBytes_cons, List.length_append,
        Nat.add_assoc]

theorem findFieldLoop_mono {fuel offset : Nat} {r : Except ProtoResult Field}
    (h : findFieldLoop buf len tag fuel offset = some r) (k : Nat) :
    findFieldLoop buf len tag (fuel + k) offset = some r := by
  induction fuel generalizing offset with
  | zero => exact absurd h (by simp [findFieldLoop])
  | succ fuel ih =>
      rw [show fuel + 1 + k = (fuel + k) + 1 by omega]
      rw [findFieldLoop] at h ⊢
      by_cases hlt : offset < len
      · rw [if_pos hlt] at h ⊢
        rcases hdec : protocolDecodeTLV (advance buf offset) (u16 (len - offset)) with e | cur
        · rw [hdec] at h
          exact h
        · rw [hdec] at h
          simp only at h ⊢
          by_cases htag : cur.tag = tag
          · rw [if_pos htag] at h ⊢
            exact h
          · rw [if_neg htag] at h ⊢
            exact ih h
      · rw [if_neg hlt] at h ⊢
        exact h

/-- One iteration returns, or goes on at an offset that is not behind and not past the end. -/
theorem findFieldLoop_cases {offset : Nat} (hlen : len ≤ 65535) :
    (∃ r, ∀ fuel, findFieldLoop buf len tag (fuel + 1) offset = some r) ∨
      (∃ next, offset ≤ next ∧ next ≤ len ∧ ∀ fuel,
        findFieldLoop buf len tag (fuel + 1) offset = findFieldLoop buf len tag fuel next) := by
  by_cases hend : len ≤ offset
  · exact .inl ⟨_, fun fuel ↦ findFieldLoop_end fuel hend⟩
  -- fewer than three bytes are no header
  by_cases hshort : len - offset < 3
  · exact .inl ⟨_, fun fuel ↦ findFieldLoop_short fuel (by omega) hshort⟩
  obtain ⟨k, hk⟩ : ∃ k, len - offset = k + 3 := ⟨len - offset - 3, by omega⟩
  have hcons : slice buf offset (len - offset) = buf offset :: buf (offset + 1) ::
      buf (offset + 1 + 1) :: slice buf (offset + 1 + 1 + 1) k := by rw [hk]; rfl
  have hstep := fun fuel ↦ @findFieldLoop_header buf len tag offset _ _ _ _ fuel hlen hcons
  generalize u16 (3 + bigEndian16 (buf (offset + 1)) (buf (offset + 1 + 1))) = consumed at hstep
  -- a header: the step is the 16-bit TLV size, whatever it is
  by_cases hcut : len - offset < consumed
  · exact .inl ⟨_, fun fuel ↦ by rw [hstep fuel, if_pos hcut]⟩
  by_cases htag : buf offset = tag
  · exact .inl ⟨_, fun fuel ↦ by rw [hstep fuel, if_neg hcut, if_pos htag]⟩
  · refine .inr ⟨offset + consumed, Nat.le_add_right _ _, by omega, fun fuel ↦ ?_⟩
    rw [hstep fuel, if_neg hcut, if_neg htag, u16_of_lt (by omega)]

/-- A scan still going after more tests than there are bytes stays where it is for ever. -/
theorem findFieldLoop_none {offset fuel : Nat} (hlen : len ≤ 65535)
    (hfuel : len - offset < fuel) (h : findFieldLoop buf len tag fuel offset = none) (k : Nat) :
    findFieldLoop buf len tag k offset = none := by
  -- induction on the tests left: an iteration that moves on leaves fewer bytes than tests
  induction fuel generalizing offset k with
  | zero => omega
  | succ fuel ih =>
      rcases @findFieldLoop_cases buf len tag offset hlen with
        ⟨r, hr⟩ | ⟨next, hlo, hhi, hnext⟩
      · rw [hr fuel] at h
        exact absurd h (by simp)
      · by_cases hstay : next = offset
        · -- nothing was consumed: every further iteration is the same one again
          subst hstay
          induction k with
          | zero => rfl
          | succ k ihk => rw [hnext k, ihk]
        · rw [hnext fuel] at h
          cases k with
          | zero => rfl
          | succ k => rw [hnext k, ih (by omega) h]

/-- `protocolFindField` returns exactly what the scan returns with any number of iterations. -/
theorem protocolFindField_eq_some_iff (hlen : len ≤ 65535) (r : Except ProtoResult Field) :
    protocolFindField buf len tag = some r ↔
      ∃ fuel, findFieldLoop buf len tag fuel 0 = some r := by
  constructor
  · exact fun h ↦ ⟨65536, h⟩
  · rintro ⟨fuel, h⟩
    rcases hff : protocolFindField buf len tag with _ | r'
    · rw [findFieldLoop_none hlen (show len - 0 < 65536 by omega) hff fuel] at h
      exact absurd h (by simp)
    · have h' := findFieldLoop_mono hff fuel
      rw [Nat.add_comm, findFieldLoop_mono h 65536] at h'
      exact h'.symm

theorem protocolFindField_eq_none_iff (hlen : len ≤ 65535) :
    protocolFindField buf len tag = none ↔
      ∀ fuel, findFieldLoop buf len tag fuel 0 = none :=
  ⟨fun h fuel ↦ findFieldLoop_none hlen (show len - 0 < 65536 by omega) h fuel, fun h ↦ h 65536⟩

end Scan

/-! ## 2. Where the scan leaves the grammar -/

/-- A scan resumed at these bytes ends at a cut-off field before it meets `tag`.  A header that
    declares 65534 or 65535 bytes moves the scan on by one or two bytes only. -/
inductive StopsShort (tag : UInt8) : Bytes → Prop
  | header {l : Bytes} (hne : l ≠ []) (hlt : l.length < 3) : StopsShort tag l
  | value {t hi lo : UInt8} {rest : Bytes} (hcut : rest.length < bigEndian16 hi lo)
      (hfit : bigEndian16 hi lo < 65533) : StopsShort tag (t :: hi :: lo :: rest)
  | next {t hi lo : UInt8} {rest : Bytes} (htag : t ≠ tag)
      (hall : bigEndian16 hi lo ≤ rest.length)
      (h : StopsShort tag (rest.drop (bigEndian16 hi lo))) :
      StopsShort tag (t :: hi :: lo :: rest)
  | wrapped {t hi lo : UInt8} {rest : Bytes} (htag : t ≠ tag) (hwrap : 65533 < bigEndian16 hi lo)
      (h : StopsShort tag ((t :: hi :: lo :: rest).drop (bigEndian16 hi lo - 65533))) :
      StopsShort tag (t :: hi :: lo :: rest)

theorem u16_wrapped {n : Nat} (hlo : 65533 ≤ n) (hhi : n < 65536) : u16 (3 + n) = n - 65533 := by
  unfold u16
  omega

theorem StopsShort.ne_nil {tag : UInt8} {l : Bytes} (h : StopsShort tag l) : l ≠ [] := by
  cases h with
  | header hne _ => exact hne
  | value => exact List.cons_ne_nil _ _
  | next => exact List.cons_ne_nil _ _
  | wrapped => exact List.cons_ne_nil _ _

section Scan

variable {buf : Mem} {len : Nat} {tag : UInt8}

theorem bytes_cases (l : Bytes) :
    l = [] ∨ (l ≠ [] ∧ l.length < 3) ∨ ∃ t hi lo rest, l = t :: hi :: lo :: rest := by
  match l with
  | [] => exact .inl rfl
  | [_] => exact .inr (.inl ⟨List.cons_ne_nil _ _, by simp⟩)
  | [_, _] => exact .inr (.inl ⟨List.cons_ne_nil _ _, by simp⟩)
  | t :: hi :: lo :: rest => exact .inr (.inr ⟨t, hi, lo, rest, rfl⟩)

theorem slice_behind_field {offset : Nat} {t hi lo : UInt8} {rest : Bytes}
    (hl : slice buf offset (len - offset) = t :: hi :: lo :: rest)
    (hall : bigEndian16 hi lo ≤ rest.length) :
    slice buf (offset + (bigEndian16 hi lo + 3)) (len - (offset + (bigEndian16 hi lo + 3))) =
      rest.drop (bigEndian16 hi lo) := by
  have hn := slice_header_length hl
  rw [slice_skip buf (by omega), hl, List.drop_succ_cons, List.drop_succ_cons, List.drop_succ_cons]

theorem slice_behind_wrap {offset : Nat} {t hi lo : UInt8} {rest : Bytes}
    (hl : slice buf offset (len - offset) = t :: hi :: lo :: rest) :
    slice buf (offset + (bigEndian16 hi lo - 65533))
        (len - (offset + (bigEndian16 hi lo - 65533))) =
      (t :: hi :: lo :: rest).drop (bigEndian16 hi lo - 65533) := by
  have hn := slice_header_length hl
  have hL := bigEndian16_lt hi lo
  rw [slice_skip buf (by omega), hl]

theorem findFieldLoop_next {offset : Nat} {t hi lo : UInt8} {rest : Bytes} (hlen : len ≤ 65535)
    (hl : slice buf offset (len - offset) = t :: hi :: lo :: rest) (htag : t ≠ tag)
    (hall : bigEndian16 hi lo ≤ rest.length) :
    ∃ next, slice buf next (len - next) = rest.drop (bigEndian16 hi lo) ∧
      ∀ fuel, findFieldLoop buf len tag (fuel + 1) offset = findFieldLoop buf len tag fuel next := by
  have hn := slice_header_length hl
  refine ⟨offset + (bigEndian16 hi lo + 3), slice_behind_field hl hall, fun fuel ↦ ?_⟩
  rw [findFieldLoop_header fuel hlen hl, u16_of_lt (by omega), if_neg (by omega),
    if_neg htag, u16_of_lt (by omega), Nat.add_comm 3]

/-- A wrapped length moves the scan on by what is left of it. -/
theorem findFieldLoop_wrapped {offset : Nat} {t hi lo : UInt8} {rest : Bytes} (hlen : len ≤ 65535)
    (hl : slice buf offset (len - offset) = t :: hi :: lo :: rest) (htag : t ≠ tag)
    (hwrap : 65533 ≤ bigEndian16 hi lo) :
    ∃ next, slice buf next (len - next) =
        (t :: hi :: lo :: rest).drop (bigEndian16 hi lo - 65533) ∧
      ∀ fuel, findFieldLoop buf len tag (fuel + 1) offset = findFieldLoop buf len tag fuel next := by
  have hn := slice_header_length hl
  have hL := bigEndian16_lt hi lo
  refine ⟨offset + (bigEndian16 hi lo - 65533), slice_behind_wrap hl, fun fuel ↦ ?_⟩
  rw [findFieldLoop_header fuel hlen hl, u16_wrapped (by omega) hL, if_neg (by omega),
    if_neg htag, u16_of_lt (by omega)]

/-- A field with the tag is found when it is complete, and when its length wraps. -/
theorem findFieldLoop_found {offset : Nat} {hi lo : UInt8} {rest : Bytes} (fuel : Nat)
    (hlen : len ≤ 65535) (hl : slice buf offset (len - offset) = tag :: hi :: lo :: rest)
    (hall : bigEndian16 hi lo ≤ rest.length ∨ 65533 ≤ bigEndian16 hi lo) :
    findFieldLoop buf len tag (fuel + 1) offset =
      some (.ok { off := offset + 3, len := bigEndian16 hi lo }) := by
  have hn := slice_header_length hl
  have hL := bigEndian16_lt hi lo
  have hfits : ¬ len - offset < u16 (3 + bigEndian16 hi lo) := by
    by_cases hwrap : 65533 ≤ bigEndian16 hi lo
    · rw [u16_wrapped hwrap hL]
      omega
    · rw [u16_of_lt (by omega)]
      omega
  rw [findFieldLoop_header fuel hlen hl, if_neg hfits, if_pos rfl]

theorem stopsShort_of_malformed {fuel offset : Nat} (hlen : len ≤ 65535)
    (h : findFieldLoop buf len tag fuel offset = some (.error .errMalformed)) :
    StopsShort tag (slice buf offset (len - offset)) := by
  induction fuel generalizing offset with
  | zero => exact absurd h (by simp [findFieldLoop])
  | succ fuel ih =>
      rcases bytes_cases (slice buf offset (len - offset)) with
        hnil | ⟨hne, hshort⟩ | ⟨t, hi, lo, rest, hl⟩
      · have hn := congrArg List.length hnil
        rw [slice_length, List.length_nil] at hn
        rw [findFieldLoop_end fuel (by omega)] at h
        exact absurd h (by simp)
      · exact .header hne hshort
      by_cases hcut : rest.length < bigEndian16 hi lo ∧ bigEndian16 hi lo < 65533
      · rw [hl]
        exact .value hcut.1 hcut.2
      by_cases htag : t = tag
      · subst htag
        rw [findFieldLoop_found fuel hlen hl (by omega)] at h
        exact absurd h (by simp)
      by_cases hwrap : 65533 ≤ bigEndian16 hi lo
      · obtain ⟨next, hnext, hstep⟩ := findFieldLoop_wrapped hlen hl htag hwrap
        rw [hstep] at h
        have hrest := ih h
        rw [hnext] at hrest
        rw [hl]
        by_cases heq : bigEndian16 hi lo = 65533
        · -- a size of 0: the scan meets the same bytes again
          rwa [heq, Nat.sub_self, List.drop_zero] at hrest
        · exact .wrapped htag (by omega) hrest
      · obtain ⟨next, hnext, hstep⟩ := findFieldLoop_next hlen hl htag (by omega)
        rw [hstep] at h
        have hrest := ih h
        rw [hnext] at hrest
        rw [hl]
        exact .next htag (by omega) hrest

theorem malformed_of_stopsShort {offset : Nat} {l : Bytes} (hlen : len ≤ 65535)
    (hl : slice buf offset (len - offset) = l) (h : StopsShort tag l) :
    ∃ fuel, findFieldLoop buf len tag fuel offset = some (.error .errMalformed) := by
  -- induction on how the scan stops short
  induction h generalizing offset with
  | header hne hlt =>
      have hn := congrArg List.length hl
      rw [slice_length] at hn
      have hpos := List.length_pos_of_ne_nil hne
      exact ⟨1, findFieldLoop_short 0 (by omega) (by omega)⟩
  | @value t hi lo rest hcut hfit =>
      have hn := slice_header_length hl
      refine ⟨1, ?_⟩
      rw [findFieldLoop_header 0 hlen hl, u16_of_lt (by omega), if_pos (by omega)]
  | @next t hi lo rest htag hall _ ih =>
      obtain ⟨next, hrest, hstep⟩ := findFieldLoop_next hlen hl htag hall
      obtain ⟨fuel, hfuel⟩ := ih hrest
      exact ⟨fuel + 1, (hstep fuel).trans hfuel⟩
  | @wrapped t hi lo rest htag hwrap _ ih =>
      obtain ⟨next, hrest, hstep⟩ := findFieldLoop_wrapped hlen hl htag (Nat.le_of_lt hwrap)
      obtain ⟨fuel, hfuel⟩ := ih hrest
      exact ⟨fuel + 1, (hstep fuel).trans hfuel⟩

end Scan

/-- What the code should do on a buffer: return, with the result the grammar gives, and with a
    slice of the buffer where it returns one. -/
def FindFieldFollowsGrammar (buf : Mem) (len : Nat) (tag : UInt8) : Prop :=
  ∃ r, protocolFindField buf len tag = some r ∧
    (∀ v, (∃ f, r = .ok f ∧ slice buf f.off f.len = v) ↔ FirstField tag v (slice buf 0 len)) ∧
    (r = .error .errNotFound ↔ NoField tag (slice buf 0 len)) ∧
    (r = .error .errMalformed ↔
      (¬ ∃ v, FirstField tag v (slice buf 0 len)) ∧ ¬ NoField tag (slice buf 0 len)) ∧
    (∀ f, r = .ok f → f.off + f.len ≤ len)

/-- Every header the parse for `tag` reaches declares less than 65533 bytes, or it is of another tag
    and the scan resumed one or two bytes behind it happens to end at a cut-off field. -/
def WrapsStopShort (tag : UInt8) (bytes : Bytes) : Prop :=
  ∀ (pre : List Tlv) (t hi lo : UInt8) (rest : Bytes),
    bytes = tlvBytes pre ++ t :: hi :: lo :: rest → (∀ g ∈ pre, g.tag ≠ tag) →
    65533 ≤ bigEndian16 hi lo →
    t ≠ tag ∧ StopsShort tag ((t :: hi :: lo :: rest).drop (bigEndian16 hi lo - 65533))

section Grammar

variable {tag : UInt8} {bytes x : Bytes} {pre : List Tlv}

theorem firstField_iff (hx : bytes = tlvBytes pre ++ x) (hpre : ∀ g ∈ pre, g.tag ≠ tag)
    (hstop : Stops tag x) (v : Bytes) :
    FirstField tag v bytes ↔
      ∃ (f : Tlv) (rest : Bytes), f.tag = tag ∧ f.value = v ∧ x = f.bytes ++ rest := by
  constructor
  · -- the parse up to the stop is unique
    rintro ⟨pre', f, rest, hpre', htag, hv, hbytes⟩
    have hstop' : Stops tag (f.bytes ++ rest) := fun g s hg ↦
      (tlv_prefixFree.inj trivial trivial hg).1 ▸ htag
    exact ⟨f, rest, htag, hv,
      tlv_parse_unique (hx.symm.trans hbytes) hpre hpre' hstop hstop'⟩
  · rintro ⟨f, rest, htag, hv, rfl⟩
    exact ⟨pre, f, rest, hpre, htag, hv, hx⟩

theorem noField_iff (hx : bytes = tlvBytes pre ++ x) (hpre : ∀ g ∈ pre, g.tag ≠ tag)
    (hstop : Stops tag x) : NoField tag bytes ↔ x = [] := by
  constructor
  · rintro ⟨pre', hpre', hbytes⟩
    have hnil : Stops tag [] := fun g s hg ↦
      absurd (List.append_eq_nil_iff.mp hg.symm).1 (List.cons_ne_nil _ _)
    rw [← List.append_nil (tlvBytes pre')] at hbytes
    exact tlv_parse_unique (hx.symm.trans hbytes) hpre hpre' hstop hnil
  · rintro rfl
    exact ⟨pre, hpre, by rw [hx, List.append_nil]⟩

/-- A header that declares 65533 bytes or more is never complete in a 16-bit buffer, so the parse
    stops at it. -/
theorem stops_of_wrap {t hi lo : UInt8} {rest : Bytes} (hrest : rest.length < 65533)
    (hwrap : 65533 ≤ bigEndian16 hi lo) : ∀ f : Tlv, ∀ s, t :: hi :: lo :: rest ≠ f.bytes ++ s := by
  intro f s h
  have hlen := congrArg List.length h
  have hb := f.bytes_length
  rw [f.bytes_eq] at h
  simp only [List.cons_append, List.cons.injEq] at h
  have hL := bigEndian16_put f.length_lt
  rw [← h.2.1, ← h.2.2.1] at hL
  rw [List.length_append] at hlen
  simp only [List.length_cons] at hlen
  omega

theorem wrapsStopShort_iff (hbytes : bytes.length ≤ 65535) (hx : bytes = tlvBytes pre ++ x)
    (hpre : ∀ g ∈ pre, g.tag ≠ tag) (hstop : Stops tag x) :
    WrapsStopShort tag bytes ↔ ∀ t hi lo rest, x = t :: hi :: lo :: rest →
      65533 ≤ bigEndian16 hi lo →
      t ≠ tag ∧ StopsShort tag ((t :: hi :: lo :: rest).drop (bigEndian16 hi lo - 65533)) := by
  constructor
  · rintro h t hi lo rest rfl hwrap
    exact h pre t hi lo rest hx hpre hwrap
  · intro h pre' t hi lo rest hbytes' hpre' hwrap
    have hlen := congrArg List.length hbytes'
    rw [List.length_append] at hlen
    simp only [List.length_cons] at hlen
    have hno := stops_of_wrap (t := t) (show rest.length < 65533 by omega) hwrap
    have hstop' : Stops tag (t :: hi :: lo :: rest) := fun f s hf ↦ absurd hf (hno f s)
    exact h t hi lo rest (tlv_parse_unique (hx.symm.trans hbytes') hpre hpre' hstop hstop') hwrap

/-- Bytes that are no complete TLV stop the scan short exactly if no wrapped length misleads it. -/
theorem stopsShort_cut_iff (hne : x ≠ []) (hcut : ∀ f : Tlv, ∀ s, x ≠ f.bytes ++ s) :
    StopsShort tag x ↔ ∀ t hi lo rest, x = t :: hi :: lo :: rest → 65533 ≤ bigEndian16 hi lo →
      t ≠ tag ∧ StopsShort tag ((t :: hi :: lo :: rest).drop (bigEndian16 hi lo - 65533)) := by
  constructor
  · intro h t hi lo rest hx hwrap
    subst hx
    have hshort := cut_of_not_tlv hcut
    cases h with
    | header _ hlt =>
        simp only [List.length_cons] at hlt
        omega
    | value _ hfit => omega
    | next _ hall _ => omega
    | wrapped htag _ h => exact ⟨htag, h⟩
  · intro h
    rcases bytes_cases x with rfl | ⟨hne, hlt⟩ | ⟨t, hi, lo, rest, rfl⟩
    · exact absurd rfl hne
    · exact .header hne hlt
    have hshort := cut_of_not_tlv hcut
    by_cases hwrap : 65533 ≤ bigEndian16 hi lo
    · obtain ⟨htag, hrest⟩ := h t hi lo rest rfl hwrap
      by_cases heq : bigEndian16 hi lo = 65533
      · rwa [heq, Nat.sub_self, List.drop_zero] at hrest
      · exact .wrapped htag (by omega) hrest
    · exact .value hshort (by omega)

/-! ## 3. The scan follows the grammar exactly where no wrapped length misleads it -/

variable {buf : Mem} {len : Nat}

theorem findField_at_stop (hlen : len ≤ 65535) (hx : slice buf 0 len = tlvBytes pre ++ x)
    (hpre : ∀ g ∈ pre, g.tag ≠ tag) (fuel : Nat) :
    findFieldLoop buf len tag (fuel + pre.length) 0 =
        findFieldLoop buf len tag fuel (tlvBytes pre).length ∧
      (tlvBytes pre).length + x.length = len ∧
      slice buf (tlvBytes pre).length (len - (tlvBytes pre).length) = x := by
  have hn := congrArg List.length hx
  rw [slice_length, List.length_append] at hn
  have hdrop := slice_drop buf 0 (k := (tlvBytes pre).length) (n := len) (by omega)
  rw [hx, List.drop_left, Nat.zero_add] at hdrop
  have hx₀ : slice buf 0 (len - 0) = tlvBytes pre ++ x := by rw [Nat.sub_zero]; exact hx
  have hscan := findFieldLoop_pre fuel hlen hx₀ hpre
  rw [Nat.zero_add] at hscan
  exact ⟨hscan, hn.symm, hdrop.symm⟩

theorem followsGrammar_end (hlen : len ≤ 65535) (hx : slice buf 0 len = tlvBytes pre)
    (hpre : ∀ g ∈ pre, g.tag ≠ tag) : FindFieldFollowsGrammar buf len tag := by
  rw [← List.append_nil (tlvBytes pre)] at hx
  obtain ⟨hscan, hn, -⟩ := findField_at_stop hlen hx hpre 1
  have hstop : Stops tag [] := fun f s hf ↦
    absurd (List.append_eq_nil_iff.mp hf.symm).1 (List.cons_ne_nil _ _)
  have hfirst : ∀ v, ¬ FirstField tag v (slice buf 0 len) := by
    intro v hv
    obtain ⟨f, rest, -, -, hf⟩ := (firstField_iff hx hpre hstop v).mp hv
    exact List.cons_ne_nil _ _ (List.append_eq_nil_iff.mp hf.symm).1
  have hno : NoField tag (slice buf 0 len) := (noField_iff hx hpre hstop).mpr rfl
  rw [List.length_nil] at hn
  rw [findFieldLoop_end 0 (by omega)] at hscan
  refine ⟨.error .errNotFound, (protocolFindField_eq_some_iff hlen _).mpr ⟨_, hscan⟩, ?_, ?_, ?_, ?_⟩
  · exact fun v ↦ ⟨fun ⟨_, h, _⟩ ↦ absurd h (by simp), fun h ↦ absurd h (hfirst v)⟩
  · exact ⟨fun _ ↦ hno, fun _ ↦ rfl⟩
  · exact ⟨fun h ↦ absurd h (by simp), fun h ↦ absurd hno h.2⟩
  · exact fun f h ↦ absurd h (by simp)

theorem findField_found {f : Tlv} {rest : Bytes} (hlen : len ≤ 65535)
    (hx : slice buf 0 len = tlvBytes pre ++ (f.bytes ++ rest)) (hpre : ∀ g ∈ pre, g.tag ≠ tag)
    (htag : f.tag = tag) :
    protocolFindField buf len tag =
        some (.ok { off := (tlvBytes pre).length + 3, len := f.value.length }) ∧
      slice buf ((tlvBytes pre).length + 3) f.value.length = f.value ∧
      (tlvBytes pre).length + 3 + f.value.length ≤ len := by
  obtain ⟨hscan, hn, hat⟩ := findField_at_stop hlen hx hpre 1
  rw [findFieldLoop_tlv 0 hlen hat, if_pos htag] at hscan
  have hb := f.bytes_length
  rw [List.length_append] at hn
  exact ⟨(protocolFindField_eq_some_iff hlen _).mpr ⟨_, hscan⟩, (slice_tlv hat).1, by omega⟩

theorem followsGrammar_found {f : Tlv} {rest : Bytes} (hlen : len ≤ 65535)
    (hx : slice buf 0 len = tlvBytes pre ++ (f.bytes ++ rest)) (hpre : ∀ g ∈ pre, g.tag ≠ tag)
    (htag : f.tag = tag) : FindFieldFollowsGrammar buf len tag := by
  obtain ⟨hscan, hvalue, hin⟩ := findField_found hlen hx hpre htag
  have hstop : Stops tag (f.bytes ++ rest) := fun g s hg ↦
    (tlv_prefixFree.inj trivial trivial hg).1 ▸ htag
  have hfirst := fun v ↦ firstField_iff hx hpre hstop v
  have hno : ¬ NoField tag (slice buf 0 len) := fun h ↦
    List.cons_ne_nil _ _ (List.append_eq_nil_iff.mp ((noField_iff hx hpre hstop).mp h)).1
  refine ⟨_, hscan, ?_, ?_, ?_, ?_⟩
  · intro v
    rw [hfirst v]
    constructor
    · rintro ⟨g, hg, hv⟩
      cases hg
      exact ⟨f, rest, htag, hvalue.symm.trans hv, rfl⟩
    · rintro ⟨g, s, -, hv, hg⟩
      obtain ⟨rfl, -⟩ := tlv_prefixFree.inj trivial trivial hg
      exact ⟨_, rfl, hvalue.trans hv⟩
  · exact ⟨fun h ↦ absurd h (by simp), fun h ↦ absurd h hno⟩
  · exact ⟨fun h ↦ absurd h (by simp),
      fun h ↦ absurd ⟨f.value, (hfirst _).mpr ⟨f, rest, htag, rfl, rfl⟩⟩ h.1⟩
  · intro g hg
    cases hg
    exact hin

theorem followsGrammar_cut_iff (hlen : len ≤ 65535) (hx : slice buf 0 len = tlvBytes pre ++ x)
    (hpre : ∀ g ∈ pre, g.tag ≠ tag) (hne : x ≠ []) (hcut : ∀ f : Tlv, ∀ s, x ≠ f.bytes ++ s) :
    FindFieldFollowsGrammar buf len tag ↔ StopsShort tag x := by
  have hstop : Stops tag x := fun f s hf ↦ absurd hf (hcut f s)
  have hfirst : ¬ ∃ v, FirstField tag v (slice buf 0 len) := by
    rintro ⟨v, hv⟩
    obtain ⟨f, rest, -, -, hf⟩ := (firstField_iff hx hpre hstop v).mp hv
    exact hcut f rest hf
  have hno : ¬ NoField tag (slice buf 0 len) := fun h ↦ hne ((noField_iff hx hpre hstop).mp h)
  have hat := fun fuel ↦ findField_at_stop hlen hx hpre fuel
  constructor
  · -- neither a field nor the end: the grammar asks for MALFORMED
    rintro ⟨r, hr, -, -, hmal, -⟩
    obtain rfl := hmal.mpr ⟨hfirst, hno⟩
    obtain ⟨fuel, hfuel⟩ := (protocolFindField_eq_some_iff hlen _).mp hr
    have hscan := (hat fuel).1
    rw [findFieldLoop_mono hfuel] at hscan
    rw [← (hat fuel).2.2]
    exact stopsShort_of_malformed hlen hscan.symm
  · intro h
    obtain ⟨fuel, hfuel⟩ := malformed_of_stopsShort hlen (hat 0).2.2 h
    refine ⟨.error .errMalformed, (protocolFindField_eq_some_iff hlen _).mpr
      ⟨fuel + pre.length, by rw [(hat fuel).1, hfuel]⟩, ?_, ?_, ?_, ?_⟩
    · exact fun v ↦ ⟨fun ⟨_, h, _⟩ ↦ absurd h (by simp), fun h ↦ absurd ⟨v, h⟩ hfirst⟩
    · exact ⟨fun h ↦ absurd h (by simp), fun h ↦ absurd h hno⟩
    · exact ⟨fun _ ↦ ⟨hfirst, hno⟩, fun _ ↦ rfl⟩
    · exact fun f h ↦ absurd h (by simp)

end Grammar

theorem findField_followsGrammar_iff (buf : Mem) (len : Nat) (tag : UInt8)
    (hlen : len ≤ 65535) :
    FindFieldFollowsGrammar buf len tag ↔ WrapsStopShort tag (slice buf 0 len) := by
  obtain ⟨pre, x, hx, hpre, hstop⟩ := tlv_parse tag (slice buf 0 len)
  rw [wrapsStopShort_iff (by rw [slice_length]; exact hlen) hx hpre hstop]
  by_cases hnil : x = []
  · -- the end of the buffer
    subst hnil
    rw [List.append_nil] at hx
    exact ⟨fun _ t hi lo rest h ↦ absurd h.symm (List.cons_ne_nil _ _),
      fun _ ↦ followsGrammar_end hlen hx hpre⟩
  by_cases hcut : ∀ f : Tlv, ∀ s, x ≠ f.bytes ++ s
  · rw [followsGrammar_cut_iff hlen hx hpre hnil hcut, stopsShort_cut_iff hnil hcut]
  · -- a complete TLV with the searched tag
    simp only [not_forall, not_not] at hcut
    obtain ⟨f, s, rfl⟩ := hcut
    refine ⟨fun _ t hi lo rest h hwrap ↦ ?_, fun _ ↦
      followsGrammar_found hlen hx hpre (hstop f s rfl)⟩
    have hn := congrArg List.length hx
    rw [slice_length, List.length_append, h] at hn
    simp only [List.length_cons] at hn
    exact absurd h.symm (stops_of_wrap (by omega) hwrap f s)

-- two siblings, the second one searched
theorem findField_followsGrammar_sibling :
    FindFieldFollowsGrammar (ofList [0x20, 0x00, 0x01, 0x07, 0x21, 0x00, 0x00] 0) 7 0x21 := by
  apply (findField_followsGrammar_iff _ 7 0x21 (by decide)).mpr
  let ts : Tlv := { tag := 0x20, value := [0x07], length_lt := by decide }
  let low : Tlv := { tag := 0x21, value := [], length_lt := by decide }
  have hstop : Stops 0x21 low.bytes := by
    intro f s hf
    rw [← List.append_nil low.bytes] at hf
    rw [← (tlv_prefixFree.inj trivial trivial hf).1]
  have hx : slice (ofList [0x20, 0x00, 0x01, 0x07, 0x21, 0x00, 0x00] 0) 0 7 =
      tlvBytes [ts] ++ low.bytes := by decide
  apply (wrapsStopShort_iff (by decide) hx (by decide) hstop).mpr
  intro t hi lo rest hx hwrap
  rw [show low.bytes = [0x21, 0x00, 0x00] by decide] at hx
  simp only [List.cons.injEq] at hx
  rw [← hx.2.1, ← hx.2.2.1] at hwrap
  exact absurd hwrap (by decide)

/-- A field of another tag that declares 65533 bytes has a TLV size of 0 in 16 bits: the scan
    consumes nothing and never leaves it. -/
theorem findFieldLoop_hangs {buf : Mem} {len offset : Nat} {tag t hi lo : UInt8} {rest : Bytes}
    (hlen : len ≤ 65535) (h : slice buf offset (len - offset) = t :: hi :: lo :: rest)
    (htag : t ≠ tag) (hwrap : bigEndian16 hi lo = 65533) (fuel : Nat) :
    findFieldLoop buf len tag fuel offset = none := by
  have hn := slice_header_length h
  induction fuel with
  | zero => rfl
  | succ fuel ih =>
      rw [findFieldLoop_header fuel hlen h, hwrap, u16_wrapped (by decide) (by decide),
        if_neg (by omega), if_neg htag, Nat.sub_self, Nat.add_zero, u16_of_lt (by omega), ih]

theorem findField_not_total :
    ¬ FindFieldFollowsGrammar (ofList [0x20, 0xFF, 0xFD] 0) 3 0x21 := by
  have hbytes : slice (ofList [0x20, 0xFF, 0xFD] 0) 0 (3 - 0) = [(0x20 : UInt8), 0xFF, 0xFD] := rfl
  have hhangs : protocolFindField (ofList [0x20, 0xFF, 0xFD] 0) 3 0x21 = none :=
    findFieldLoop_hangs (by decide) hbytes (by decide) (by decide) 65536
  rintro ⟨r, hr, -⟩
  rw [hhangs] at hr
  exact absurd hr (by simp)

end SubmarineMonitor
