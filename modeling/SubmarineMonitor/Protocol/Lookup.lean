import SubmarineMonitor.Protocol.FieldAccess

/-!
# Lookup — the result of `Protocol_FindField`, read off the bytes

A lookup passes over fields of other tags until it comes to bytes at which it ends, or a header at
which it stays for ever.  Both are determined by the bytes of the buffer, so a lookup in two buffers
that agree on them has one result.
-/

open Reasoning

namespace SubmarineMonitor

/-! ## 1. The bytes a lookup comes to -/

inductive ComesTo (tag : UInt8) : Bytes → Bytes → Prop
  | here (l : Bytes) : ComesTo tag l l
  | next {t hi lo : UInt8} {rest x : Bytes} (htag : t ≠ tag)
      (hall : bigEndian16 hi lo ≤ rest.length) (h : ComesTo tag (rest.drop (bigEndian16 hi lo)) x) :
      ComesTo tag (t :: hi :: lo :: rest) x
  | wrapped {t hi lo : UInt8} {rest x : Bytes} (htag : t ≠ tag) (hwrap : 65533 < bigEndian16 hi lo)
      (h : ComesTo tag ((t :: hi :: lo :: rest).drop (bigEndian16 hi lo - 65533)) x) :
      ComesTo tag (t :: hi :: lo :: rest) x

inductive EndsAt (tag : UInt8) (len : Nat) : Bytes → Option (Except ProtoResult Field) → Prop
  | missing : EndsAt tag len [] (some (.error .errNotFound))
  | header {l : Bytes} (hne : l ≠ []) (hlt : l.length < 3) :
      EndsAt tag len l (some (.error .errMalformed))
  | value {t hi lo : UInt8} {rest : Bytes} (hcut : rest.length < bigEndian16 hi lo)
      (hfit : bigEndian16 hi lo < 65533) :
      EndsAt tag len (t :: hi :: lo :: rest) (some (.error .errMalformed))
  | found {hi lo : UInt8} {rest : Bytes}
      (hall : bigEndian16 hi lo ≤ rest.length ∨ 65533 ≤ bigEndian16 hi lo) :
      EndsAt tag len (tag :: hi :: lo :: rest)
        (some (.ok { off := len - rest.length, len := bigEndian16 hi lo }))
  | stays {t hi lo : UInt8} {rest : Bytes} (htag : t ≠ tag) (hstay : bigEndian16 hi lo = 65533) :
      EndsAt tag len (t :: hi :: lo :: rest) none

theorem endsAt_of_bytes (tag : UInt8) (len : Nat) (l : Bytes) :
    ∃ x r, ComesTo tag l x ∧ EndsAt tag len x r := by
  -- induction on the length: a field that is passed over leaves fewer bytes
  induction h : l.length using Nat.strong_induction_on generalizing l with
  | h n ih =>
      rcases bytes_cases l with rfl | ⟨hne, hlt⟩ | ⟨t, hi, lo, rest, rfl⟩
      · exact ⟨[], _, .here _, .missing⟩
      · exact ⟨l, _, .here _, .header hne hlt⟩
      simp only [List.length_cons] at h
      have hL := bigEndian16_lt hi lo
      by_cases htag : t = tag
      · subst htag
        by_cases hcut : rest.length < bigEndian16 hi lo ∧ bigEndian16 hi lo < 65533
        · exact ⟨_, _, .here _, .value hcut.1 hcut.2⟩
        · exact ⟨_, _, .here _, .found (by omega)⟩
      by_cases hall : bigEndian16 hi lo ≤ rest.length
      · obtain ⟨x, r, hx, hr⟩ := ih (rest.drop (bigEndian16 hi lo)).length
          (by rw [List.length_drop]; omega) _ rfl
        exact ⟨x, r, .next htag hall hx, hr⟩
      by_cases hfit : bigEndian16 hi lo < 65533
      · exact ⟨_, _, .here _, .value (by omega) hfit⟩
      by_cases hstay : bigEndian16 hi lo = 65533
      · exact ⟨_, _, .here _, .stays htag hstay⟩
      · obtain ⟨x, r, hx, hr⟩ := ih
          ((t :: hi :: lo :: rest).drop (bigEndian16 hi lo - 65533)).length
          (by rw [List.length_drop]; simp only [List.length_cons]; omega) _ rfl
        exact ⟨x, r, .wrapped htag (by omega) hx, hr⟩

/-! ## 2. The code comes to the same bytes -/

section Code

variable {buf : Mem} {len : Nat} {tag : UInt8}

theorem findFieldLoop_comesTo {offset : Nat} {l x : Bytes} (hlen : len ≤ 65535)
    (hl : slice buf offset (len - offset) = l) (h : ComesTo tag l x) :
    ∃ next k, slice buf next (len - next) = x ∧ ∀ fuel,
      findFieldLoop buf len tag (fuel + k) offset = findFieldLoop buf len tag fuel next := by
  induction h generalizing offset with
  | here l => exact ⟨offset, 0, hl, fun fuel ↦ rfl⟩
  | @next t hi lo rest x htag hall _ ih =>
      obtain ⟨mid, hmid, hstep⟩ := findFieldLoop_next hlen hl htag hall
      obtain ⟨next, k, hnext, hscan⟩ := ih hmid
      exact ⟨next, k + 1, hnext, fun fuel ↦ (hstep (fuel + k)).trans (hscan fuel)⟩
  | @wrapped t hi lo rest x htag hwrap _ ih =>
      obtain ⟨mid, hmid, hstep⟩ := findFieldLoop_wrapped hlen hl htag (Nat.le_of_lt hwrap)
      obtain ⟨next, k, hnext, hscan⟩ := ih hmid
      exact ⟨next, k + 1, hnext, fun fuel ↦ (hstep (fuel + k)).trans (hscan fuel)⟩

theorem findFieldLoop_endsAt {offset : Nat} {x : Bytes} {r : Option (Except ProtoResult Field)}
    (hlen : len ≤ 65535) (hx : slice buf offset (len - offset) = x) (h : EndsAt tag len x r)
    (fuel : Nat) : findFieldLoop buf len tag (fuel + 1) offset = r := by
  have hn := congrArg List.length hx
  rw [slice_length] at hn
  cases h with
  | missing =>
      rw [List.length_nil] at hn
      exact findFieldLoop_end fuel (by omega)
  | header hne hlt =>
      have hpos := List.length_pos_of_ne_nil hne
      exact findFieldLoop_short fuel (by omega) (by omega)
  | @value t hi lo rest hcut hfit =>
      simp only [List.length_cons] at hn
      rw [findFieldLoop_header fuel hlen hx, u16_of_lt (by omega), if_pos (by omega)]
  | @found hi lo rest hall =>
      simp only [List.length_cons] at hn
      rw [findFieldLoop_found fuel hlen hx hall, show offset + 3 = len - rest.length by omega]
  | stays htag hstay => exact findFieldLoop_hangs hlen hx htag hstay (fuel + 1)

theorem findField_of_endsAt {x : Bytes} {r : Option (Except ProtoResult Field)}
    (hlen : len ≤ 65535) (h : ComesTo tag (slice buf 0 len) x) (hx : EndsAt tag len x r) :
    protocolFindField buf len tag = r := by
  obtain ⟨next, k, hnext, hscan⟩ := findFieldLoop_comesTo hlen (by rw [Nat.sub_zero]) h
  have hloop := fun fuel ↦
    (hscan (fuel + 1)).trans (findFieldLoop_endsAt hlen hnext hx fuel)
  cases r with
  | some r => exact (protocolFindField_eq_some_iff hlen r).mpr ⟨_, hloop 0⟩
  | none =>
      apply (protocolFindField_eq_none_iff hlen).mpr
      intro fuel
      -- more fuel does not help, so less does not either
      cases hfuel : findFieldLoop buf len tag fuel 0 with
      | none => rfl
      | some r =>
          have hmore := findFieldLoop_mono hfuel (1 + k)
          rw [show fuel + (1 + k) = fuel + 1 + k by omega, hloop fuel] at hmore
          exact absurd hmore (by simp)

theorem findField_endsAt (buf : Mem) (tag : UInt8) (hlen : len ≤ 65535) :
    ∃ x, ComesTo tag (slice buf 0 len) x ∧ EndsAt tag len x (protocolFindField buf len tag) := by
  obtain ⟨x, r, hcomes, hends⟩ := endsAt_of_bytes tag len (slice buf 0 len)
  exact ⟨x, hcomes, by rwa [findField_of_endsAt hlen hcomes hends]⟩

/-- A lookup does not return exactly if it comes to a field of another tag that declares 65533
    bytes. -/
theorem findField_none_iff (hlen : len ≤ 65535) :
    protocolFindField buf len tag = none ↔ ∃ t hi lo rest,
      ComesTo tag (slice buf 0 len) (t :: hi :: lo :: rest) ∧ t ≠ tag ∧ bigEndian16 hi lo = 65533 := by
  constructor
  · intro hnone
    obtain ⟨x, hcomes, hends⟩ := findField_endsAt buf tag hlen
    rw [hnone] at hends
    cases hends with
    | stays htag hstay => exact ⟨_, _, _, _, hcomes, htag, hstay⟩
  · rintro ⟨t, hi, lo, rest, hcomes, htag, hstay⟩
    exact findField_of_endsAt hlen hcomes (.stays htag hstay)

/-- A lookup finds a field exactly if it comes to one with the tag that is complete, or that declares
    65533 bytes or more. -/
theorem findField_ok_iff (hlen : len ≤ 65535) (f : Field) :
    protocolFindField buf len tag = some (.ok f) ↔ ∃ hi lo rest,
      ComesTo tag (slice buf 0 len) (tag :: hi :: lo :: rest) ∧
        (bigEndian16 hi lo ≤ rest.length ∨ 65533 ≤ bigEndian16 hi lo) ∧
        f = { off := len - rest.length, len := bigEndian16 hi lo } := by
  constructor
  · intro hok
    obtain ⟨x, hcomes, hends⟩ := findField_endsAt buf tag hlen
    rw [hok] at hends
    cases hends with
    | found hall => exact ⟨_, _, _, hcomes, hall, rfl⟩
  · rintro ⟨hi, lo, rest, hcomes, hall, rfl⟩
    exact findField_of_endsAt hlen hcomes (.found hall)

theorem slice_of_found {hi lo : UInt8} {rest : Bytes} (hlen : len ≤ 65535)
    (h : ComesTo tag (slice buf 0 len) (tag :: hi :: lo :: rest)) :
    rest.length + 3 ≤ len ∧ slice buf (len - rest.length) rest.length = rest := by
  obtain ⟨next, k, hnext, -⟩ := findFieldLoop_comesTo hlen (by rw [Nat.sub_zero]) h
  have hn := slice_header_length hnext
  have hskip := slice_skip buf (show next + 3 ≤ len by omega)
  rw [hnext, show next + 3 = len - rest.length by omega, Nat.sub_sub_self (by omega)] at hskip
  exact ⟨by omega, hskip⟩

theorem readField_isSome_iff {α : Type} {init : α} {read : Mem → α} :
    (readField buf len tag init read).isSome ↔ protocolFindField buf len tag ≠ none := by
  rw [readField]
  cases protocolFindField buf len tag with
  | none => exact ⟨fun h ↦ absurd h (by simp), fun h ↦ absurd rfl h⟩
  | some r =>
      cases r with
      | error e => exact ⟨fun _ ↦ by simp, fun _ ↦ rfl⟩
      | ok f => exact ⟨fun _ ↦ by simp, fun _ ↦ rfl⟩

end Code

/-- A lookup of `tag` in these bytes comes to no field of another tag that declares 65533 bytes. -/
def LookupReturns (tag : UInt8) (bytes : Bytes) : Prop :=
  ∀ t hi lo rest, ComesTo tag bytes (t :: hi :: lo :: rest) → t ≠ tag → bigEndian16 hi lo ≠ 65533

theorem findField_returns_iff {buf : Mem} {len : Nat} {tag : UInt8} (hlen : len ≤ 65535) :
    protocolFindField buf len tag ≠ none ↔ LookupReturns tag (slice buf 0 len) := by
  rw [Ne, findField_none_iff hlen]
  constructor
  · exact fun h t hi lo rest hcomes htag hstay ↦ h ⟨t, hi, lo, rest, hcomes, htag, hstay⟩
  · rintro h ⟨t, hi, lo, rest, hcomes, htag, hstay⟩
    exact h t hi lo rest hcomes htag hstay

/-- Complete TLVs declare no such length. -/
theorem lookupReturns_tlvBytes (tag : UInt8) {fs : List Tlv} (h : (tlvBytes fs).length ≤ 65535) :
    LookupReturns tag (tlvBytes fs) := by
  intro t hi lo rest hcomes htag hstay
  generalize hl : tlvBytes fs = l at hcomes
  generalize hx : t :: hi :: lo :: rest = x at hcomes
  -- the header of the first TLV, whatever the lookup makes of it
  have hfirst : ∀ {fs : List Tlv} {t hi lo : UInt8} {rest : Bytes},
      (tlvBytes fs).length ≤ 65535 → tlvBytes fs = t :: hi :: lo :: rest →
      bigEndian16 hi lo ≤ 65532 ∧
        ∃ fs', tlvBytes fs' = rest.drop (bigEndian16 hi lo) := by
    intro fs t hi lo rest hle hfs
    cases fs with
    | nil => exact absurd hfs.symm (List.cons_ne_nil _ _)
    | cons f fs =>
        have hb := f.bytes_length
        rw [tlvBytes_cons, List.length_append] at hle
        rw [tlvBytes_cons, f.bytes_eq] at hfs
        simp only [List.cons_append, List.cons.injEq] at hfs
        obtain ⟨-, rfl, rfl, rfl⟩ := hfs
        rw [bigEndian16_put f.length_lt, List.drop_left]
        exact ⟨by omega, fs, rfl⟩
  induction hcomes generalizing fs with
  | here l =>
      have hle := (hfirst h (hl.trans hx.symm)).1
      omega
  | next _ hall _ ih =>
      obtain ⟨-, fs', hfs'⟩ := hfirst h hl
      refine @ih fs' ?_ hfs' hx
      rw [hl] at h
      rw [hfs', List.length_drop]
      simp only [List.length_cons] at h
      omega
  | wrapped _ hwrap _ _ =>
      have hle := (hfirst h hl).1
      omega

end SubmarineMonitor
