import SubmarineMonitor.Protocol.Lookup

/-!
# PartialLookup — a lookup in a value that is there only in part

A value may declare more bytes than there are.  A lookup in it that reads no header behind the bytes
that are there has the result these bytes determine (`findField_within_congr`), and the headers that
the code reads are all among them exactly if no bytes the lookup comes to lead it out
(`headersRead_inside_iff`).
-/

open Reasoning

namespace SubmarineMonitor

/-! ## 1. Definitions -/

/-- With `gap` bytes missing behind these, the lookup reads a header that is not all there: this one,
    or the one behind a field that runs over the end. -/
inductive Leaves (tag : UInt8) (gap : Nat) : Bytes → Prop
  | header {x : Bytes} (hlt : x.length < 3) (hmore : 3 ≤ x.length + gap) : Leaves tag gap x
  | jump {t hi lo : UInt8} {rest : Bytes} (htag : t ≠ tag) (hcut : rest.length < bigEndian16 hi lo)
      (hmore : bigEndian16 hi lo + 3 ≤ rest.length + gap) : Leaves tag gap (t :: hi :: lo :: rest)

def StaysWithin (tag : UInt8) (gap : Nat) (l : Bytes) : Prop :=
  ∀ x, ComesTo tag l x → ¬ Leaves tag gap x

/-- The offsets of the headers that the loop of `Protocol_FindField` reads. -/
def headersRead (buf : Mem) (len : Nat) (tag : UInt8) : Nat → Nat → List Nat
  | 0, _ => []
  | fuel + 1, offset =>
      if offset < len then
        -- with fewer than three bytes left `Protocol_DecodeTLV` reads nothing
        if u16 (len - offset) < 3 then []
        else offset ::
          match protocolDecodeTLV (advance buf offset) (u16 (len - offset)) with
          | .error _ => []
          | .ok cur =>
              if cur.tag = tag then []
              else headersRead buf len tag fuel (u16 (offset + cur.consumed))
      else []

/-! ## 2. The bytes a lookup comes to -/

section Bytes

variable {tag : UInt8} {l tail tail' x y : Bytes}

theorem ComesTo.length_le (h : ComesTo tag l x) : x.length ≤ l.length := by
  induction h with
  | here l => exact Nat.le_refl _
  | next _ _ _ ih =>
      rw [List.length_drop] at ih
      simp only [List.length_cons]
      omega
  | wrapped _ _ _ ih =>
      rw [List.length_drop] at ih
      omega

theorem ComesTo.trans (h : ComesTo tag l x) (hnext : ComesTo tag x y) : ComesTo tag l y := by
  induction h with
  | here l => exact hnext
  | next htag hall _ ih => exact .next htag hall (ih hnext)
  | wrapped htag hwrap _ ih => exact .wrapped htag hwrap (ih hnext)

theorem ComesTo.append (h : ComesTo tag l x) (tail : Bytes) :
    ComesTo tag (l ++ tail) (x ++ tail) := by
  induction h with
  | here l => exact .here _
  | @next t hi lo rest x htag hall _ ih =>
      apply ComesTo.next htag
      · rw [List.append_eq, List.length_append]
        omega
      · rwa [List.append_eq, List.drop_append_of_le_length hall]
  | @wrapped t hi lo rest x htag hwrap _ ih =>
      have hL := bigEndian16_lt hi lo
      apply ComesTo.wrapped htag hwrap
      rwa [List.append_eq, ← List.cons_append, ← List.cons_append, ← List.cons_append,
        List.drop_append_of_le_length (by simp only [List.length_cons]; omega)]

/-- A header that is all there is one of the first bytes. -/
theorem header_of_append {t hi lo : UInt8} {rest' : Bytes} (h : l ++ tail = t :: hi :: lo :: rest')
    (hge : 3 ≤ l.length) : ∃ rest, l = t :: hi :: lo :: rest ∧ rest' = rest ++ tail := by
  rcases bytes_cases l with rfl | ⟨-, hlt⟩ | ⟨t', hi', lo', rest, rfl⟩
  · exact absurd hge (by decide)
  · omega
  · simp only [List.cons_append, List.cons.injEq] at h
    obtain ⟨rfl, rfl, rfl, rfl⟩ := h
    exact ⟨rest, rfl, rfl⟩

/-- While it stays within `l`, a lookup does the same whatever comes behind `l`. -/
theorem comesTo_within (hlen : (l ++ tail).length ≤ 65535) (htail : tail'.length = tail.length)
    (hstay : StaysWithin tag tail.length l) (h : ComesTo tag (l ++ tail) y) :
    ∃ y', ComesTo tag (l ++ tail') y' ∧ y'.length = y.length ∧
      (3 ≤ y.length → ∃ x, ComesTo tag l x ∧ 3 ≤ x.length ∧ y = x ++ tail ∧ y' = x ++ tail') := by
  have hthree : ∀ {l tail : Bytes}, StaysWithin tag tail.length l → 3 ≤ (l ++ tail).length →
      3 ≤ l.length := by
    intro l tail hstay hn
    rw [List.length_append] at hn
    by_contra hlt
    exact hstay l (.here l) (.header (by omega) hn)
  generalize hb : l ++ tail = b at h
  induction h generalizing l tail tail' with
  | here b =>
      subst hb
      refine ⟨l ++ tail', .here _, by rw [List.length_append, List.length_append, htail],
        fun hn ↦ ⟨l, .here l, hthree hstay hn, rfl, rfl⟩⟩
  | @next t hi lo rest' y htag hall _ ih =>
      obtain ⟨rest, rfl, rfl⟩ := header_of_append hb (hthree hstay (by rw [hb]; simp))
      rw [List.length_append] at hall
      simp only [List.cons_append, List.length_cons, List.length_append] at hlen
      by_cases hin : bigEndian16 hi lo ≤ rest.length
      · obtain ⟨y', hy', hly, hx⟩ := ih
          (by rw [List.length_append, List.length_drop]; omega) htail
          (fun x hx ↦ hstay x (.next htag hin hx)) (List.drop_append_of_le_length hin).symm
        refine ⟨y', .next htag (by simp only [List.append_eq, List.length_append]; omega) ?_, hly,
          fun hn ↦ ?_⟩
        · rwa [List.append_eq, List.drop_append_of_le_length hin]
        · obtain ⟨x, hcomes, hge, hxy, hxy'⟩ := hx hn
          exact ⟨x, .next htag hin hcomes, hge, hxy, hxy'⟩
      -- the field runs over the end of `l`: fewer than three bytes may follow it
      · have hdrop : ∀ s : Bytes, (rest ++ s).drop (bigEndian16 hi lo) =
            [] ++ s.drop (bigEndian16 hi lo - rest.length) := by
          intro s
          rw [List.drop_append, List.drop_eq_nil_of_le (by omega)]
        have hjump : ¬ bigEndian16 hi lo + 3 ≤ rest.length + tail.length := fun hmore ↦
          hstay _ (.here _) (.jump htag (by omega) hmore)
        obtain ⟨y', hy', hly, hx⟩ := ih
          (by rw [← hdrop, List.length_drop, List.length_append]; omega)
          (show (tail'.drop (bigEndian16 hi lo - rest.length)).length =
            (tail.drop (bigEndian16 hi lo - rest.length)).length by
              rw [List.length_drop, List.length_drop, htail])
          (by
            rintro x ⟨⟩ ⟨-, hmore⟩
            rw [List.length_nil, List.length_drop] at hmore
            omega)
          (hdrop tail).symm
        refine ⟨y', .next htag (by simp only [List.append_eq, List.length_append]; omega) ?_, hly,
          fun hn ↦ ?_⟩
        · rwa [List.append_eq, hdrop]
        · obtain ⟨x, ⟨⟩, hge, -⟩ := hx hn
          exact absurd hge (by decide)
  | @wrapped t hi lo rest' y htag hwrap _ ih =>
      have hL := bigEndian16_lt hi lo
      obtain ⟨rest, rfl, rfl⟩ := header_of_append hb (hthree hstay (by rw [hb]; simp))
      have hdrop : ∀ s : Bytes, (t :: hi :: lo :: (rest ++ s)).drop (bigEndian16 hi lo - 65533) =
          (t :: hi :: lo :: rest).drop (bigEndian16 hi lo - 65533) ++ s := by
        intro s
        rw [← List.drop_append_of_le_length (by simp only [List.length_cons]; omega)]
        rfl
      simp only [List.cons_append, List.length_cons, List.length_append] at hlen
      obtain ⟨y', hy', hly, hx⟩ := ih
        (by rw [← hdrop, List.length_drop]; simp only [List.length_cons, List.length_append]; omega)
        htail (fun x hx ↦ hstay x (.wrapped htag hwrap hx)) (hdrop tail).symm
      refine ⟨y', .wrapped htag hwrap ?_, hly, fun hn ↦ ?_⟩
      · rwa [List.append_eq, hdrop]
      · obtain ⟨x, hcomes, hge, hxy, hxy'⟩ := hx hn
        exact ⟨x, .wrapped htag hwrap hcomes, hge, hxy, hxy'⟩

end Bytes

/-! ## 3. Lookups -/

theorem EndsAt.of_header {tag : UInt8} {len : Nat} {y y' : Bytes}
    {r : Option (Except ProtoResult Field)} (h : EndsAt tag len y r) (hly : y'.length = y.length)
    (hhead : 3 ≤ y.length → y'.take 3 = y.take 3) : EndsAt tag len y' r := by
  have hcons : ∀ {t hi lo : UInt8} {rest : Bytes}, y = t :: hi :: lo :: rest →
      ∃ rest', y' = t :: hi :: lo :: rest' ∧ rest'.length = rest.length := by
    rintro t hi lo rest rfl
    have htake := hhead (by simp)
    rcases bytes_cases y' with rfl | ⟨-, hlt⟩ | ⟨t', hi', lo', rest', rfl⟩
    · exact absurd hly (by simp)
    · simp only [List.length_cons] at hly
      omega
    · simp only [List.take_succ_cons, List.take_zero, List.cons.injEq, and_true] at htake
      simp only [List.length_cons] at hly
      obtain ⟨rfl, rfl, rfl⟩ := htake
      exact ⟨rest', rfl, by omega⟩
  cases h with
  | missing =>
      rw [List.eq_nil_of_length_eq_zero hly]
      exact .missing
  | header hne hlt =>
      have hpos := List.length_pos_of_ne_nil hne
      exact .header (List.ne_nil_of_length_pos (by omega)) (by omega)
  | value hcut hfit =>
      obtain ⟨rest', rfl, hrest⟩ := hcons rfl
      exact .value (by omega) hfit
  | found hall =>
      obtain ⟨rest', rfl, hrest⟩ := hcons rfl
      rw [← hrest] at hall ⊢
      exact .found hall
  | stays htag hstay =>
      obtain ⟨rest', rfl, -⟩ := hcons rfl
      exact .stays htag hstay

section Lookup

variable {buf buf' : Mem} {len : Nat} {tag : UInt8} {l : Bytes}

/-- The value is the bytes that are there and whatever lies behind them. -/
theorem slice_front (hle : l.length ≤ len) (hl : slice buf 0 l.length = l) :
    slice buf 0 len = l ++ slice buf l.length (len - l.length) := by
  have hadd := slice_add buf 0 l.length (len - l.length)
  rwa [hl, Nat.zero_add, Nat.add_sub_cancel' hle] at hadd

theorem findField_within_congr (hlen : len ≤ 65535) (hle : l.length ≤ len)
    (hl : slice buf 0 l.length = l) (hl' : slice buf' 0 l.length = l)
    (hstay : StaysWithin tag (len - l.length) l) :
    protocolFindField buf len tag = protocolFindField buf' len tag := by
  obtain ⟨y, hcomes, hends⟩ := findField_endsAt buf tag hlen
  rw [slice_front hle hl] at hcomes
  obtain ⟨y', hy', hly, hx⟩ := @comesTo_within tag l _ (slice buf' l.length (len - l.length)) y
    (by rw [← slice_front hle hl, slice_length]; exact hlen)
    (by rw [slice_length, slice_length]) (by rwa [slice_length]) hcomes
  rw [← slice_front hle hl'] at hy'
  refine (findField_of_endsAt hlen hy' (hends.of_header hly fun hn ↦ ?_)).symm
  obtain ⟨x, -, hge, rfl, rfl⟩ := hx hn
  rw [List.take_append_of_le_length hge, List.take_append_of_le_length hge]

/-- The headers a lookup comes to within the bytes that are there. -/
theorem comesTo_slice_iff (hlen : len ≤ 65535) (hle : l.length ≤ len)
    (hl : slice buf 0 l.length = l) (hstay : StaysWithin tag (len - l.length) l) {t hi lo : UInt8}
    {rest' : Bytes} :
    ComesTo tag (slice buf 0 len) (t :: hi :: lo :: rest') ↔ ∃ rest,
      ComesTo tag l (t :: hi :: lo :: rest) ∧
        rest' = rest ++ slice buf l.length (len - l.length) := by
  rw [slice_front hle hl]
  constructor
  · intro hcomes
    obtain ⟨y', -, -, hx⟩ := comesTo_within
      (by rw [← slice_front hle hl, slice_length]; exact hlen) rfl (by rwa [slice_length]) hcomes
    obtain ⟨x, hcomes', hge, hxy, -⟩ := hx (by simp)
    obtain ⟨rest, rfl, hrest⟩ := header_of_append hxy.symm hge
    exact ⟨rest, hcomes', hrest⟩
  · rintro ⟨rest, hcomes, rfl⟩
    exact hcomes.append _

theorem findField_within_iff (hlen : len ≤ 65535) (hle : l.length ≤ len)
    (hl : slice buf 0 l.length = l) (hstay : StaysWithin tag (len - l.length) l) (f : Field) :
    protocolFindField buf len tag = some (.ok f) ↔ ∃ hi lo rest,
      ComesTo tag l (tag :: hi :: lo :: rest) ∧
        (bigEndian16 hi lo ≤ rest.length + (len - l.length) ∨ 65533 ≤ bigEndian16 hi lo) ∧
        f = { off := l.length - rest.length, len := bigEndian16 hi lo } := by
  rw [findField_ok_iff hlen]
  have hoff : ∀ rest : Bytes, len - (rest ++ slice buf l.length (len - l.length)).length =
      l.length - rest.length := by
    intro rest
    rw [List.length_append, slice_length]
    omega
  constructor
  · rintro ⟨hi, lo, rest', hcomes, hall, rfl⟩
    obtain ⟨rest, hcomes', rfl⟩ := (comesTo_slice_iff hlen hle hl hstay).mp hcomes
    rw [hoff]
    rw [List.length_append, slice_length] at hall
    exact ⟨hi, lo, rest, hcomes', hall, rfl⟩
  · rintro ⟨hi, lo, rest, hcomes, hall, rfl⟩
    refine ⟨hi, lo, _, (comesTo_slice_iff hlen hle hl hstay).mpr ⟨rest, hcomes, rfl⟩, ?_, ?_⟩
    · rwa [List.length_append, slice_length]
    · rw [hoff]

theorem findField_returns_within_iff (hlen : len ≤ 65535) (hle : l.length ≤ len)
    (hl : slice buf 0 l.length = l) (hstay : StaysWithin tag (len - l.length) l) :
    protocolFindField buf len tag ≠ none ↔ LookupReturns tag l := by
  rw [findField_returns_iff hlen]
  constructor
  · intro h t hi lo rest hcomes
    exact h t hi lo _ ((comesTo_slice_iff hlen hle hl hstay).mpr ⟨rest, hcomes, rfl⟩)
  · intro h t hi lo rest' hcomes
    obtain ⟨rest, hcomes', -⟩ := (comesTo_slice_iff hlen hle hl hstay).mp hcomes
    exact h t hi lo rest hcomes'

end Lookup

/-! ## 4. The headers that are read -/

section Headers

variable {buf : Mem} {len : Nat} {tag : UInt8} {l : Bytes}

theorem headersRead_header {offset : Nat} {t hi lo : UInt8} {rest : Bytes} (fuel : Nat)
    (hlen : len ≤ 65535) (h : slice buf offset (len - offset) = t :: hi :: lo :: rest) :
    headersRead buf len tag (fuel + 1) offset = offset ::
      if len - offset < u16 (3 + bigEndian16 hi lo) then []
      else if t = tag then []
      else headersRead buf len tag fuel (u16 (offset + u16 (3 + bigEndian16 hi lo))) := by
  have hn := slice_header_length h
  have hcur : slice (advance buf offset) 0 (len - offset) = t :: hi :: lo :: rest := by
    rw [slice_advance]
    exact h
  rw [headersRead, if_pos (by omega), u16_of_lt (show len - offset < 65536 by omega),
    if_neg (by omega), decodeTLV_header hcur]
  by_cases hcut : len - offset < u16 (3 + bigEndian16 hi lo)
  · rw [if_pos hcut, if_pos hcut]
  · rw [if_neg hcut, if_neg hcut]

theorem headersRead_next {offset : Nat} {t hi lo : UInt8} {rest : Bytes} (fuel : Nat)
    (hlen : len ≤ 65535) (hl : slice buf offset (len - offset) = t :: hi :: lo :: rest)
    (htag : t ≠ tag) (hall : bigEndian16 hi lo ≤ rest.length) :
    headersRead buf len tag (fuel + 1) offset =
        offset :: headersRead buf len tag fuel (offset + (bigEndian16 hi lo + 3)) ∧
      slice buf (offset + (bigEndian16 hi lo + 3)) (len - (offset + (bigEndian16 hi lo + 3))) =
        rest.drop (bigEndian16 hi lo) := by
  have hn := slice_header_length hl
  refine ⟨?_, slice_behind_field hl hall⟩
  rw [headersRead_header fuel hlen hl, u16_of_lt (by omega), if_neg (by omega), if_neg htag,
    u16_of_lt (by omega), Nat.add_comm 3]

/-- So it does where a length wraps, up to two bytes further. -/
theorem headersRead_wrapped {offset : Nat} {t hi lo : UInt8} {rest : Bytes} (fuel : Nat)
    (hlen : len ≤ 65535) (hl : slice buf offset (len - offset) = t :: hi :: lo :: rest)
    (htag : t ≠ tag) (hwrap : 65533 ≤ bigEndian16 hi lo) :
    headersRead buf len tag (fuel + 1) offset =
        offset :: headersRead buf len tag fuel (offset + (bigEndian16 hi lo - 65533)) ∧
      slice buf (offset + (bigEndian16 hi lo - 65533))
          (len - (offset + (bigEndian16 hi lo - 65533))) =
        (t :: hi :: lo :: rest).drop (bigEndian16 hi lo - 65533) := by
  have hn := slice_header_length hl
  have hL := bigEndian16_lt hi lo
  refine ⟨?_, slice_behind_wrap hl⟩
  rw [headersRead_header fuel hlen hl, u16_wrapped hwrap hL, if_neg (by omega), if_neg htag,
    u16_of_lt (by omega)]

theorem comesTo_of_headersRead {fuel offset p : Nat} (hlen : len ≤ 65535)
    (h : p ∈ headersRead buf len tag fuel offset) :
    ∃ y, ComesTo tag (slice buf offset (len - offset)) y ∧ 3 ≤ y.length ∧ p + y.length = len := by
  induction fuel generalizing offset with
  | zero => exact absurd h List.not_mem_nil
  | succ fuel ih =>
      by_cases hend : len - offset < 3
      · rw [headersRead, u16_of_lt (by omega), if_pos hend, ite_self] at h
        exact absurd h List.not_mem_nil
      have hn := slice_length buf offset (len - offset)
      rcases bytes_cases (slice buf offset (len - offset)) with hnil | ⟨-, hlt⟩ | ⟨t, hi, lo, rest, hl⟩
      · rw [hnil, List.length_nil] at hn
        omega
      · omega
      by_cases hfirst : p = offset
      · exact ⟨_, .here _, by omega, by omega⟩
      rw [hl] at hn ⊢
      simp only [List.length_cons] at hn
      by_cases htag : t = tag
      · rw [headersRead_header fuel hlen hl, if_pos htag, ite_self] at h
        exact absurd (List.mem_singleton.mp h) hfirst
      -- the loop goes on behind a complete field, or behind a wrapped length
      by_cases hwrap : 65533 ≤ bigEndian16 hi lo
      · obtain ⟨hread, hnext⟩ := headersRead_wrapped fuel hlen hl htag hwrap
        rw [hread] at h
        obtain ⟨y, hcomes, hge, hp⟩ := ih (List.mem_of_ne_of_mem hfirst h)
        rw [hnext] at hcomes
        by_cases hstay : bigEndian16 hi lo = 65533
        · rw [hstay] at hcomes
          exact ⟨y, hcomes, hge, hp⟩
        · exact ⟨y, .wrapped htag (by omega) hcomes, hge, hp⟩
      by_cases hall : bigEndian16 hi lo ≤ rest.length
      · obtain ⟨hread, hnext⟩ := headersRead_next fuel hlen hl htag hall
        rw [hread] at h
        obtain ⟨y, hcomes, hge, hp⟩ := ih (List.mem_of_ne_of_mem hfirst h)
        rw [hnext] at hcomes
        exact ⟨y, .next htag hall hcomes, hge, hp⟩
      · rw [headersRead_header fuel hlen hl, u16_of_lt (by omega), if_pos (by omega)] at h
        exact absurd (List.mem_singleton.mp h) hfirst

theorem headersRead_of_comesTo {fuel offset : Nat} {b y : Bytes} (hlen : len ≤ 65535)
    (hb : slice buf offset (len - offset) = b) (h : ComesTo tag b y) (hge : 3 ≤ y.length)
    (hfuel : len - y.length - offset < fuel) :
    len - y.length ∈ headersRead buf len tag fuel offset := by
  have hn := congrArg List.length hb
  rw [slice_length] at hn
  obtain ⟨fuel, rfl⟩ := Nat.exists_eq_add_of_lt (Nat.zero_lt_of_lt hfuel)
  rw [Nat.zero_add] at hfuel ⊢
  induction h generalizing fuel offset with
  | here b =>
      rcases bytes_cases b with rfl | ⟨-, hlt⟩ | ⟨t, hi, lo, rest, rfl⟩
      · exact absurd hge (by decide)
      · omega
      rw [headersRead_header fuel hlen hb, show len - (t :: hi :: lo :: rest).length = offset by omega]
      exact List.mem_cons_self
  | @next t hi lo rest y htag hall hcomes ih =>
      obtain ⟨hread, hnext⟩ := headersRead_next fuel hlen hb htag hall
      have hle := hcomes.length_le
      simp only [List.length_cons] at hn
      rw [List.length_drop] at hle
      cases fuel with
      | zero => omega
      | succ fuel =>
          rw [hread]
          exact List.mem_cons_of_mem _ (ih hnext hge (by rw [List.length_drop]; omega) fuel
            (by omega))
  | @wrapped t hi lo rest y htag hwrap hcomes ih =>
      obtain ⟨hread, hnext⟩ := headersRead_wrapped fuel hlen hb htag (Nat.le_of_lt hwrap)
      have hle := hcomes.length_le
      have hdrop := List.length_drop (i := bigEndian16 hi lo - 65533) (l := t :: hi :: lo :: rest)
      rw [hdrop] at hle
      simp only [List.length_cons] at hn hle
      cases fuel with
      | zero => omega
      | succ fuel =>
          rw [hread]
          exact List.mem_cons_of_mem _ (ih hnext hge
            (by rw [hdrop]; simp only [List.length_cons]; omega) fuel (by omega))

/-- Every header that is read is there exactly if no bytes lead the lookup out. -/
theorem headersRead_inside_iff (hlen : len ≤ 65535) (hle : l.length ≤ len)
    (hl : slice buf 0 l.length = l) :
    (∀ p ∈ headersRead buf len tag 65536 0, p + 3 ≤ l.length) ↔
      StaysWithin tag (len - l.length) l := by
  have hread : ∀ {y : Bytes}, ComesTo tag (slice buf 0 len) y → 3 ≤ y.length →
      len - y.length ∈ headersRead buf len tag 65536 0 := fun hcomes hge ↦
    headersRead_of_comesTo hlen rfl hcomes hge (by omega)
  rw [slice_front hle hl] at hread
  constructor
  · rintro hinside x hcomes (⟨hlt, hmore⟩ | ⟨htag, hcut, hmore⟩)
    · have hx := hcomes.length_le
      have hp := hinside _ (hread (hcomes.append _)
        (by rw [List.length_append, slice_length]; exact hmore))
      rw [List.length_append, slice_length] at hp
      omega
    -- the header behind a field that runs over the end
    · have hx := hcomes.length_le
      have hjump := (hcomes.append (slice buf l.length (len - l.length))).trans
        (.next htag (by rw [List.append_eq, List.length_append, slice_length]; omega) (.here _))
      have hp := hinside _ (hread hjump (by
        rw [List.append_eq, List.length_drop, List.length_append, slice_length]
        omega))
      rw [List.append_eq, List.length_drop, List.length_append, slice_length] at hp
      simp only [List.length_cons] at hx
      omega
  · intro hstay p hp
    obtain ⟨y, hcomes, hge, hpy⟩ := comesTo_of_headersRead hlen hp
    rcases bytes_cases y with rfl | ⟨-, hlt⟩ | ⟨t, hi, lo, rest', rfl⟩
    · exact absurd hge (by decide)
    · omega
    obtain ⟨rest, hcomes', rfl⟩ := (comesTo_slice_iff hlen hle hl hstay).mp hcomes
    have hx := hcomes'.length_le
    simp only [List.length_cons, List.length_append, slice_length] at hpy hx
    omega

end Headers

end SubmarineMonitor
