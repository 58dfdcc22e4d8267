import SubmarineMonitor.CentralComputer.CommGs
import SubmarineMonitor.CentralComputer.LncReceive
import SubmarineMonitor.GroundStation.GsQueries

/-!
# CompleteMessages — what the three receivers accept as a message

Each receiver reads the bytes a length prefix announces and gives them to `Protocol_DecodeTLV`.  The
decoder compares their number with `(uint16_t)(3 + valueLen)`: a declared length of 65533 and more
wraps to a total that every message has.  Below it the receivers accept complete TLVs and nothing
else (`receivers_accept_complete_iff`).
-/

open Reasoning

namespace SubmarineMonitor

/-! ## 1. Definitions -/

def declaredLength (m : Bytes) : Nat := bigEndian16 (m.getD 1 0) (m.getD 2 0)

def CompleteTlv (m : Bytes) : Prop := 3 ≤ m.length ∧ 3 + declaredLength m ≤ m.length

instance (m : Bytes) : Decidable (CompleteTlv m) :=
  inferInstanceAs (Decidable (3 ≤ m.length ∧ 3 + declaredLength m ≤ m.length))

def LengthInRange (m : Bytes) : Prop := m.length < 3 ∨ declaredLength m < 65533

def messageCall (m : Bytes) : HandlerCall :=
  { tag := m.getD 0 0, value := (m.drop 3).take (declaredLength m) }

/-- The decoder accepts the message in `buf` if it is complete, and then its value is the declared
    number of bytes behind the header and the whole TLV is consumed. -/
def DecodesComplete (m : Bytes) (buf : Mem) : Prop :=
  protocolDecodeTLV buf m.length =
    if CompleteTlv m then
      .ok { tag := m.getD 0 0, valueOff := 3, valueLen := declaredLength m,
            consumed := 3 + declaredLength m }
    else .error .errIncomplete

def HandsOver (m : Bytes) (received : Option (HandlerCall × Bytes)) (later : Bytes) : Prop :=
  received = if CompleteTlv m then some (messageCall m, later) else none

def RequestMessage.call (r : RequestMessage) : HandlerCall :=
  { tag := r.tag, value := slice r.value 0 r.valueLen }

def GsMessage.call (r : GsMessage) : HandlerCall :=
  { tag := r.tag, value := slice r.value 0 r.valueLen }

def LncMessage.call (r : LncMessage) : HandlerCall :=
  { tag := r.tag, value := slice r.value 0 r.valueLen }

def MessageOut.calls (out : MessageOut) : List HandlerCall :=
  out.handled ++ (out.result.join.map LncMessage.call).toList

structure CommGsComplete (m : Bytes) : Prop where
  decodes : ∀ storage, DecodesComplete m (store storage 0 m)
  handsOver : ∀ storage later, HandsOver m
    ((commGsRecvMessage storage 512 (tcpMessage m ++ later)).map fun r ↦ (r.1.call, r.2)) later

structure GsComplete (m : Bytes) : Prop where
  decodes : ∀ heap, DecodesComplete m (store heap 0 m)
  handsOver : ∀ heap later, HandsOver m
    ((gsRecvMessage heap (tcpMessage m ++ later)).map fun r ↦ (r.1.call, r.2)) later

/-- A complete message comes first; any other one is passed over. -/
structure LncComplete (storageCap : Nat) (m : Bytes) : Prop where
  decodes : ∀ storage, DecodesComplete m (store storage 0 m)
  accepts : CompleteTlv m → ∀ link storage later, link.incoming = tcpMessage m ++ later →
    (ccCoreLncRecvMessage link storage storageCap).calls.head? = some (messageCall m)
  rejects : ¬ CompleteTlv m → ∀ link storage later, link.incoming = tcpMessage m ++ later →
    ∃ next, next.incoming = later ∧
      (ccCoreLncRecvMessage link storage storageCap).calls =
        (ccCoreLncRecvMessage next (store storage 0 m) storageCap).calls

/-! ## 2. The decoder -/

section Decoder

variable {m : Bytes}

theorem not_completeTlv_of_wrap (hlen : m.length ≤ 65535) (h : ¬ LengthInRange m) :
    ¬ CompleteTlv m := by
  rw [LengthInRange] at h
  rw [CompleteTlv]
  omega

theorem decodesComplete {buf : Mem} (hbuf : slice buf 0 m.length = m) (h : LengthInRange m) :
    DecodesComplete m buf := by
  rcases bytes_cases m with rfl | ⟨-, hlt⟩ | ⟨t, hi, lo, rest, rfl⟩
  · exact decodeTLV_short (by decide)
  · rw [DecodesComplete, if_neg fun hc ↦ absurd hc.1 (by omega)]
    exact decodeTLV_short hlt
  · have hlength : declaredLength (t :: hi :: lo :: rest) = bigEndian16 hi lo := rfl
    rw [LengthInRange, hlength, List.length_cons, List.length_cons, List.length_cons] at h
    have hcomplete : CompleteTlv (t :: hi :: lo :: rest) ↔ 3 + bigEndian16 hi lo ≤ rest.length + 3 := by
      rw [CompleteTlv, hlength]
      simp only [List.length_cons]
      omega
    rw [DecodesComplete, decodeTLV_header hbuf, hlength, u16_of_lt (by omega)]
    simp only [List.length_cons]
    by_cases hcut : rest.length + 1 + 1 + 1 < 3 + bigEndian16 hi lo
    · rw [if_pos hcut, if_neg (by rw [hcomplete]; omega)]
    · rw [if_neg hcut, if_pos (by rw [hcomplete]; omega)]
      rfl

/-- Over the wrap the decoder accepts a message that is not complete. -/
theorem not_decodesComplete {buf : Mem} (hbuf : slice buf 0 m.length = m) (hlen : m.length ≤ 65535)
    (h : ¬ LengthInRange m) : ¬ DecodesComplete m buf := by
  intro hdecodes
  rw [DecodesComplete, if_neg (not_completeTlv_of_wrap hlen h)] at hdecodes
  rw [LengthInRange, not_or] at h
  rcases bytes_cases m with rfl | ⟨-, hlt⟩ | ⟨t, hi, lo, rest, rfl⟩
  · exact h.1 (by decide)
  · exact h.1 hlt
  · have hL := bigEndian16_lt hi lo
    have hlength : declaredLength (t :: hi :: lo :: rest) = bigEndian16 hi lo := rfl
    rw [hlength] at h
    have hwrap := u16_wrapped (n := bigEndian16 hi lo) (by omega) hL
    rw [decodeTLV_header hbuf, hwrap, if_neg (by simp only [List.length_cons]; omega)] at hdecodes
    exact absurd hdecodes (by simp)

theorem slice_messageValue {buf : Mem} (hbuf : slice buf 0 m.length = m) (h : CompleteTlv m) :
    slice (advance buf 3) 0 (declaredLength m) = (messageCall m).value := by
  have hlen := h.2
  have hrest : m.drop 3 = slice buf 3 (m.length - 3) := by
    conv_lhs => rw [← hbuf]
    rw [slice_drop _ _ h.1, Nat.zero_add]
  rw [messageCall, hrest, slice_take _ _ (by omega), slice_advance]

end Decoder

/-! ## 3. The receivers -/

section Receivers

variable {m : Bytes}

theorem commGsComplete (hpos : 0 < m.length) (hfits : m.length ≤ 512) (h : LengthInRange m) :
    CommGsComplete m := by
  refine { decodes := fun storage ↦ decodesComplete (slice_store storage 0 m) h
           handsOver := fun storage later ↦ ?_ }
  have hbuf : slice (store storage 0 m) 0 m.length = m := slice_store storage 0 m
  have hdecodes := decodesComplete hbuf h
  have hlength := tcpMessage_length m
  have hrest : (tcpMessage m ++ later).drop 4 = m ++ later := rfl
  rw [HandsOver, commGsRecvMessage, if_neg (by rw [List.length_append]; omega),
    protocolGetU32_message (by omega), hrest]
  dsimp only
  rw [if_neg (by omega), if_neg (by rw [List.length_append]; omega), List.take_left, List.drop_left,
    u16_of_lt (by omega), hdecodes]
  by_cases hc : CompleteTlv m
  · rw [if_pos hc, if_pos hc]
    dsimp only [Option.map_some, RequestMessage.call]
    rw [slice_messageValue hbuf hc]
    rfl
  · rw [if_neg hc, if_neg hc]
    rfl

theorem gsComplete (hpos : 0 < m.length) (hfits : m.length ≤ 65535) (h : LengthInRange m) :
    GsComplete m := by
  refine { decodes := fun heap ↦ decodesComplete (slice_store heap 0 m) h
           handsOver := fun heap later ↦ ?_ }
  have hbuf : slice (store heap 0 m) 0 m.length = m := slice_store heap 0 m
  have hdecodes := decodesComplete hbuf h
  have hlength := tcpMessage_length m
  have hrest : (tcpMessage m ++ later).drop 4 = m ++ later := rfl
  rw [HandsOver, gsRecvMessage, if_neg (by rw [List.length_append]; omega),
    protocolGetU32_message (by omega), hrest]
  dsimp only
  rw [if_neg (by omega), if_neg (by rw [List.length_append]; omega), List.take_left, List.drop_left,
    u16_of_lt (by omega), hdecodes]
  by_cases hc : CompleteTlv m
  · rw [if_pos hc, if_pos hc]
    dsimp only [Option.map_some, GsMessage.call]
    rw [slice_messageValue hbuf hc]
    rfl
  · rw [if_neg hc, if_neg hc]
    rfl

variable {storageCap : Nat} {link : LncLink} {later : Bytes}

theorem MessageOut.after_calls (out : MessageOut) (read : PrefixRead) (handled : List HandlerCall)
    (stores : List DcaStore) : (out.after read handled stores).calls = handled ++ out.calls := by
  rw [MessageOut.calls, MessageOut.calls, MessageOut.after, List.append_assoc]

theorem ccCoreLncRecvMessage_accepts (hfits : m.length ≤ storageCap) (hcap : storageCap ≤ 65535)
    (hc : CompleteTlv m) (hlink : link.incoming = tcpMessage m ++ later) (storage : Mem) :
    (ccCoreLncRecvMessage link storage storageCap).calls.head? = some (messageCall m) := by
  have hbuf : slice (store storage 0 m) 0 m.length = m := slice_store storage 0 m
  have hrange : LengthInRange m := .inr (by have hlen := hc.2; omega)
  have hpos := hc.1
  obtain ⟨-, hmem, hresult⟩ := ccCoreLncRecv_message storage hlink hfits hcap
  have hdecodes := decodesComplete hbuf hrange
  rw [DecodesComplete, if_pos hc] at hdecodes
  have hvalue := slice_messageValue hbuf hc
  rw [ccCoreLncRecvMessage, lncRecvMessageLoop]
  dsimp only
  rw [hmem, hresult, if_neg (by omega), hdecodes]
  dsimp only
  cases telemetryHandler (m.getD 0 0) (advance (store storage 0 m) 3) (declaredLength m) with
  | none =>
      show some _ = some _
      rw [hvalue]
      rfl
  | some stores =>
      cases stores with
      | none =>
          dsimp only [MessageOut.calls, Option.join, Option.bind_some, id, Option.map_some,
            LncMessage.call]
          rw [hvalue]
          rfl
      | some stores =>
          dsimp only
          rw [MessageOut.after_calls, hvalue]
          rfl

theorem ccCoreLncRecvMessage_rejects (hpos : 0 < m.length) (hfits : m.length ≤ storageCap)
    (hcap : storageCap ≤ 65535) (h : LengthInRange m) (hc : ¬ CompleteTlv m)
    (hlink : link.incoming = tcpMessage m ++ later) (storage : Mem) :
    ∃ next, next.incoming = later ∧
      (ccCoreLncRecvMessage link storage storageCap).calls =
        (ccCoreLncRecvMessage next (store storage 0 m) storageCap).calls := by
  obtain ⟨hleft, hmem, hresult⟩ := ccCoreLncRecv_message storage hlink hfits hcap
  have hdecodes := decodesComplete (slice_store storage 0 m) h
  rw [DecodesComplete, if_neg hc] at hdecodes
  refine ⟨(ccCoreLncRecv link storage storageCap).link, hleft, ?_⟩
  have hshorter : link.incoming.length = later.length + 1 + (m.length + 3) := by
    rw [hlink, List.length_append, tcpMessage_length]
    omega
  rw [ccCoreLncRecvMessage, ccCoreLncRecvMessage, lncRecvMessageLoop]
  dsimp only
  rw [hmem, hresult, if_neg (by omega), hdecodes]
  dsimp only
  rw [MessageOut.after_calls, List.nil_append, hshorter,
    lncRecvMessageLoop_fuel storageCap _ (by rw [hleft]; omega), hleft]

theorem lncComplete (hpos : 0 < m.length) (hfits : m.length ≤ storageCap) (hcap : storageCap ≤ 65535)
    (h : LengthInRange m) : LncComplete storageCap m where
  decodes storage := decodesComplete (slice_store storage 0 m) h
  accepts hc _ storage _ hlink := ccCoreLncRecvMessage_accepts hfits hcap hc hlink storage
  rejects hc _ storage _ hlink := ccCoreLncRecvMessage_rejects hpos hfits hcap h hc hlink storage

theorem lengthInRange_of_decodes (hlen : m.length ≤ 65535)
    (h : ∀ storage, DecodesComplete m (store storage 0 m)) : LengthInRange m := by
  by_contra hwrap
  exact not_decodesComplete (slice_store (ofList [] 0) 0 m) hlen hwrap (h _)

end Receivers

/-- Each receiver accepts a message as it should exactly if its declared length does not wrap. -/
theorem receivers_accept_complete_iff (m : Bytes) (hpos : 0 < m.length) :
    (m.length ≤ 512 → (CommGsComplete m ↔ LengthInRange m)) ∧
      (m.length ≤ 65535 → (GsComplete m ↔ LengthInRange m)) ∧
      ∀ storageCap, m.length ≤ storageCap → storageCap ≤ 65535 →
        (LncComplete storageCap m ↔ LengthInRange m) := by
  refine ⟨fun hfits ↦ ⟨fun h ↦ ?_, commGsComplete hpos hfits⟩,
    fun hfits ↦ ⟨fun h ↦ ?_, gsComplete hpos hfits⟩,
    fun storageCap hfits hcap ↦ ⟨fun h ↦ ?_, lncComplete hpos hfits hcap⟩⟩
  · exact lengthInRange_of_decodes (by omega) h.decodes
  · exact lengthInRange_of_decodes hfits h.decodes
  · exact lengthInRange_of_decodes (by omega) h.decodes

-- a value of two bytes, and one of five that has only two
theorem receivers_accept_complete_value :
    (CommGsComplete [0x13, 0x00, 0x02, 0x2A, 0x2B] ∧ GsComplete [0x13, 0x00, 0x02, 0x2A, 0x2B] ∧
        LncComplete 256 [0x13, 0x00, 0x02, 0x2A, 0x2B]) ∧
      CommGsComplete [0x13, 0x00, 0x05, 0x2A, 0x2B] ∧ GsComplete [0x13, 0x00, 0x05, 0x2A, 0x2B] ∧
        LncComplete 256 [0x13, 0x00, 0x05, 0x2A, 0x2B] := by
  have hwhole := receivers_accept_complete_iff [0x13, 0x00, 0x02, 0x2A, 0x2B] (by decide)
  have hcut := receivers_accept_complete_iff [0x13, 0x00, 0x05, 0x2A, 0x2B] (by decide)
  have hwholeRange : LengthInRange [0x13, 0x00, 0x02, 0x2A, 0x2B] := .inr (by decide)
  have hcutRange : LengthInRange [0x13, 0x00, 0x05, 0x2A, 0x2B] := .inr (by decide)
  exact ⟨⟨(hwhole.1 (by decide)).mpr hwholeRange, (hwhole.2.1 (by decide)).mpr hwholeRange,
      (hwhole.2.2 256 (by decide) (by decide)).mpr hwholeRange⟩,
    (hcut.1 (by decide)).mpr hcutRange, (hcut.2.1 (by decide)).mpr hcutRange,
    (hcut.2.2 256 (by decide) (by decide)).mpr hcutRange⟩

/-- Three bytes that declare a value of 65533: all three receivers accept them. -/
theorem receivers_accept_header :
    ¬ CommGsComplete [0x13, 0xFF, 0xFD] ∧ ¬ GsComplete [0x13, 0xFF, 0xFD] ∧
      ¬ LncComplete 256 [0x13, 0xFF, 0xFD] := by
  have hwrap : ¬ LengthInRange [0x13, 0xFF, 0xFD] := by
    rw [LengthInRange, not_or]
    decide
  have hno : ¬ ∀ storage, DecodesComplete [0x13, 0xFF, 0xFD] (store storage 0 [0x13, 0xFF, 0xFD]) :=
    fun h ↦ hwrap (lengthInRange_of_decodes (by decide) h)
  exact ⟨fun h ↦ hno h.decodes, fun h ↦ hno h.decodes, fun h ↦ hno h.decodes⟩

end SubmarineMonitor
