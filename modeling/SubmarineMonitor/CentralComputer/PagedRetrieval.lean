import SubmarineMonitor.CentralComputer.LncReceive
import SubmarineMonitor.CentralComputer.ManagementCommand

/-!
# PagedRetrieval — what a paged query retrieves

The peer answers each request with one page, and each page but the last one carries the cursor of the
next request.  Telemetry that comes in between goes to its handlers, and the query reports the
records of all pages and their number.
-/

open Reasoning

namespace SubmarineMonitor

/-! ## 1. Requests -/

def requestFields (startTime endTime : UInt32) (cursor : PageCursor) : List Tlv :=
  [u32Tlv protoFieldTimeRangeStart startTime, u32Tlv protoFieldTimeRangeEnd endTime] ++
    if cursor.have_ then
      [u32Tlv protoFieldCursorDay cursor.day, u32Tlv protoFieldCursorOffset cursor.offset]
    else []

def requestMessage (reqTag : UInt8) (startTime endTime : UInt32) (cursor : PageCursor) : Bytes :=
  tcpMessage (tlvMessage reqTag (tlvBytes (requestFields startTime endTime cursor)))

theorem requestFields_length (startTime endTime : UInt32) (cursor : PageCursor) :
    (tlvBytes (requestFields startTime endTime cursor)).length ≤ 28 := by
  rw [requestFields]
  cases cursor.have_ with
  | false => exact Nat.le_of_ble_eq_true rfl
  | true => exact Nat.le_of_ble_eq_true rfl

theorem ccCoreLncSend_tlv (message : Mem) (messageLen : Nat) (tag : UInt8) {value : Mem}
    {valueLen : Nat} {v : Bytes} (hvalue : slice value 0 valueLen = v) (hlen : v.length ≤ 29) :
    ccCoreLncSend message messageLen tag value valueLen = tcpMessage (tlvMessage tag v) :=
  sendTLV_eq message messageLen tag hvalue (by omega) (by decide)

theorem pageRequest_eq (frame : PageFrame) (reqTag : UInt8) (startTime endTime : UInt32)
    (cursor : PageCursor) :
    pageRequest frame reqTag startTime endTime cursor =
      requestMessage reqTag startTime endTime cursor := by
  let b : FieldBuf :=
    { buf := frame.payload, valueBuf := frame.valueBuf, written := frame.written }
  have hempty : b.Holds [] := { len_eq := rfl, bytes := rfl, ok := rfl }
  have hfit := requestFields_length startTime endTime cursor
  have hholds := hempty.encodeFields (requestFields startTime endTime cursor)
    (show 0 + _ ≤ 32 by omega) (by decide)
  have hsend := @ccCoreLncSend_tlv frame.message frame.messageLen reqTag _ _ _ hholds.bytes
    (by rw [List.nil_append]; omega)
  rw [List.nil_append] at hsend
  rw [requestMessage, ← hsend, pageRequest, requestFields]
  cases cursor.have_ with
  | false => rfl
  | true => rfl

/-! ## 2. Pages -/

/-- What comes for one request: the messages in front of the response, and the response's TLVs. -/
structure Exchange where
  before : List Bytes
  fields : List Tlv

def Exchange.response (respTag : UInt8) (e : Exchange) : Bytes :=
  tlvMessage respTag (tlvBytes e.fields)

def Exchange.messages (respTag : UInt8) (e : Exchange) : List Bytes :=
  e.before ++ [e.response respTag]

def CarriesOne (tag : UInt8) (v : Bytes) (fs : List Tlv) : Prop :=
  ∃ before f after, fs = before ++ f :: after ∧ f.tag = tag ∧ f.value = v ∧
    ∀ g ∈ before ++ after, g.tag ≠ tag

def Exchange.WithCursor (e : Exchange) : Prop :=
  (∃ v, v.length = 4 ∧ CarriesOne protoFieldCursorDay v e.fields) ∧
    ∃ v, v.length = 4 ∧ CarriesOne protoFieldCursorOffset v e.fields

def Exchange.WithoutCursor (e : Exchange) : Prop :=
  ∀ f ∈ e.fields, f.tag ≠ protoFieldCursorDay ∧ f.tag ≠ protoFieldCursorOffset

def Exchange.cursor (e : Exchange) : PageCursor where
  have_ := true
  day := fieldValue e.fields protoFieldCursorDay 0 getU32
  offset := fieldValue e.fields protoFieldCursorOffset 0 getU32

inductive PagedKind
  | measurements
  | events
  deriving DecidableEq, Repr

namespace PagedKind

def reqTag : PagedKind → UInt8
  | measurements => protoTagGetMeasurementsReq
  | events => protoTagGetEventsReq

def respTag : PagedKind → UInt8
  | measurements => protoTagGetMeasurementsResp
  | events => protoTagGetEventsResp

def recordTag : PagedKind → UInt8
  | measurements => protoFieldMeasurementRecord
  | events => protoFieldEventRecord

abbrev Printed : PagedKind → Type
  | measurements => PrintedMeasurement
  | events => PrintedEvent

def print : (k : PagedKind) → Mem → Nat → Option k.Printed
  | measurements => readMeasurementRecord
  | events => readEventRecord

def query : (k : PagedKind) → UInt32 → UInt32 → (Nat → PageFrame) → LncLink → QueryOut k.Printed
  | measurements => ccCoreGetMeasurements
  | events => ccCoreGetEvents

def CompleteRecord : PagedKind → Bytes → Prop
  | measurements, record => ∃ rs, record = tlvBytes rs ∧ FullWidth rs
  | events, record => ∃ rs, record = tlvBytes rs ∧ CompleteValue protoFieldMeasurementRecord rs

def shown : (k : PagedKind) → Bytes → k.Printed
  | measurements, record => measurementOf (siblings record)
  | events, record => eventOf (siblings record)

def recordsOf (k : PagedKind) (e : Exchange) : List k.Printed :=
  (e.fields.filter fun f ↦ f.tag = k.recordTag).map fun f ↦ k.shown f.value

end PagedKind

structure Exchange.WellFormed (k : PagedKind) (e : Exchange) : Prop where
  before : ∀ m ∈ e.before, Incoming 300 m ∧ ¬ IsReply m
  size : (e.response k.respTag).length ≤ 300
  success : ∃ v, fieldOf protoFieldStatus e.fields = some (protoStatusSuccess :: v)
  records : ∀ f ∈ e.fields, f.tag = k.recordTag → k.CompleteRecord f.value

/-! ## 3. The cursor of a page -/

section Cursor

variable {recordTag : UInt8} {fs : List Tlv}

def PageCursor.visitField (recordTag : UInt8) (c : PageCursor × Bool) (f : Tlv) :
    PageCursor × Bool :=
  if f.tag = recordTag then c
  else if f.tag = protoFieldCursorDay then ({ c.1 with day := getU32 (ofList f.value 0) }, true)
  else if f.tag = protoFieldCursorOffset then
    ({ c.1 with offset := getU32 (ofList f.value 0) }, c.2)
  else c

theorem foldl_placed {value : Mem} {off n : Nat} {x : Bytes}
    (h : slice value off n = tlvBytes fs ++ x)
    (hwidth : ∀ f ∈ fs, f.tag = protoFieldCursorDay ∨ f.tag = protoFieldCursorOffset →
      4 ≤ f.value.length) (c : PageCursor × Bool) :
    (placed off fs).foldl (PageCursor.visit value recordTag) c =
      fs.foldl (PageCursor.visitField recordTag) c := by
  induction fs generalizing off n c with
  | nil => rfl
  | cons f fs ih =>
      rw [tlvBytes_cons, List.append_assoc] at h
      obtain ⟨hvalue, htail⟩ := slice_tlv h
      have hread : f.tag = protoFieldCursorDay ∨ f.tag = protoFieldCursorOffset →
          getU32 (advance value (off + 3)) = getU32 (ofList f.value 0) := fun htag ↦
        getU32_reads.of_slice (by rw [slice_advance, Nat.add_zero]; exact hvalue)
          (hwidth f List.mem_cons_self htag)
      have hone : PageCursor.visit value recordTag c
          (f.tag, { off := off + 3, len := f.value.length }) =
            PageCursor.visitField recordTag c f := by
        rw [PageCursor.visit, PageCursor.visitField]
        dsimp only
        by_cases hrecord : f.tag = recordTag
        · rw [if_pos hrecord, if_pos hrecord]
        rw [if_neg hrecord, if_neg hrecord]
        by_cases hday : f.tag = protoFieldCursorDay
        · rw [if_pos hday, if_pos hday, hread (.inl hday)]
        rw [if_neg hday, if_neg hday]
        by_cases hoffset : f.tag = protoFieldCursorOffset
        · rw [if_pos hoffset, if_pos hoffset, hread (.inr hoffset)]
        · rw [if_neg hoffset, if_neg hoffset]
      rw [placed, List.foldl_cons, List.foldl_cons, hone]
      exact ih htail (fun g hg ↦ hwidth g (List.mem_cons_of_mem f hg)) _

/-- Fields of other tags leave the day, and that another page is announced. -/
theorem foldl_day (hfs : ∀ f ∈ fs, f.tag ≠ protoFieldCursorDay) (c : PageCursor × Bool) :
    (fs.foldl (PageCursor.visitField recordTag) c).1.day = c.1.day ∧
      (fs.foldl (PageCursor.visitField recordTag) c).2 = c.2 := by
  induction fs generalizing c with
  | nil => exact ⟨rfl, rfl⟩
  | cons f fs ih =>
      have hone : (PageCursor.visitField recordTag c f).1.day = c.1.day ∧
          (PageCursor.visitField recordTag c f).2 = c.2 := by
        rw [PageCursor.visitField]
        by_cases hrecord : f.tag = recordTag
        · rw [if_pos hrecord]
          exact ⟨rfl, rfl⟩
        rw [if_neg hrecord, if_neg (hfs f List.mem_cons_self)]
        by_cases hoffset : f.tag = protoFieldCursorOffset
        · rw [if_pos hoffset]
          exact ⟨rfl, rfl⟩
        · rw [if_neg hoffset]
          exact ⟨rfl, rfl⟩
      obtain ⟨hday, hmore⟩ := ih (fun g hg ↦ hfs g (List.mem_cons_of_mem f hg))
        (PageCursor.visitField recordTag c f)
      rw [List.foldl_cons]
      exact ⟨hday.trans hone.1, hmore.trans hone.2⟩

theorem foldl_offset (hfs : ∀ f ∈ fs, f.tag ≠ protoFieldCursorOffset) (c : PageCursor × Bool) :
    (fs.foldl (PageCursor.visitField recordTag) c).1.offset = c.1.offset := by
  induction fs generalizing c with
  | nil => rfl
  | cons f fs ih =>
      have hone : (PageCursor.visitField recordTag c f).1.offset = c.1.offset := by
        rw [PageCursor.visitField]
        by_cases hrecord : f.tag = recordTag
        · rw [if_pos hrecord]
        rw [if_neg hrecord]
        by_cases hday : f.tag = protoFieldCursorDay
        · rw [if_pos hday]
        · rw [if_neg hday, if_neg (hfs f List.mem_cons_self)]
      rw [List.foldl_cons]
      exact (ih (fun g hg ↦ hfs g (List.mem_cons_of_mem f hg)) _).trans hone

theorem CarriesOne.fieldOf {tag : UInt8} {v : Bytes} (h : CarriesOne tag v fs) :
    fieldOf tag fs = some v := by
  obtain ⟨before, f, after, rfl, htag, rfl, hother⟩ := h
  have hbefore : ∀ g ∈ before, ¬ decide (g.tag = tag) = true := fun g hg ↦
    mt of_decide_eq_true (hother g (List.mem_append_left _ hg))
  have hfound : (f :: after).find? (fun g ↦ decide (g.tag = tag)) = some f :=
    List.find?_cons_of_pos (decide_eq_true htag)
  rw [SubmarineMonitor.fieldOf, List.find?_append, List.find?_eq_none.mpr hbefore, Option.none_or,
    hfound]
  rfl

theorem CarriesOne.day {v : Bytes} (h : CarriesOne protoFieldCursorDay v fs)
    (hrecord : protoFieldCursorDay ≠ recordTag) (c : PageCursor × Bool) :
    (fs.foldl (PageCursor.visitField recordTag) c).1.day = getU32 (ofList v 0) ∧
      (fs.foldl (PageCursor.visitField recordTag) c).2 = true := by
  obtain ⟨before, f, after, rfl, htag, rfl, hother⟩ := h
  have hafter := @foldl_day recordTag after fun g hg ↦ hother g (List.mem_append_right _ hg)
  rw [List.foldl_append, List.foldl_cons, PageCursor.visitField, if_neg (htag ▸ hrecord),
    if_pos htag]
  exact hafter _

theorem CarriesOne.offset {v : Bytes} (h : CarriesOne protoFieldCursorOffset v fs)
    (hrecord : protoFieldCursorOffset ≠ recordTag) (c : PageCursor × Bool) :
    (fs.foldl (PageCursor.visitField recordTag) c).1.offset = getU32 (ofList v 0) := by
  obtain ⟨before, f, after, rfl, htag, rfl, hother⟩ := h
  have hafter := @foldl_offset recordTag after fun g hg ↦ hother g (List.mem_append_right _ hg)
  have hday : ¬ f.tag = protoFieldCursorDay := by
    rw [htag]
    decide
  rw [List.foldl_append, List.foldl_cons, PageCursor.visitField, if_neg (htag ▸ hrecord),
    if_neg hday, if_pos htag]
  exact hafter _

end Cursor

/-! ## 4. One page -/

section Page

variable {k : PagedKind} {e : Exchange}

theorem PagedKind.cursorDay_ne (k : PagedKind) : protoFieldCursorDay ≠ k.recordTag := by
  cases k with
  | measurements => decide
  | events => decide

theorem PagedKind.cursorOffset_ne (k : PagedKind) : protoFieldCursorOffset ≠ k.recordTag := by
  cases k with
  | measurements => decide
  | events => decide

/-- The response of a page is a reply of its tag, with the fields as its value. -/
theorem Exchange.WellFormed.response (h : e.WellFormed k) :
    Incoming 300 (e.response k.respTag) ∧ IsReply (e.response k.respTag) ∧
      (tlvBytes e.fields).length ≤ 297 ∧
      ∀ result, Returns (e.response k.respTag) result → ∃ v, slice v 0 (tlvBytes e.fields).length =
        tlvBytes e.fields ∧ result = some (some
          { tag := k.respTag, value := v, valueLen := (tlvBytes e.fields).length }) := by
  have hlength : (e.response k.respTag).length = (tlvBytes e.fields).length + 3 := by
    rw [Exchange.response, tlvMessage, List.length_cons, List.length_append, protocolPutU16_length]
    omega
  have hsize := h.size
  have hlen : bigEndian16 (UInt8.ofNat ((tlvBytes e.fields).length / 256))
      (UInt8.ofNat ((tlvBytes e.fields).length % 256)) = (tlvBytes e.fields).length :=
    bigEndian16_put (by omega)
  have hdecode : decodeMessage (e.response k.respTag) = some
      { tag := k.respTag, len := (tlvBytes e.fields).length, rest := tlvBytes e.fields } := by
    rw [Exchange.response, tlvMessage, protocolPutU16_eq]
    show decodeMessage (_ :: _ :: _ :: tlvBytes e.fields) = _
    rw [decodeMessage, hlen, u16_of_lt (by omega), if_neg (by omega)]
  have hother : ¬ DecodedMessage.IsTelemetry
      { tag := k.respTag, len := (tlvBytes e.fields).length, rest := tlvBytes e.fields } := by
    have htags : k.respTag ≠ protoTagKeepAlive ∧ k.respTag ≠ protoTagEventReport := by
      cases k with
      | measurements => decide
      | events => decide
    exact not_or.mpr htags
  refine ⟨{ pos := by omega, fits := hsize, wellFormed := ?_ }, ⟨_, hdecode, hother⟩, by omega, ?_⟩
  · intro d hd ht
    cases hdecode.symm.trans hd
    exact absurd ht hother
  · rintro result ⟨d, v, hd, hv, rfl⟩
    cases hdecode.symm.trans hd
    exact ⟨v, hv, rfl⟩

theorem PagedKind.CompleteRecord.print {record : Mem} {v : Bytes} (h : k.CompleteRecord v)
    (hlen : v.length ≤ 65535) (hrecord : slice record 0 v.length = v) :
    k.print record v.length = some (k.shown v) := by
  cases k with
  | measurements =>
      obtain ⟨rs, rfl, hwidth⟩ := h
      have hshown : PagedKind.measurements.shown (tlvBytes rs) = measurementOf rs :=
        congrArg measurementOf (siblings_complete rs)
      rw [hshown]
      exact readMeasurementRecord_complete hlen hrecord hwidth
  | events =>
      obtain ⟨rs, rfl, hvalue⟩ := h
      have hshown : PagedKind.events.shown (tlvBytes rs) = eventOf rs :=
        congrArg eventOf (siblings_complete rs)
      rw [hshown]
      exact readEventRecord_complete hlen hrecord hvalue

/-- The cursor fields of a page, if any, are as wide as they are read. -/
theorem Exchange.cursor_width (h : e.WithCursor ∨ e.WithoutCursor) :
    ∀ f ∈ e.fields, f.tag = protoFieldCursorDay ∨ f.tag = protoFieldCursorOffset →
      4 ≤ f.value.length := by
  have hone : ∀ {tag : UInt8}, (∃ v, v.length = 4 ∧ CarriesOne tag v e.fields) →
      ∀ f ∈ e.fields, f.tag = tag → 4 ≤ f.value.length := by
    rintro tag ⟨v, hv, before, g, after, hfs, -, rfl, hother⟩ f hf htag
    rw [hfs] at hf
    rcases List.mem_append.mp hf with hf | hf
    · exact absurd htag (hother f (List.mem_append_left _ hf))
    · rcases List.mem_cons.mp hf with rfl | hf
      · exact Nat.le_of_eq hv.symm
      · exact absurd htag (hother f (List.mem_append_right _ hf))
  rcases h with hcursor | hnone
  · exact fun f hf htag ↦ htag.elim (hone hcursor.1 f hf) (hone hcursor.2 f hf)
  · exact fun f hf htag ↦ absurd htag (not_or.mpr (hnone f hf))

theorem readPage_complete (h : e.WellFormed k) (hcursor : e.WithCursor ∨ e.WithoutCursor)
    {value : Mem} (hvalue : slice value 0 (tlvBytes e.fields).length = tlvBytes e.fields)
    (cursor : PageCursor) :
    ∃ page, readPage k.recordTag k.print cursor value (tlvBytes e.fields).length = some page ∧
      page.printed = k.recordsOf e ∧
      (e.WithCursor → page.hasCursor = true ∧ { page.cursor with have_ := true } = e.cursor) ∧
      (e.WithoutCursor → page.hasCursor = false) := by
  obtain ⟨-, -, hlen, -⟩ := h.response
  have hwhole : slice value 0 (tlvBytes e.fields).length = tlvBytes e.fields ++ [] := by
    rw [List.append_nil]
    exact hvalue
  have hprinted := @mapM_placed _ _ id e.fields value 0 _ [] (by rw [List.map_id]; exact hwhole)
    k.recordTag k.print (fun f ↦ k.shown f.value) fun f hf htag record hrecord ↦
      (h.records f hf htag).print (Nat.le_of_lt_succ f.length_lt) hrecord
  rw [List.map_id] at hprinted
  have hfold := @foldl_placed k.recordTag e.fields value 0 _ [] hwhole
    (Exchange.cursor_width hcursor) (cursor, false)
  refine ⟨{ printed := k.recordsOf e
            cursor := (e.fields.foldl (PageCursor.visitField k.recordTag) (cursor, false)).1
            hasCursor := (e.fields.foldl (PageCursor.visitField k.recordTag) (cursor, false)).2 },
    ?_, rfl, ?_, ?_⟩
  · rw [readPage, walkTlv_complete (by omega) hvalue, Option.bind_eq_bind, Option.bind_some, hprinted,
      hfold]
    rfl
  · rintro ⟨⟨v, -, hday⟩, ⟨w, -, hoffset⟩⟩
    obtain ⟨hd, hmore⟩ := hday.day k.cursorDay_ne (cursor, false)
    have ho := hoffset.offset k.cursorOffset_ne (cursor, false)
    dsimp only
    refine ⟨hmore, ?_⟩
    rw [Exchange.cursor, fieldValue, fieldValue, hday.fieldOf, hoffset.fieldOf, hd, ho]
  · intro hnone
    exact (foldl_day (fun f hf ↦ (hnone f hf).1) (cursor, false)).2

end Page

/-! ## 5. All pages -/

/-- A query over these exchanges sends one request for each of them, with the cursor of the page
    before it; it reports the records of all pages and how many there are; and each message in
    between is handled once. -/
structure Retrieves (k : PagedKind) (startTime endTime : UInt32) (exchanges : List Exchange)
    (last : Exchange) (later : Bytes) (out : QueryOut k.Printed) : Prop where
  sent : out.sent = requestMessage k.reqTag startTime endTime {} ::
    exchanges.map fun e ↦ requestMessage k.reqTag startTime endTime e.cursor
  printed : out.printed = (exchanges ++ [last]).flatMap k.recordsOf
  total : out.total = some ((exchanges ++ [last]).flatMap k.recordsOf).length
  handled : out.handled = (exchanges ++ [last]).flatMap fun e ↦ e.before.flatMap handlerCalls
  stores : out.stores = (exchanges ++ [last]).flatMap fun e ↦ e.before.flatMap messageStores
  left : out.link.incoming = later
  returned : out.returned = true

section Query

variable {k : PagedKind} {startTime endTime : UInt32}

theorem pagedQueryLoop_exchange {e : Exchange} (h : e.WellFormed k)
    (hcursor : e.WithCursor ∨ e.WithoutCursor) {link : LncLink} {later : Bytes}
    (hin : link.incoming = encodeAll tcpMessage (e.messages k.respTag) ++ later) (fuel : Nat)
    (stack : Nat → PageFrame) (cursor : PageCursor) (totalRecords : Nat) :
    ∃ r : MessageOut, r.link.incoming = later ∧ r.handled = e.before.flatMap handlerCalls ∧
      r.stores = e.before.flatMap messageStores ∧
      (e.WithCursor → pagedQueryLoop k.reqTag k.respTag k.recordTag k.print startTime endTime
          (fuel + 1) stack cursor totalRecords link =
        (pagedQueryLoop k.reqTag k.respTag k.recordTag k.print startTime endTime fuel
          (fun i ↦ stack (i + 1)) e.cursor (totalRecords + (k.recordsOf e).length) r.link).after r
            (requestMessage k.reqTag startTime endTime cursor) (k.recordsOf e)) ∧
      (e.WithoutCursor → pagedQueryLoop k.reqTag k.respTag k.recordTag k.print startTime endTime
          (fuel + 1) stack cursor totalRecords link =
        .last r (requestMessage k.reqTag startTime endTime cursor) (k.recordsOf e)
          (some (totalRecords + (k.recordsOf e).length)) true) := by
  obtain ⟨hm, hreply, hlen, hreturns⟩ := h.response
  rw [Exchange.messages, encodeAll_append, encodeAll_cons, encodeAll_nil, List.append_nil,
    List.append_assoc] at hin
  obtain ⟨hleft, hhandled, hstores, hresult⟩ :=
    ccCoreLncRecvMessage_upTo (by decide) h.before hm hreply link (stack 0).storage hin
  obtain ⟨v, hv, hresult⟩ := hreturns _ hresult
  obtain ⟨s, hs⟩ := h.success
  have hstatus : readField v (tlvBytes e.fields).length protoFieldStatus 0 getU8 =
      some protoStatusSuccess :=
    readField_some (by omega) hv hs getU8_reads (Nat.le_add_left 1 s.length)
  obtain ⟨page, hpage, hprinted, hmore, hdone⟩ := readPage_complete h hcursor hv cursor
  refine ⟨_, hleft, hhandled, hstores, fun hwith ↦ ?_, fun hwithout ↦ ?_⟩
  · obtain ⟨hhas, hnext⟩ := hmore hwith
    rw [pagedQueryLoop]
    dsimp only
    rw [hresult]
    dsimp only
    rw [if_neg (not_not_intro rfl), hstatus]
    dsimp only
    rw [if_neg (not_not_intro rfl), hpage]
    dsimp only
    rw [if_pos hhas, hnext, hprinted, pageRequest_eq]
  · rw [pagedQueryLoop]
    dsimp only
    rw [hresult]
    dsimp only
    rw [if_neg (not_not_intro rfl), hstatus]
    dsimp only
    rw [if_neg (not_not_intro rfl), hpage]
    dsimp only
    rw [if_neg (by rw [hdone hwithout]; decide), hprinted, pageRequest_eq]

theorem pagedQueryLoop_retrieves {exchanges : List Exchange} {last : Exchange}
    (hall : ∀ e ∈ exchanges, e.WellFormed k ∧ e.WithCursor)
    (hlast : last.WellFormed k ∧ last.WithoutCursor) {link : LncLink} {later : Bytes}
    (hin : link.incoming =
      encodeAll tcpMessage ((exchanges ++ [last]).flatMap (Exchange.messages k.respTag)) ++ later)
    {fuel : Nat} (hfuel : exchanges.length < fuel) (stack : Nat → PageFrame) (cursor : PageCursor)
    (totalRecords : Nat) :
    let out := pagedQueryLoop k.reqTag k.respTag k.recordTag k.print startTime endTime fuel stack
      cursor totalRecords link
    out.sent = requestMessage k.reqTag startTime endTime cursor ::
        exchanges.map (fun e ↦ requestMessage k.reqTag startTime endTime e.cursor) ∧
      out.printed = (exchanges ++ [last]).flatMap k.recordsOf ∧
      out.total = some (totalRecords + ((exchanges ++ [last]).flatMap k.recordsOf).length) ∧
      out.handled = (exchanges ++ [last]).flatMap (fun e ↦ e.before.flatMap handlerCalls) ∧
      out.stores = (exchanges ++ [last]).flatMap (fun e ↦ e.before.flatMap messageStores) ∧
      out.link.incoming = later ∧ out.returned = true := by
  -- induction on the exchanges; the cursor of each page goes into the next request
  induction exchanges generalizing fuel stack cursor totalRecords link with
  | nil =>
      cases fuel with
      | zero => omega
      | succ fuel =>
          have hin : link.incoming = encodeAll tcpMessage (last.messages k.respTag) ++ later := by
            rw [hin, List.nil_append, List.flatMap_singleton]
          obtain ⟨r, hleft, hhandled, hstores, -, hdone⟩ := @pagedQueryLoop_exchange k startTime
            endTime last hlast.1 (.inr hlast.2) link later hin fuel stack cursor totalRecords
          dsimp only
          rw [hdone hlast.2, List.nil_append, List.flatMap_singleton, List.flatMap_singleton,
            List.flatMap_singleton]
          exact ⟨rfl, rfl, rfl, hhandled, hstores, hleft, rfl⟩
  | cons e exchanges ih =>
      cases fuel with
      | zero => omega
      | succ fuel =>
          obtain ⟨he, hwith⟩ := hall e List.mem_cons_self
          rw [List.cons_append, List.flatMap_cons, encodeAll_append, List.append_assoc] at hin
          obtain ⟨r, hleft, hhandled, hstores, hmore, -⟩ := @pagedQueryLoop_exchange k startTime
            endTime e he (.inl hwith) link _ hin fuel stack cursor totalRecords
          obtain ⟨hsent, hprinted, htotal, hhandled', hstores', hleft', hreturned⟩ :=
            ih (fun e' he' ↦ hall e' (List.mem_cons_of_mem e he')) hleft
              (Nat.lt_of_succ_lt_succ hfuel) (fun i ↦ stack (i + 1)) e.cursor
              (totalRecords + (k.recordsOf e).length)
          dsimp only
          rw [hmore hwith, QueryOut.after]
          dsimp only
          rw [hsent, hprinted, htotal, hhandled, hhandled', hstores, hstores', List.cons_append,
            List.flatMap_cons, List.flatMap_cons, List.flatMap_cons, List.length_append,
            Nat.add_assoc]
          exact ⟨rfl, rfl, rfl, rfl, rfl, hleft', hreturned⟩

end Query

theorem exchanges_length_le (respTag : UInt8) (exchanges : List Exchange) :
    exchanges.length ≤ (exchanges.flatMap (Exchange.messages respTag)).length := by
  induction exchanges with
  | nil => exact Nat.zero_le _
  | cons e exchanges ih =>
      rw [List.flatMap_cons, List.length_append, List.length_cons, Exchange.messages,
        List.length_append, List.length_singleton]
      omega

theorem PagedKind.query_eq (k : PagedKind) (startTime endTime : UInt32) (stack : Nat → PageFrame)
    (link : LncLink) :
    k.query startTime endTime stack link = pagedQueryLoop k.reqTag k.respTag k.recordTag k.print
      startTime endTime (link.incoming.length + 1) stack {} 0 link := by
  cases k with
  | measurements => rfl
  | events => rfl

theorem paged_retrieval_exact (k : PagedKind) (startTime endTime : UInt32)
    (stack : Nat → PageFrame) (exchanges : List Exchange) (last : Exchange)
    (hall : ∀ e ∈ exchanges, e.WellFormed k ∧ e.WithCursor)
    (hlast : last.WellFormed k ∧ last.WithoutCursor) (link : LncLink) (later : Bytes)
    (hin : link.incoming =
      encodeAll tcpMessage ((exchanges ++ [last]).flatMap (Exchange.messages k.respTag)) ++ later) :
    Retrieves k startTime endTime exchanges last later
      (k.query startTime endTime stack link) := by
  have hmessages := exchanges_length_le k.respTag (exchanges ++ [last])
  have hbytes :=
    tcpMessages_length_ge ((exchanges ++ [last]).flatMap (Exchange.messages k.respTag))
  have hfuel : exchanges.length < link.incoming.length + 1 := by
    rw [hin, List.length_append]
    rw [List.length_append, List.length_singleton] at hmessages
    omega
  obtain ⟨hsent, hprinted, htotal, hhandled, hstores, hleft, hreturned⟩ :=
    @pagedQueryLoop_retrieves k startTime endTime _ _ hall hlast link later hin _ hfuel stack {} 0
  rw [Nat.zero_add] at htotal
  rw [k.query_eq]
  exact { sent := hsent, printed := hprinted, total := htotal, handled := hhandled, stores := hstores
          left := hleft, returned := hreturned }

/-- Two pages, the first with a cursor and a record, and a KEEP_ALIVE in front of the second one. -/
theorem paged_retrieval_exact_two :
    let status := u8Tlv 0x26 0x00
    let mode := u8Tlv 0x2C 0x07
    let record : Tlv := { tag := 0x29, value := tlvBytes [mode], length_lt := by decide }
    let offset := u32Tlv 0x35 9
    let day := u32Tlv 0x34 5
    let first : Exchange := { before := [], fields := [status, record, offset, day] }
    let last : Exchange := { before := [[0x11, 0x00, 0x00]], fields := [status] }
    let link : LncLink :=
      { incoming := encodeAll tcpMessage (first.messages 0x0E ++ last.messages 0x0E), taken := 0 }
    Retrieves .measurements 1 2 [first] last []
      (ccCoreGetMeasurements 1 2 (fun _ ↦ ⟨fun _ ↦ 1, fun _ ↦ 2, 3, fun _ ↦ 4, 5, fun _ ↦ 6⟩)
        link) := by
  intro status mode record offset day first last link
  have hkeep : Incoming 300 [0x11, 0x00, 0x00] ∧ ¬ IsReply [0x11, 0x00, 0x00] := by
    have hdecode : decodeMessage [0x11, 0x00, 0x00] = some { tag := 0x11, len := 0, rest := [] } := by
      decide
    refine ⟨{ pos := by decide, fits := by decide, wellFormed := ?_ }, ?_⟩
    · intro d hd ht
      cases hdecode.symm.trans hd
      exact ⟨by decide, [], rfl, { width := fun f hf ↦ absurd hf List.not_mem_nil
                                   records := fun f hf ↦ absurd hf List.not_mem_nil }⟩
    · rintro ⟨d, hd, ht⟩
      cases hdecode.symm.trans hd
      exact ht (by decide)
  have hrecord : PagedKind.measurements.CompleteRecord record.value :=
    ⟨[mode], rfl, List.forall_mem_singleton.mpr (by decide)⟩
  have hfirst : first.WellFormed .measurements :=
    { before := fun m hm ↦ absurd hm List.not_mem_nil
      size := by decide
      success := ⟨[], rfl⟩
      records := by
        rw [List.forall_mem_cons, List.forall_mem_cons, List.forall_mem_cons,
          List.forall_mem_singleton]
        exact ⟨fun h ↦ absurd h (by decide), fun _ ↦ hrecord, fun h ↦ absurd h (by decide),
          fun h ↦ absurd h (by decide)⟩ }
  have hlast : last.WellFormed .measurements :=
    { before := List.forall_mem_singleton.mpr hkeep
      size := by decide
      success := ⟨[], rfl⟩
      records := List.forall_mem_singleton.mpr fun h ↦ absurd h (by decide) }
  have hday : CarriesOne protoFieldCursorDay day.value first.fields :=
    ⟨[status, record, offset], day, [], rfl, rfl, rfl, by decide⟩
  have hoffset : CarriesOne protoFieldCursorOffset offset.value first.fields :=
    ⟨[status, record], offset, [day], rfl, rfl, rfl, by decide⟩
  exact paged_retrieval_exact .measurements 1 2 _ [first] last
    (List.forall_mem_singleton.mpr ⟨hfirst, ⟨_, rfl, hday⟩, ⟨_, rfl, hoffset⟩⟩)
    ⟨hlast, List.forall_mem_singleton.mpr (by decide)⟩ link [] (by rw [List.append_nil]; rfl)

end SubmarineMonitor
