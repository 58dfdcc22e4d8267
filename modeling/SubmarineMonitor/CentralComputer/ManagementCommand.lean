import SubmarineMonitor.CentralComputer.LncLinkClient
import SubmarineMonitor.Protocol.PrintedRecord

/-!
# ManagementCommand — the commands of `management_command.cpp`

`CcCore_GetMeasurements` and `CcCore_GetEvents`: a request, a response, and the next request from
the response's cursor until a response has none.  The commands for the clock and the configuration
send one request and wait for one reply.
-/

open Reasoning

namespace SubmarineMonitor

/-! ## 1. Requests -/

structure PageFrame where
  valueBuf : Mem
  payload : Mem
  written : Nat
  message : Mem
  messageLen : Nat
  storage : Mem

/-- `haveCursor`, `cursorDay` and `cursorOffset`. -/
structure PageCursor where
  have_ : Bool := false
  day : UInt32 := 0
  offset : UInt32 := 0
  deriving DecidableEq, Repr

def pageRequest (frame : PageFrame) (reqTag : UInt8) (startTime endTime : UInt32)
    (cursor : PageCursor) : Bytes :=
  let b : FieldBuf :=
    { buf := frame.payload, valueBuf := frame.valueBuf, written := frame.written }
  let b := b.encodeField 32 protoFieldTimeRangeStart (protocolPutU32 startTime.toNat)
  let b := b.encodeField 32 protoFieldTimeRangeEnd (protocolPutU32 endTime.toNat)
  let b :=
    if cursor.have_ then
      let b := b.encodeField 32 protoFieldCursorDay (protocolPutU32 cursor.day.toNat)
      b.encodeField 32 protoFieldCursorOffset (protocolPutU32 cursor.offset.toNat)
    else b
  ccCoreLncSend frame.message frame.messageLen reqTag b.buf b.len

/-! ## 2. Responses -/

/-- The walk over a response: the printed records, and the cursor with `responseHasCursor`. -/
structure Page (α : Type) where
  printed : List α
  cursor : PageCursor
  hasCursor : Bool
  deriving DecidableEq, Repr

def PageCursor.visit (value : Mem) (recordTag : UInt8) (c : PageCursor × Bool)
    (p : UInt8 × Field) : PageCursor × Bool :=
  if p.1 = recordTag then c
  -- only the day announces another page
  else if p.1 = protoFieldCursorDay then
    ({ c.1 with day := getU32 (advance value p.2.off) }, true)
  else if p.1 = protoFieldCursorOffset then
    ({ c.1 with offset := getU32 (advance value p.2.off) }, c.2)
  else c

def readPage {α : Type} (recordTag : UInt8) (print : Mem → Nat → Option α) (cursor : PageCursor)
    (value : Mem) (valueLen : Nat) : Option (Page α) := do
  let visited ← walkTlv value valueLen
  let printed ← (visited.filter fun p ↦ p.1 = recordTag).mapM fun p ↦
    print (advance value p.2.off) p.2.len
  let found := visited.foldl (PageCursor.visit value recordTag) (cursor, false)
  return { printed, cursor := found.1, hasCursor := found.2 }

/-! ## 3. Queries -/

/-- What a query does: the requests it sends, the records it prints, the total it reports when it is
    done, and whether it returns. -/
structure QueryOut (α : Type) where
  link : LncLink
  reads : List PrefixRead
  handled : List HandlerCall
  stores : List DcaStore
  sent : List Bytes
  printed : List α
  total : Option Nat
  returned : Bool

def QueryOut.last {α : Type} (r : MessageOut) (sent : Bytes) (printed : List α)
    (total : Option Nat) (returned : Bool) : QueryOut α :=
  { link := r.link, reads := r.reads, handled := r.handled, stores := r.stores, sent := [sent], printed
    total, returned }

def QueryOut.after {α : Type} (out : QueryOut α) (r : MessageOut) (sent : Bytes)
    (printed : List α) : QueryOut α :=
  { out with
    reads := r.reads ++ out.reads
    handled := r.handled ++ out.handled
    stores := r.stores ++ out.stores
    sent := sent :: out.sent
    printed := printed ++ out.printed }

section Query

variable {α : Type} (reqTag respTag recordTag : UInt8) (print : Mem → Nat → Option α)
  (startTime endTime : UInt32)

def pagedQueryLoop : Nat → (Nat → PageFrame) → PageCursor → Nat → LncLink → QueryOut α
  | 0, _, _, _, link =>
      { link, reads := [], handled := [], stores := [], sent := [], printed := [], total := none
        returned := false }
  | fuel + 1, stack, cursor, totalRecords, link =>
      let sent := pageRequest (stack 0) reqTag startTime endTime cursor
      let r := ccCoreLncRecvMessage link (stack 0).storage 300
      match r.result with
      | none => .last r sent [] none false
      | some none => .last r sent [] none true
      | some (some m) =>
          -- an answer to something else ends the query
          if m.tag ≠ respTag then .last r sent [] none true
          else
            match readField m.value m.valueLen protoFieldStatus 0 getU8 with
            | none => .last r sent [] none false
            | some status =>
                -- NO_DATA_FOUND and every other status but SUCCESS end the query with a message
                if status ≠ protoStatusSuccess then .last r sent [] none true
                else
                  match readPage recordTag print cursor m.value m.valueLen with
                  | none => .last r sent [] none false
                  | some page =>
                      -- each record that is printed is counted
                      let totalRecords := totalRecords + page.printed.length
                      if page.hasCursor then
                        (pagedQueryLoop fuel (fun i ↦ stack (i + 1))
                          { page.cursor with have_ := true } totalRecords r.link).after r sent
                            page.printed
                      else .last r sent page.printed (some totalRecords) true

/-- One page ends the query, or a message was received and its cursor asks for the next page. -/
theorem pagedQueryLoop_page (fuel : Nat) (stack : Nat → PageFrame) (cursor : PageCursor)
    (totalRecords : Nat) (link : LncLink) :
    let r := ccCoreLncRecvMessage link (stack 0).storage 300
    let sent := pageRequest (stack 0) reqTag startTime endTime cursor
    let out := pagedQueryLoop reqTag respTag recordTag print startTime endTime (fuel + 1) stack cursor
      totalRecords link
    (∃ printed total returned, out = .last r sent printed total returned) ∨
      ∃ m printed cursor' total, r.result = some (some m) ∧
        out = (pagedQueryLoop reqTag respTag recordTag print startTime endTime fuel
          (fun i ↦ stack (i + 1)) cursor' total r.link).after r sent printed := by
  intro r sent out
  have hout : out = pagedQueryLoop reqTag respTag recordTag print startTime endTime (fuel + 1) stack
    cursor totalRecords link := rfl
  rw [pagedQueryLoop] at hout
  cases hresult : r.result with
  | none =>
      rw [hresult] at hout
      exact .inl ⟨_, _, _, hout⟩
  | some message =>
      rw [hresult] at hout
      cases message with
      | none => exact .inl ⟨_, _, _, hout⟩
      | some m =>
          dsimp only at hout
          by_cases htag : m.tag ≠ respTag
          · rw [if_pos htag] at hout
            exact .inl ⟨_, _, _, hout⟩
          rw [if_neg htag] at hout
          cases hread : readField m.value m.valueLen protoFieldStatus 0 getU8 with
          | none =>
              rw [hread] at hout
              exact .inl ⟨_, _, _, hout⟩
          | some status =>
              rw [hread] at hout
              dsimp only at hout
              by_cases hstatus : status ≠ protoStatusSuccess
              · rw [if_pos hstatus] at hout
                exact .inl ⟨_, _, _, hout⟩
              rw [if_neg hstatus] at hout
              cases hpage : readPage recordTag print cursor m.value m.valueLen with
              | none =>
                  rw [hpage] at hout
                  exact .inl ⟨_, _, _, hout⟩
              | some page =>
                  rw [hpage] at hout
                  dsimp only at hout
                  by_cases hcursor : page.hasCursor
                  · rw [if_pos hcursor] at hout
                    exact .inr ⟨m, _, _, _, rfl, hout⟩
                  · rw [if_neg hcursor] at hout
                    exact .inl ⟨_, _, _, hout⟩

/-- Each page that asks for another one has taken a message from the connection. -/
def pagedQuery (stack : Nat → PageFrame) (link : LncLink) : QueryOut α :=
  pagedQueryLoop reqTag respTag recordTag print startTime endTime (link.incoming.length + 1) stack {}
    0 link

/-- With more fuel than bytes to come the query never runs out of it. -/
theorem pagedQueryLoop_fuel {fuel : Nat} {link : LncLink} (stack : Nat → PageFrame)
    (cursor : PageCursor) (totalRecords : Nat) (h : link.incoming.length < fuel) (k : Nat) :
    pagedQueryLoop reqTag respTag recordTag print startTime endTime (fuel + k) stack cursor
        totalRecords link =
      pagedQueryLoop reqTag respTag recordTag print startTime endTime fuel stack cursor totalRecords
        link := by
  induction fuel generalizing link stack cursor totalRecords with
  | zero => omega
  | succ fuel ih =>
      have hless := fun m ↦ @lncRecvMessageLoop_shrinks 300 (link.incoming.length + 1) link
        (stack 0).storage m
      rw [show fuel + 1 + k = (fuel + k) + 1 by omega, pagedQueryLoop, pagedQueryLoop]
      simp only [ccCoreLncRecvMessage]
      generalize lncRecvMessageLoop 300 (link.incoming.length + 1) link (stack 0).storage = r
        at hless ⊢
      match hresult : r.result with
      | none => rfl
      | some none => rfl
      | some (some m) =>
          have hfuel : r.link.incoming.length < fuel := by
            have hm := hless m hresult
            omega
          dsimp only
          simp only [ih _ _ _ hfuel]

end Query

def ccCoreGetMeasurements : UInt32 → UInt32 → (Nat → PageFrame) → LncLink →
    QueryOut PrintedMeasurement :=
  pagedQuery protoTagGetMeasurementsReq protoTagGetMeasurementsResp protoFieldMeasurementRecord
    readMeasurementRecord

def ccCoreGetEvents : UInt32 → UInt32 → (Nat → PageFrame) → LncLink → QueryOut PrintedEvent :=
  pagedQuery protoTagGetEventsReq protoTagGetEventsResp protoFieldEventRecord readEventRecord

/-! ## 4. The clock and the configuration -/

structure CommandFrame where
  value : Mem
  valueLen : Nat
  message : Mem
  messageLen : Nat
  storage : Mem

/-- What a command does: the bytes it sends, what it receives, and what it returns: `none` when it
    does not return, `some none` for `false`, else its output parameter. -/
structure CommandOut (α : Type) where
  sent : Bytes
  received : MessageOut
  result : Option (Option α)

def expectReply {α : Type} (respTag : UInt8) (minLen : Nat) (read : Mem → α) (sent : Bytes)
    (frame : CommandFrame) (link : LncLink) : CommandOut α :=
  let r := ccCoreLncRecvMessage link frame.storage 256
  { sent, received := r
    result :=
      match r.result with
      | none => none
      | some none => some none
      | some (some m) =>
          if m.tag ≠ respTag ∨ m.valueLen < minLen then some none else some (some (read m.value)) }

def ccCoreGetTime (frame : CommandFrame) (link : LncLink) : CommandOut UInt32 :=
  let sent := ccCoreLncSend frame.message frame.messageLen protoTagGetTimeReq (ofList [] 0) 0
  expectReply protoTagGetTimeResp 4 getU32 sent frame link

def ccCoreSetRtc (newTime : UInt32) (frame : CommandFrame) (link : LncLink) : CommandOut UInt8 :=
  let valueBuf := ofList (protocolPutU32 newTime.toNat) 0
  let sent := ccCoreLncSend frame.message frame.messageLen protoTagSetRtcReq valueBuf 4
  expectReply protoTagConfigAck 1 getU8 sent frame link

def ccCoreSetBatteryWarningMin (newMinMv : UInt16) (frame : CommandFrame) (link : LncLink) :
    CommandOut UInt8 :=
  let fieldBuf := ofList (protocolPutU16 newMinMv.toNat) 0
  let field := protocolEncodeTLV protoFieldBatteryMin fieldBuf 2 frame.value 0 8 frame.valueLen
  let sent := ccCoreLncSend frame.message frame.messageLen protoTagSetBatteryWarningMin field.outBuf
    field.outWritten
  expectReply protoTagConfigAck 1 getU8 sent frame link

end SubmarineMonitor
