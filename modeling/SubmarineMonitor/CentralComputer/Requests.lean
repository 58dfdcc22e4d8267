import SubmarineMonitor.CentralComputer.ClockSync
import SubmarineMonitor.CentralComputer.PagedRetrieval

/-!
# Requests — what the programs on the PC ask of the LNC

Whatever the replies are, whatever the uninitialised buffers hold and however the connection ends, a
program puts whole requests on its connection: those of its commands, in their order, each with the
arguments of the command (`coreClient_asked`).  Two requests are never the same bytes
(`LncRequest.message_inj`).
-/

open Reasoning

namespace SubmarineMonitor

/-! ## 1. Definitions -/

/-- A request, with its arguments; `next` is the cursor of a page behind the first one. -/
inductive LncRequest
  | getTime
  | setRtc (newTime : UInt32)
  | setBatteryWarningMin (newMinMv : UInt16)
  | page (k : PagedKind) (startTime endTime : UInt32) (next : Option (UInt32 × UInt32))
  deriving DecidableEq, Repr

def pageCursorOf : Option (UInt32 × UInt32) → PageCursor
  | none => {}
  | some (day, offset) => { have_ := true, day, offset }

inductive RequestKind
  | getTime
  | setRtc
  | setBatteryWarningMin
  | page (k : PagedKind)
  deriving DecidableEq, Repr

def RequestKind.tag : RequestKind → UInt8
  | .getTime => protoTagGetTimeReq
  | .setRtc => protoTagSetRtcReq
  | .setBatteryWarningMin => protoTagSetBatteryWarningMin
  | .page k => k.reqTag

def LncRequest.kind : LncRequest → RequestKind
  | .getTime => .getTime
  | .setRtc _ => .setRtc
  | .setBatteryWarningMin _ => .setBatteryWarningMin
  | .page k _ _ _ => .page k

def LncRequest.value : LncRequest → Bytes
  | .getTime => []
  | .setRtc newTime => protocolPutU32 newTime.toNat
  | .setBatteryWarningMin newMinMv => tlvBytes [u16Tlv protoFieldBatteryMin newMinMv]
  | .page _ startTime endTime next =>
      tlvBytes (requestFields startTime endTime (pageCursorOf next))

def LncRequest.message (r : LncRequest) : Bytes := tlvMessage r.kind.tag r.value

def LncCommand.Asks : LncCommand → List LncRequest → Prop
  | .getTime _, reqs => reqs = [.getTime]
  | .setRtc newTime _, reqs => reqs = [.setRtc newTime]
  | .setBatteryWarningMin newMinMv _, reqs => reqs = [.setBatteryWarningMin newMinMv]
  | .getMeasurements startTime endTime _, reqs => ∃ nexts : List (UInt32 × UInt32),
      reqs = .page .measurements startTime endTime none ::
        nexts.map fun next ↦ .page .measurements startTime endTime (some next)
  | .getEvents startTime endTime _, reqs => ∃ nexts : List (UInt32 × UInt32),
      reqs = .page .events startTime endTime none ::
        nexts.map fun next ↦ .page .events startTime endTime (some next)
  | .streamed _, reqs => reqs = []

/-- `killed` is a client that SIGPIPE ends in the `CcCore_LncSend` behind so many others. -/
inductive CoreClient
  | main (newTime : UInt32) (frames : Nat → CommandFrame) (storages : Nat → Mem) (link : LncLink)
  | commands (cs : List LncCommand) (link : LncLink)
  | killed (client : CoreClient) (sends : Nat)

def CoreClient.sends : CoreClient → List Bytes
  | .main newTime frames storages link => (lncConnection newTime frames storages link).sent
  | .commands cs link => (runOutputs lncStep (link, true) cs).flatMap ConnectionOut.sent
  | .killed client sends => client.sends.take sends

/-- What a client may ask, whatever the replies are: `main` for the time and some of what comes behind it, and
    a sequence of commands what each of them asks, up to one that does not return. -/
def CoreClient.Issues : CoreClient → List LncRequest → Prop
  | .main newTime _ _ _, reqs => reqs ≠ [] ∧ reqs <+: [.getTime, .setRtc newTime, .getTime]
  | .commands cs link, reqs => ∃ front asked, front <+: cs ∧
      ((runState lncStep (link, true) cs).2 = true → front = cs) ∧
      List.Forall₂ LncCommand.Asks front asked ∧ reqs = asked.flatten
  | .killed client sends, reqs => ∃ all, client.Issues all ∧ reqs = all.take sends

/-! ## 2. Requests and their bytes -/

theorem LncRequest.value_length (r : LncRequest) : r.value.length ≤ 28 := by
  cases r with
  | getTime => exact Nat.zero_le _
  | setRtc newTime =>
      rw [LncRequest.value, protocolPutU32_length]
      decide
  | setBatteryWarningMin newMinMv =>
      rw [LncRequest.value, tlvBytes_cons, tlvBytes_nil, List.append_nil, Tlv.bytes_length, u16Tlv,
        protocolPutU16_length]
      decide
  | page k startTime endTime next => exact requestFields_length _ _ _

theorem LncRequest.message_length (r : LncRequest) : r.message.length = 3 + r.value.length := by
  rw [LncRequest.message, tlvMessage, List.length_cons, List.length_append, protocolPutU16_length]
  omega

theorem LncRequest.message_fits (r : LncRequest) : 1 ≤ r.message.length ∧ r.message.length ≤ 31 := by
  have hvalue := r.value_length
  rw [r.message_length]
  omega

theorem tlvMessage_inj {tag tag' : UInt8} {v v' : Bytes} (hv : v.length < 65536)
    (hv' : v'.length < 65536) (h : tlvMessage tag v = tlvMessage tag' v') : tag = tag' ∧ v = v' := by
  have hbytes : Tlv.bytes ⟨tag, v, hv⟩ ++ [] = Tlv.bytes ⟨tag', v', hv'⟩ ++ [] := by
    rw [List.append_nil, List.append_nil]
    exact h
  have hsame := (tlv_prefixFree.inj trivial trivial hbytes).1
  exact ⟨congrArg Tlv.tag hsame, congrArg Tlv.value hsame⟩

theorem protocolPutU32_inj {n n' : UInt32} (h : protocolPutU32 n.toNat = protocolPutU32 n'.toNat) :
    n = n' := by
  have hread := protocolGetU32_of_slice n.toNat_lt (slice_ofList (protocolPutU32 n.toNat) 0)
  rw [h, protocolGetU32_of_slice n'.toNat_lt (slice_ofList (protocolPutU32 n'.toNat) 0)] at hread
  exact UInt32.toNat_inj.mp hread.symm

theorem u32Tlv_inj {tag : UInt8} {n n' : UInt32} (h : u32Tlv tag n = u32Tlv tag n') : n = n' :=
  protocolPutU32_inj (congrArg Tlv.value h)

theorem u16Tlv_inj {tag : UInt8} {n n' : UInt16} (h : u16Tlv tag n = u16Tlv tag n') : n = n' := by
  have hvalue : protocolPutU16 n.toNat = protocolPutU16 n'.toNat := congrArg Tlv.value h
  have hread := protocolGetU16_of_slice n.toNat_lt (slice_ofList (protocolPutU16 n.toNat) 0)
  rw [hvalue, protocolGetU16_of_slice n'.toNat_lt (slice_ofList (protocolPutU16 n'.toNat) 0)] at hread
  exact UInt16.toNat_inj.mp hread.symm

theorem tlvBytes_inj {fs gs : List Tlv} (h : tlvBytes fs = tlvBytes gs) : fs = gs :=
  tlv_prefixFree.encodeAll_inj (fun _ _ ↦ trivial) (fun _ _ ↦ trivial) h

theorem requestFields_inj {startTime startTime' endTime endTime' : UInt32}
    {next next' : Option (UInt32 × UInt32)}
    (h : requestFields startTime endTime (pageCursorOf next) =
      requestFields startTime' endTime' (pageCursorOf next')) :
    startTime = startTime' ∧ endTime = endTime' ∧ next = next' := by
  have hcons : ∀ {f f' g g' : Tlv} {l l' : List Tlv}, [f, g] ++ l = [f', g'] ++ l' →
      f = f' ∧ g = g' ∧ l = l' := by
    intro f f' g g' l l' h
    obtain ⟨hf, h⟩ := List.cons.inj h
    exact ⟨hf, List.cons.inj h⟩
  obtain ⟨hstart, hend, hcursor⟩ := hcons h
  refine ⟨u32Tlv_inj hstart, u32Tlv_inj hend, ?_⟩
  cases next with
  | none =>
      cases next' with
      | none => rfl
      | some next' => cases hcursor
  | some next =>
      cases next' with
      | none => cases hcursor
      | some next' =>
          obtain ⟨hday, hoffset, -⟩ := @hcons _ _ _ _ [] [] hcursor
          rw [show next = next' from Prod.ext (u32Tlv_inj hday) (u32Tlv_inj hoffset)]

theorem RequestKind.tag_inj {a b : RequestKind} (h : a.tag = b.tag) : a = b := by
  revert h
  rcases a with _ | _ | _ | (_ | _) <;> rcases b with _ | _ | _ | (_ | _) <;> decide

/-- The tag tells the kind, and in each kind the value tells the arguments. -/
theorem LncRequest.message_inj {r s : LncRequest} (h : r.message = s.message) : r = s := by
  obtain ⟨htag, hvalue⟩ := tlvMessage_inj (Nat.lt_of_le_of_lt r.value_length (by decide))
    (Nat.lt_of_le_of_lt s.value_length (by decide)) h
  have hkind := RequestKind.tag_inj htag
  cases r with
  | getTime =>
      cases s <;> cases hkind
      rfl
  | setRtc newTime =>
      cases s <;> cases hkind
      rw [protocolPutU32_inj hvalue]
  | setBatteryWarningMin newMinMv =>
      cases s <;> cases hkind
      rw [u16Tlv_inj (List.cons.inj (tlvBytes_inj hvalue)).1]
  | page k startTime endTime next =>
      cases s <;> cases hkind
      obtain ⟨hstart, hend, hnext⟩ := requestFields_inj (tlvBytes_inj hvalue)
      rw [hstart, hend, hnext]

/-! ## 3. What each command sends -/

def LncRequest.sent (r : LncRequest) : Bytes := tcpMessage r.message

theorem pageRequest_sent (frame : PageFrame) (k : PagedKind) (startTime endTime : UInt32)
    (next : Option (UInt32 × UInt32)) :
    pageRequest frame k.reqTag startTime endTime (pageCursorOf next) =
      (LncRequest.page k startTime endTime next).sent :=
  pageRequest_eq frame k.reqTag startTime endTime (pageCursorOf next)

/-- One page: the query ends, or goes on from a cursor with both parts. -/
theorem pagedQueryLoop_onePage (k : PagedKind) (startTime endTime : UInt32) (fuel : Nat)
    (stack : Nat → PageFrame) (cursor : PageCursor) (totalRecords : Nat) (link : LncLink) :
    ∃ more, (pagedQueryLoop k.reqTag k.respTag k.recordTag k.print startTime endTime (fuel + 1) stack
          cursor totalRecords link).sent =
        pageRequest (stack 0) k.reqTag startTime endTime cursor :: more ∧
      (more = [] ∨ ∃ next total left, more = (pagedQueryLoop k.reqTag k.respTag k.recordTag k.print
        startTime endTime fuel (fun i ↦ stack (i + 1)) (pageCursorOf (some next)) total left).sent) := by
  rw [pagedQueryLoop]
  dsimp only
  split
  · exact ⟨[], rfl, .inl rfl⟩
  · exact ⟨[], rfl, .inl rfl⟩
  · split
    · exact ⟨[], rfl, .inl rfl⟩
    split
    · exact ⟨[], rfl, .inl rfl⟩
    split
    · exact ⟨[], rfl, .inl rfl⟩
    split
    · exact ⟨[], rfl, .inl rfl⟩
    next page _ =>
      split
      · exact ⟨_, rfl, .inr ⟨(page.cursor.day, page.cursor.offset), _, _, rfl⟩⟩
      · exact ⟨[], rfl, .inl rfl⟩

/-- Behind the first page each request has the cursor of the page before it. -/
theorem pagedQueryLoop_sent (k : PagedKind) (startTime endTime : UInt32) (fuel : Nat)
    (stack : Nat → PageFrame) (next : Option (UInt32 × UInt32)) (totalRecords : Nat) (link : LncLink) :
    ∃ nexts : List (UInt32 × UInt32),
      (pagedQueryLoop k.reqTag k.respTag k.recordTag k.print startTime endTime (fuel + 1) stack
          (pageCursorOf next) totalRecords link).sent =
        (LncRequest.page k startTime endTime next ::
          nexts.map fun next ↦ .page k startTime endTime (some next)).map LncRequest.sent := by
  -- induction on the pages
  induction fuel generalizing stack next totalRecords link with
  | zero =>
      obtain ⟨more, hsent, hmore⟩ := pagedQueryLoop_onePage k startTime endTime 0 stack
        (pageCursorOf next) totalRecords link
      refine ⟨[], ?_⟩
      rw [hsent, pageRequest_sent]
      rcases hmore with rfl | ⟨next, total, left, rfl⟩
      · rfl
      · rfl
  | succ fuel ih =>
      obtain ⟨more, hsent, hmore⟩ := pagedQueryLoop_onePage k startTime endTime (fuel + 1) stack
        (pageCursorOf next) totalRecords link
      rw [hsent, pageRequest_sent]
      rcases hmore with rfl | ⟨first, total, left, rfl⟩
      · exact ⟨[], rfl⟩
      · obtain ⟨nexts, hnexts⟩ := ih (fun i ↦ stack (i + 1)) (some first) total left
        exact ⟨first :: nexts, by rw [hnexts]; rfl⟩

theorem getTime_asks (frame : CommandFrame) (link : LncLink) :
    (ccCoreGetTime frame link).sent = LncRequest.getTime.sent :=
  getTime_sent frame link

theorem setRtc_asks (newTime : UInt32) (frame : CommandFrame) (link : LncLink) :
    (ccCoreSetRtc newTime frame link).sent = (LncRequest.setRtc newTime).sent :=
  setRtc_sent newTime frame link

theorem setBatteryWarningMin_asks (newMinMv : UInt16) (frame : CommandFrame) (link : LncLink) :
    (ccCoreSetBatteryWarningMin newMinMv frame link).sent =
      (LncRequest.setBatteryWarningMin newMinMv).sent := by
  let f := u16Tlv protoFieldBatteryMin newMinMv
  have hlen : f.bytes.length = 5 := rfl
  have hfield := @protocolEncodeTLV_tlv f (ofList f.value 0) frame.value 2 0 8 frame.valueLen rfl
    (slice_ofList f.value 0) (by omega) (by omega)
  have hvalue : slice (store frame.value 0 f.bytes) 0 f.bytes.length =
      (LncRequest.setBatteryWarningMin newMinMv).value := by
    rw [slice_store]
    exact (List.append_nil f.bytes).symm
  rw [ccCoreSetBatteryWarningMin, expectReply]
  dsimp only
  rw [show protocolEncodeTLV protoFieldBatteryMin (ofList (protocolPutU16 newMinMv.toNat) 0) 2 frame.value 0 8
    frame.valueLen = _ from hfield]
  exact ccCoreLncSend_tlv frame.message frame.messageLen protoTagSetBatteryWarningMin hvalue
    (Nat.le_trans (LncRequest.value_length _) (by decide))

theorem LncCommand.run_asks (c : LncCommand) (link : LncLink) :
    ∃ reqs, c.Asks reqs ∧ (c.run link).sent = reqs.map LncRequest.sent := by
  cases c with
  | getTime frame =>
      exact ⟨_, rfl, congrArg (fun sent ↦ [sent]) (getTime_asks frame link)⟩
  | setRtc newTime frame =>
      exact ⟨_, rfl, congrArg (fun sent ↦ [sent]) (setRtc_asks newTime frame link)⟩
  | setBatteryWarningMin newMinMv frame =>
      exact ⟨_, rfl, congrArg (fun sent ↦ [sent]) (setBatteryWarningMin_asks newMinMv frame link)⟩
  | getMeasurements startTime endTime stack =>
      obtain ⟨nexts, hsent⟩ := pagedQueryLoop_sent .measurements startTime endTime link.incoming.length
        stack none 0 link
      exact ⟨_, ⟨nexts, rfl⟩, hsent⟩
  | getEvents startTime endTime stack =>
      obtain ⟨nexts, hsent⟩ := pagedQueryLoop_sent .events startTime endTime link.incoming.length
        stack none 0 link
      exact ⟨_, ⟨nexts, rfl⟩, hsent⟩
  | streamed storage => exact ⟨_, rfl, streamOne_sent storage link⟩

/-! ## 4. Whole connections -/

structure CoreClient.Asked (client : CoreClient) (reqs : List LncRequest) : Prop where
  issues : client.Issues reqs
  sends : client.sends = reqs.map LncRequest.sent

/-- A command sends its request, and then what follows sends, if it returns. -/
theorem runCommand_asks {α : Type} {c : CommandOut α} {next : Option α → ConnectionOut}
    {r : LncRequest} {later : List LncRequest} (hsent : c.sent = r.sent)
    (hnext : ∀ result, ∃ reqs, reqs <+: later ∧ (next result).sent = reqs.map LncRequest.sent) :
    ∃ reqs, reqs <+: r :: later ∧ (runCommand c next).sent = reqs.map LncRequest.sent := by
  rw [runCommand]
  cases c.result with
  | none =>
      refine ⟨[r], (List.prefix_cons_inj r).mpr List.nil_prefix, ?_⟩
      rw [CommandOut.connection, hsent]
      rfl
  | some result =>
      obtain ⟨reqs, hreqs, hlater⟩ := hnext result
      refine ⟨r :: reqs, (List.prefix_cons_inj r).mpr hreqs, ?_⟩
      show [c.sent] ++ (next result).sent = _
      rw [hsent, hlater]
      rfl

theorem runCommand_sent_ne {α : Type} (c : CommandOut α) (next : Option α → ConnectionOut) :
    (runCommand c next).sent ≠ [] := by
  rw [runCommand]
  cases c.result with
  | none => exact List.cons_ne_nil _ _
  | some result => exact List.cons_ne_nil _ _

theorem lncConnection_asks (newTime : UInt32) (frames : Nat → CommandFrame) (storages : Nat → Mem)
    (link : LncLink) :
    ∃ reqs, reqs <+: [.getTime, .setRtc newTime, .getTime] ∧
      (lncConnection newTime frames storages link).sent = reqs.map LncRequest.sent := by
  have hstream : ∀ (later : List LncRequest) link, ∃ reqs, reqs <+: later ∧
      (stream storages link).sent = reqs.map LncRequest.sent := fun later link ↦
    ⟨[], List.nil_prefix, stream_sent storages link⟩
  simp only [lncConnection, signalledConnection, sendCommand_false]
  apply runCommand_asks (getTime_asks (frames 0) link)
  intro initialTime
  cases initialTime with
  | none => exact hstream _ _
  | some time =>
      apply runCommand_asks (setRtc_asks newTime (frames 1) _)
      intro status
      by_cases hstatus : status = some protoStatusSuccess
      · rw [if_pos hstatus]
        exact runCommand_asks (getTime_asks (frames 2) _) fun _ ↦ hstream [] _
      · rw [if_neg hstatus]
        exact hstream _ _

theorem lncStep_stopped (cs : List LncCommand) {s : LncLink × Bool} (h : s.2 = false) :
    (runState lncStep s cs).2 = false ∧
      (runOutputs lncStep s cs).flatMap ConnectionOut.sent = [] := by
  have hstays : ∀ c, lncStep s c = (s, { link := s.1, returned := false }) := fun c ↦
    if_neg (by rw [h]; decide)
  induction cs with
  | nil => exact ⟨h, rfl⟩
  | cons c cs ih =>
      rw [runState, List.foldl_cons, runOutputs, hstays c]
      exact ih

/-- A run of commands sends what each of them asks, and nothing behind one that does not return. -/
theorem commands_sent (cs : List LncCommand) (s : LncLink × Bool) :
    ∃ front asked, front <+: cs ∧ ((runState lncStep s cs).2 = true → front = cs) ∧
      List.Forall₂ LncCommand.Asks front asked ∧
      (runOutputs lncStep s cs).flatMap ConnectionOut.sent = asked.flatten.map LncRequest.sent := by
  -- induction on the commands
  induction cs generalizing s with
  | nil => exact ⟨[], [], List.prefix_refl _, fun _ ↦ rfl, .nil, rfl⟩
  | cons c cs ih =>
      by_cases hruns : s.2 = true
      · have hstep : lncStep s c = (((c.run s.1).link, (c.run s.1).returned), c.run s.1) := if_pos hruns
        obtain ⟨reqs, hreqs, hsent⟩ := c.run_asks s.1
        obtain ⟨front, asked, hfront, hall, hasks, hlater⟩ := ih (lncStep s c).1
        refine ⟨c :: front, reqs :: asked, (List.prefix_cons_inj c).mpr hfront, fun hreturned ↦ ?_,
          .cons hreqs hasks, ?_⟩
        · rw [hall hreturned]
        · rw [runOutputs, List.flatMap_cons, hlater, hstep, hsent, List.flatten_cons, List.map_append]
      · obtain ⟨hstopped, hnothing⟩ := lncStep_stopped (c :: cs) (Bool.eq_false_iff.mpr hruns)
        refine ⟨[], [], List.nil_prefix, fun hreturned ↦ ?_, .nil, hnothing⟩
        rw [hstopped] at hreturned
        cases hreturned

theorem coreClient_asked (client : CoreClient) : ∃ reqs, client.Asked reqs := by
  induction client with
  | main newTime frames storages link =>
      obtain ⟨reqs, hreqs, hsent⟩ := lncConnection_asks newTime frames storages link
      refine ⟨reqs, ⟨?_, hreqs⟩, hsent⟩
      rintro rfl
      exact runCommand_sent_ne _ _ hsent
  | commands cs link =>
      obtain ⟨front, asked, hfront, hall, hasks, hsent⟩ := commands_sent cs (link, true)
      exact ⟨_, ⟨front, asked, hfront, hall, hasks, rfl⟩, hsent⟩
  | killed client sends ih =>
      obtain ⟨reqs, hreqs⟩ := ih
      refine ⟨reqs.take sends, ⟨reqs, hreqs.issues, rfl⟩, ?_⟩
      rw [CoreClient.sends, hreqs.sends, List.map_take]

end SubmarineMonitor
