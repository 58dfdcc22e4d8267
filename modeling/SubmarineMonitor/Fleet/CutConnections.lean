import SubmarineMonitor.CentralComputer.Reconnects
import SubmarineMonitor.Fleet.LinkAlignment
import SubmarineMonitor.Fleet.Snapshot

/-!
# CutConnections — what a `CentralComputer` stores of a connection that drops anywhere

A poll or a query takes some of the messages that come whole, in order and none left out, and stores what
they are worth.  The rest of them stays on the connection, unless the poll has closed it.
-/

open Reasoning

namespace SubmarineMonitor

/-! ## 1. Definitions -/

def LncLink.Carries (link : LncLink) (msgs : List Bytes) : Prop :=
  (∀ m ∈ msgs, Incoming 256 m) ∧
    ∃ cut, CutOff cut ∧ link.incoming = encodeAll tcpMessage msgs ++ cut

def CentralComputer.openLink (cc : CentralComputer) : Option LncLink :=
  if cc.connected then some cc.link else none

def StoresFront (msgs : List Bytes) (left : Option LncLink) (stores : List DcaStore) : Prop :=
  ∃ consumed unread, msgs = consumed ++ unread ∧ stores = consumed.flatMap messageStores ∧
    ∀ link ∈ left, link.Carries unread

def PollArrival.Whole (a : PollArrival) : Prop := a.arrived = 0 ∨ 4 ≤ a.arrived

instance (a : PollArrival) : Decidable a.Whole :=
  inferInstanceAs (Decidable (a.arrived = 0 ∨ 4 ≤ a.arrived))

/-! ## 2. Links -/

section Links

variable {link mid : LncLink} {msgs : List Bytes} {left : Option LncLink} {stores : List DcaStore}

theorem LncLink.Carries.ended (h : link.incoming = []) : link.Carries [] :=
  ⟨fun _ hm ↦ absurd hm List.not_mem_nil, [], .inl rfl, h⟩

theorem LncLink.Carries.start {stream : Bytes} {taken : Nat} (h : ∀ m ∈ msgs, Incoming 256 m)
    (hfront : stream <+: encodeAll tcpMessage msgs) :
    LncLink.Carries { incoming := stream, taken } (messagesIn stream) := by
  obtain ⟨hwhole, hcut⟩ := messagesIn_front h hfront
  exact ⟨fun m hm ↦ h m (hwhole.subset hm), hcut⟩

theorem LncLink.Carries.messagesIn_eq (h : link.Carries msgs) : messagesIn link.incoming = msgs := by
  obtain ⟨hmsgs, cut, hcut, hincoming⟩ := h
  have hge := tcpMessages_length_ge msgs
  rw [messagesIn, hincoming]
  apply wholeMessages_stream hcut
  · exact fun m hm ↦ Nat.lt_of_le_of_lt (hmsgs m hm).fits (by decide)
  · rw [List.length_append]
    omega

theorem storesFront_nothing (h : ∀ link ∈ left, link.Carries msgs) : StoresFront msgs left [] :=
  ⟨[], msgs, rfl, rfl, h⟩

theorem StoresFront.cons {m : Bytes} (h : StoresFront msgs left stores) :
    StoresFront (m :: msgs) left (messageStores m ++ stores) := by
  obtain ⟨consumed, unread, rfl, rfl, hleft⟩ := h
  exact ⟨m :: consumed, unread, rfl, List.flatMap_cons, hleft⟩

/-- One call and then another one on the link that it leaves. -/
theorem StoresFront.trans {first second : List DcaStore} (h : StoresFront msgs (some mid) first)
    (hnext : ∀ unread, mid.Carries unread → StoresFront unread left second) :
    StoresFront msgs left (first ++ second) := by
  obtain ⟨consumed, unread, rfl, rfl, hmid⟩ := h
  obtain ⟨more, rest, rfl, rfl, hleft⟩ := hnext unread (hmid mid rfl)
  exact ⟨consumed ++ more, rest, (List.append_assoc _ _ _).symm, List.flatMap_append.symm, hleft⟩

end Links

theorem mem_openLink {cc : CentralComputer} {link : LncLink} :
    link ∈ cc.openLink ↔ cc.connected = true ∧ cc.link = link := by
  rw [CentralComputer.openLink]
  by_cases hopen : cc.connected = true
  · rw [if_pos hopen, Option.mem_some_iff]
    exact ⟨fun h ↦ ⟨hopen, h⟩, And.right⟩
  · rw [if_neg hopen]
    refine ⟨fun h ↦ ?_, fun h ↦ absurd h.1 hopen⟩
    cases h

/-! ## 3. Queries -/

section Queries

variable {link : LncLink} {msgs : List Bytes}

/-- The telemetry that a query meets while it waits for a page is stored like any other. -/
theorem ccCoreLncRecvMessage_storesFront (h : link.Carries msgs) (storage : Mem) :
    StoresFront msgs (some (ccCoreLncRecvMessage link storage 300).link)
      (ccCoreLncRecvMessage link storage 300).stores := by
  obtain ⟨hmsgs, cut, hcut, hincoming⟩ := h
  obtain ⟨consumed, unread, cut', hcut', rfl, hleft, -, hstores⟩ :=
    (ccCoreLncRecvMessage_gets 300 (by decide) hcut hmsgs storage hincoming).takes hcut
  refine ⟨consumed, unread, rfl, hstores, fun link hlink ↦ ?_⟩
  cases hlink
  exact ⟨fun m hm ↦ hmsgs m (List.mem_append_right _ hm), cut', hcut', hleft⟩

theorem pagedQueryLoop_storesFront {α : Type} (h : link.Carries msgs) (reqTag respTag recordTag : UInt8)
    (print : Mem → Nat → Option α) (startTime endTime : UInt32) (fuel : Nat)
    (stack : Nat → PageFrame) (cursor : PageCursor) (totalRecords : Nat) :
    let out := pagedQueryLoop reqTag respTag recordTag print startTime endTime fuel stack cursor
      totalRecords link
    StoresFront msgs (some out.link) out.stores := by
  -- induction on the pages
  induction fuel generalizing link msgs stack cursor totalRecords with
  | zero =>
      refine storesFront_nothing fun link hlink ↦ ?_
      cases hlink
      exact h
  | succ fuel ih =>
      have hpage := ccCoreLncRecvMessage_storesFront h (stack 0).storage
      rcases pagedQueryLoop_page reqTag respTag recordTag print startTime endTime fuel stack cursor
        totalRecords link with ⟨printed, total, returned, hout⟩ | ⟨m, printed, next, total, -, hout⟩
      · dsimp only
        rw [hout]
        exact hpage
      · dsimp only
        rw [hout]
        exact hpage.trans fun unread hmid ↦ ih hmid _ next total

theorem query_storesFront {α : Type} {cc : CentralComputer} {run : LncLink → QueryOut α}
    (hopen : cc.connected = true)
    (hrun : ∀ link, link.Carries msgs → StoresFront msgs (some (run link).link) (run link).stores)
    (h : cc.link.Carries msgs) : StoresFront msgs (some (cc.query run).cc.link) (cc.query run).stores := by
  rw [CentralComputer.query, if_pos hopen]
  exact hrun cc.link h

theorem queryMeasurements_storesFront {cc : CentralComputer} (hopen : cc.connected = true)
    (h : cc.link.Carries msgs) (startTime endTime : UInt32) (stack : Nat → PageFrame) :
    StoresFront msgs (some (cc.queryMeasurements startTime endTime stack).cc.link)
      (cc.queryMeasurements startTime endTime stack).stores :=
  query_storesFront hopen (fun _ hlink ↦ pagedQueryLoop_storesFront hlink _ _ _ _ _ _ _ _ _ _) h

theorem queryEvents_storesFront {cc : CentralComputer} (hopen : cc.connected = true)
    (h : cc.link.Carries msgs) (startTime endTime : UInt32) (stack : Nat → PageFrame) :
    StoresFront msgs (some (cc.queryEvents startTime endTime stack).cc.link)
      (cc.queryEvents startTime endTime stack).stores :=
  query_storesFront hopen (fun _ hlink ↦ pagedQueryLoop_storesFront hlink _ _ _ _ _ _ _ _ _ _) h

end Queries

/-! ## 4. Polls -/

section Polls

variable {cc : CentralComputer} {msgs : List Bytes} {i : Nat} {arrivals : Nat → PollArrival}

theorem cacheMeasurementFields_returns {value : Mem} {len : Nat} {fs : List Tlv}
    (cc : CentralComputer) (hlen : len ≤ 65535) (hx : slice value 0 len = tlvBytes fs)
    (hvalue : CompleteValue protoFieldMeasurementRecord fs) :
    ∃ next, cc.cacheMeasurementFields value len = some next := by
  cases hrecord : fieldOf protoFieldMeasurementRecord fs with
  | none =>
      rw [CentralComputer.cacheMeasurementFields,
        readField_complete hlen hx hvalue.width getU32_reads, findField_none hlen hx hrecord]
      exact ⟨cc, rfl⟩
  | some record => exact ⟨_, cacheMeasurementFields_complete cc hlen hx hvalue hrecord⟩

/-- A message behind its length: it is no TLV, or it is handled and worth its stores. -/
theorem takeTelemetry_message {m : Bytes} {storage : Mem} (cc : CentralComputer)
    (hm : WellFormedMessage m) (h : slice storage 0 m.length = m) :
    (∃ e, protocolDecodeTLV storage m.length = .error e ∧ messageStores m = []) ∨
      ∃ d next, protocolDecodeTLV storage m.length = .ok d ∧
        cc.takeTelemetry d.tag (advance storage d.valueOff) d.valueLen =
          some (next, messageStores m) := by
  cases hdecode : decodeMessage m with
  | none => exact .inl ⟨_, protocolDecodeTLV_rejects h hdecode, (rejected_worth hdecode).2⟩
  | some d =>
      obtain ⟨htlv, hrest, hlen, -⟩ := protocolDecodeTLV_accepts h hdecode
      refine .inr ?_
      by_cases ht : d.IsTelemetry
      · obtain ⟨hin, fs, hfs, hvalue⟩ := hm d hdecode ht
        have hx : slice (advance storage 3) 0 d.len = tlvBytes fs := by
          rw [← hfs, DecodedMessage.value, ← hrest, slice_take _ _ hin]
        obtain ⟨next, hnext⟩ := cacheMeasurementFields_returns cc hlen hx hvalue
        refine ⟨_, next, htlv, ?_⟩
        rw [CentralComputer.takeTelemetry, (telemetryHandler_telemetry h hm hdecode ht).1]
        simp only [Option.bind_eq_bind, Option.bind_some]
        rw [hnext]
        rfl
      · refine ⟨_, cc, htlv, ?_⟩
        rw [CentralComputer.takeTelemetry, telemetryHandler_reply ht,
          (reply_worth ⟨d, hdecode, ht⟩).2]
        rfl

/-- An iteration that stores nothing is the last one; `left` is said of the link, if it stays open. -/
structure PollEnds (out : CallOut) (left : LncLink → Prop) : Prop where
  returned : out.returned = true
  stores : out.stores = []
  link : ∀ link ∈ out.cc.openLink, left link

/-- Nothing to read: the link stays as it is, or the peer has closed it. -/
theorem pollLoop_silent (hnone : (cc.link.recv (min 4 (arrivals 0).arrived)).1.length = 0) :
    PollEnds (pollLoop (i + 1) arrivals cc) (· = cc.link) := by
  rw [pollLoop, pollOnce]
  dsimp only
  rw [if_pos hnone, LncLink.recv_none hnone]
  by_cases hclosed : (arrivals 0).closed = true ∧ cc.link.incoming = []
  · rw [if_pos hclosed]
    exact ⟨rfl, rfl, fun link hlink ↦ absurd (mem_openLink.mp hlink).1 Bool.false_ne_true⟩
  · rw [if_neg hclosed]
    exact ⟨rfl, rfl, fun link hlink ↦ (mem_openLink.mp hlink).2.symm⟩

/-- The beginning of a message: the poll waits in vain for the rest and closes the connection, unless not
    even the whole length has come. -/
theorem pollLoop_cutOff {cut : Bytes} (hcut : CutOff cut) (h : cc.link.incoming = cut)
    (harrived : 4 ≤ (arrivals 0).arrived) :
    PollEnds (pollLoop (i + 1) arrivals cc) (·.incoming = []) := by
  have hgot : (cc.link.recv 4).1 = cut.take 4 := by rw [LncLink.recv, h]
  have hrest : (cc.link.recv 4).2.incoming = cut.drop 4 := by rw [LncLink.recv, h]
  by_cases hempty : cut = []
  · have hnone : (cc.link.recv (min 4 (arrivals 0).arrived)).1.length = 0 := by
      rw [LncLink.recv, h, hempty, List.take_nil, List.length_nil]
    have hends := @pollLoop_silent cc i arrivals hnone
    exact { hends with link := fun link hlink ↦ by rw [hends.link link hlink, h, hempty] }
  have hpos := List.length_pos_iff.mpr hempty
  rw [pollLoop, pollOnce]
  dsimp only
  rw [Nat.min_eq_left harrived, hgot, if_neg (by rw [List.length_take]; omega)]
  by_cases hfour : 4 ≤ cut.length
  · obtain ⟨hsome, hfits, hshort⟩ := hcut.length_spelled hfour
    rw [if_neg (by rw [List.length_take]; omega), if_neg (by omega)]
    generalize protocolGetU32 (ofList (cut.take 4) 0) = len at hshort
    have hdata : ((cc.link.recv 4).2.recv (min len (arrivals 0).payloadArrived)).1.length ≠ len := by
      rw [LncLink.recv, hrest, List.length_take, List.length_drop]
      omega
    rw [if_pos hdata]
    exact ⟨rfl, rfl, fun link hlink ↦ absurd (mem_openLink.mp hlink).1 Bool.false_ne_true⟩
  · rw [if_pos (by rw [List.length_take]; omega)]
    refine ⟨rfl, rfl, fun link hlink ↦ ?_⟩
    rw [← (mem_openLink.mp hlink).2]
    exact hrest.trans (List.drop_eq_nil_iff.mpr (by omega))

/-- A message comes too late, and the connection is closed; or it is taken off the link and is worth its
    stores, and the poll goes on. -/
theorem pollLoop_takes {m later : Bytes} (hm : Incoming 256 m)
    (h : cc.link.incoming = tcpMessage m ++ later) (harrived : 4 ≤ (arrivals 0).arrived) :
    PollEnds (pollLoop (i + 1) arrivals cc) (fun _ ↦ False) ∨
      ∃ next read, next.link.incoming = later ∧ pollLoop (i + 1) arrivals cc =
        (pollLoop i (fun i ↦ arrivals (i + 1)) next).after read (messageStores m) := by
  have hpos := hm.pos
  have hfits := hm.fits
  obtain ⟨hfour, hlen, hrest⟩ := recv_head h (by omega)
  rw [pollLoop, pollOnce]
  dsimp only
  rw [Nat.min_eq_left harrived, hlen, if_neg (by omega), if_neg (by omega), if_neg (by omega)]
  by_cases hlate : ((cc.link.recv 4).2.recv (min m.length (arrivals 0).payloadArrived)).1.length ≠
    m.length
  · rw [if_pos hlate]
    exact .inl ⟨rfl, rfl, fun link hlink ↦ absurd (mem_openLink.mp hlink).1 Bool.false_ne_true⟩
  have hall : min m.length (arrivals 0).payloadArrived = m.length := by
    rw [not_not, LncLink.recv, List.length_take] at hlate
    omega
  have hdata : ((cc.link.recv 4).2.recv m.length).1 = m := by
    rw [LncLink.recv, hrest, List.take_left]
  have hleft : ((cc.link.recv 4).2.recv m.length).2.incoming = later := by
    rw [LncLink.recv, hrest, List.drop_left]
  have hbytes : slice (store (arrivals 0).storage 0 m) 0 m.length = m := slice_store _ 0 m
  rw [if_neg hlate, hall, hdata, u16_of_lt (by omega)]
  refine .inr ?_
  let after : CentralComputer := { cc with link := ((cc.link.recv 4).2.recv m.length).2 }
  let read : PrefixRead :=
    { pos := cc.link.taken, got := (cc.link.recv 4).1.length, len := m.length, cap := 256 }
  rcases takeTelemetry_message after hm.wellFormed hbytes with ⟨e, htlv, hworth⟩ | ⟨d, next, htlv, htaken⟩
  · refine ⟨after, read, hleft, ?_⟩
    rw [htlv, hworth]
  · refine ⟨next, read, (congrArg LncLink.incoming (takeTelemetry_link htaken).1).trans hleft, ?_⟩
    rw [htlv]
    dsimp only
    rw [htaken]

theorem pollLoop_storesFront (hwhole : ∀ n, (arrivals n).Whole) (h : cc.link.Carries msgs) :
    (pollLoop i arrivals cc).returned = true ∧
      StoresFront msgs (pollLoop i arrivals cc).cc.openLink (pollLoop i arrivals cc).stores := by
  -- induction on the iterations
  induction i generalizing cc msgs arrivals with
  | zero =>
      refine ⟨rfl, storesFront_nothing fun link hlink ↦ ?_⟩
      rw [← (mem_openLink.mp hlink).2]
      exact h
  | succ i ih =>
      rcases hwhole 0 with hnone | harrived
      · have hsilent : (cc.link.recv (min 4 (arrivals 0).arrived)).1.length = 0 := by
          rw [hnone, LncLink.recv, List.length_take]
          omega
        have hends := @pollLoop_silent cc i arrivals hsilent
        rw [hends.stores]
        exact ⟨hends.returned, storesFront_nothing fun link hlink ↦ by rw [hends.link link hlink]; exact h⟩
      obtain ⟨hmsgs, cut, hcut, hincoming⟩ := h
      cases msgs with
      | nil =>
          have hends := @pollLoop_cutOff cc i arrivals cut hcut hincoming harrived
          rw [hends.stores]
          exact ⟨hends.returned, storesFront_nothing fun link hlink ↦ .ended (hends.link link hlink)⟩
      | cons m msgs =>
          rw [encodeAll_cons, List.append_assoc] at hincoming
          rcases @pollLoop_takes cc i arrivals m _ (hmsgs m List.mem_cons_self) hincoming harrived with
            hends | ⟨next, read, hleft, hout⟩
          · rw [hends.stores]
            exact ⟨hends.returned, storesFront_nothing fun link hlink ↦ (hends.link link hlink).elim⟩
          · obtain ⟨hreturned, hfiles⟩ := @ih next msgs (fun i ↦ arrivals (i + 1))
              (fun n ↦ hwhole (n + 1))
              ⟨fun x hx ↦ hmsgs x (List.mem_cons_of_mem m hx), cut, hcut, hleft⟩
            rw [hout]
            exact ⟨hreturned, hfiles.cons⟩

end Polls

end SubmarineMonitor
