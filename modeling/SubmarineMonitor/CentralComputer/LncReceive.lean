import SubmarineMonitor.CentralComputer.Telemetry
import SubmarineMonitor.Reasoning.StreamCode

/-!
# LncReceive — what one call of `CcCore_LncRecvMessage` consumes

The messages that are still to come on the connection split at the first reply: the telemetry in
front of it is stored, the reply is returned, and the messages behind it stay on the connection.
-/

open Reasoning

namespace SubmarineMonitor

/-! ## 1. The law of a call -/

def Returns (m : Bytes) (result : Option (Option LncMessage)) : Prop :=
  ∃ d v, decodeMessage m = some d ∧ slice v 0 d.rest.length = d.rest ∧
    result = some (some { tag := d.tag, value := v, valueLen := d.len })

inductive Receives : List Bytes → MessageOut → Prop
  | reply {front later : List Bytes} {m : Bytes} {out : MessageOut}
      (hfront : ∀ x ∈ front, ¬ IsReply x) (hm : IsReply m)
      (hhandled : out.handled = front.flatMap handlerCalls)
      (hstores : out.stores = front.flatMap messageStores) (hresult : Returns m out.result)
      (hleft : out.link.incoming = encodeAll tcpMessage later) :
      Receives (front ++ m :: later) out
  | ended {msgs : List Bytes} {out : MessageOut} (hall : ∀ x ∈ msgs, ¬ IsReply x)
      (hhandled : out.handled = msgs.flatMap handlerCalls)
      (hstores : out.stores = msgs.flatMap messageStores) (hresult : out.result = some none)
      (hleft : out.link.incoming = []) : Receives msgs out

structure Incoming (storageCap : Nat) (m : Bytes) : Prop where
  pos : 0 < m.length
  fits : m.length ≤ storageCap
  wellFormed : WellFormedMessage m

/-! ## 2. One message -/

section Recv

variable {link : LncLink} {m later : Bytes} {maxLen : Nat}

theorem recv_head (h : link.incoming = tcpMessage m ++ later) (hm : m.length < 4294967296) :
    (link.recv 4).1.length = 4 ∧ protocolGetU32 (ofList (link.recv 4).1 0) = m.length ∧
      (link.recv 4).2.incoming = m ++ later := by
  have hlen := tcpMessage_length m
  refine ⟨?_, ?_, ?_⟩
  · rw [LncLink.recv, h, List.length_take, List.length_append]
    omega
  · rw [LncLink.recv, h]
    exact protocolGetU32_message hm later
  · rw [LncLink.recv, h, tcpMessage, List.append_assoc]
    rfl

theorem ccCoreLncRecv_message (outBuf : Mem) (h : link.incoming = tcpMessage m ++ later)
    (hfits : m.length ≤ maxLen) (hmax : maxLen ≤ 65535) :
    (ccCoreLncRecv link outBuf maxLen).link.incoming = later ∧
      (ccCoreLncRecv link outBuf maxLen).outBuf = store outBuf 0 m ∧
      (ccCoreLncRecv link outBuf maxLen).result = m.length := by
  obtain ⟨hfour, hlen, hrest⟩ := recv_head h (by omega)
  have hdata : ((link.recv 4).2.recv m.length).1 = m := by
    rw [LncLink.recv, hrest, List.take_left]
  have hleft : ((link.recv 4).2.recv m.length).2.incoming = later := by
    rw [LncLink.recv, hrest, List.drop_left]
  have hsmall : ¬ m.length > maxLen := by omega
  rw [ccCoreLncRecv, if_neg (not_not_intro hfour), hlen, if_neg hsmall]
  dsimp only
  rw [hdata, if_neg (not_not_intro rfl)]
  exact ⟨hleft, rfl, u16_of_lt (by omega)⟩

theorem ccCoreLncRecv_ended (outBuf : Mem) (h : link.incoming = []) :
    (ccCoreLncRecv link outBuf maxLen).link.incoming = [] ∧
      (ccCoreLncRecv link outBuf maxLen).result = 0 := by
  have hshort : (link.recv 4).1.length ≠ 4 := by
    rw [LncLink.recv, h]
    exact Nat.zero_ne_add_one 3
  rw [ccCoreLncRecv, if_pos hshort]
  exact ⟨by rw [LncLink.recv, h]; rfl, rfl⟩

end Recv

/-! ## 3. The loop -/

theorem Receives.after {m : Bytes} {msgs : List Bytes} {out : MessageOut} (h : Receives msgs out)
    (hm : ¬ IsReply m) (read : PrefixRead) :
    Receives (m :: msgs) (out.after read (handlerCalls m) (messageStores m)) := by
  have hmore : ∀ {α : Type} {of : Bytes → List α} {l : List Bytes} {xs : List α},
      xs = l.flatMap of → of m ++ xs = (m :: l).flatMap of := by
    intro α of l xs hxs
    rw [List.flatMap_cons, hxs]
  cases h with
  | @reply front later reply out hfront hreply hhandled hstores hresult hleft =>
      exact @Receives.reply (m :: front) later reply _ (List.forall_mem_cons.mpr ⟨hm, hfront⟩) hreply
        (hmore hhandled) (hmore hstores) hresult hleft
  | ended hall hhandled hstores hresult hleft =>
      exact .ended (List.forall_mem_cons.mpr ⟨hm, hall⟩) (hmore hhandled) (hmore hstores) hresult
        hleft

theorem rejected_worth {m : Bytes} (h : decodeMessage m = none) :
    handlerCalls m = [] ∧ messageStores m = [] := by
  rw [handlerCalls, messageStores, h]
  exact ⟨rfl, rfl⟩

theorem reply_worth {m : Bytes} (h : IsReply m) : handlerCalls m = [] ∧ messageStores m = [] := by
  obtain ⟨d, hd, ht⟩ := h
  have hother := not_or.mp ht
  rw [handlerCalls, messageStores, hd]
  dsimp only
  rw [if_neg ht, if_neg hother.1, if_neg hother.2]
  exact ⟨rfl, rfl⟩

section Loop

variable {storageCap : Nat} {link : LncLink} {m rest : Bytes}

/-- The loop goes on behind telemetry, and behind a message that is rejected. -/
theorem lncRecvMessageLoop_passes (hcap : storageCap ≤ 65535) (hm : Incoming storageCap m)
    (hnot : ¬ IsReply m) (h : link.incoming = tcpMessage m ++ rest) (storage : Mem) :
    ∃ next storage' read, next.incoming = rest ∧ ∀ fuel,
      lncRecvMessageLoop storageCap (fuel + 1) link storage =
        (lncRecvMessageLoop storageCap fuel next storage').after read (handlerCalls m)
          (messageStores m) := by
  have hpos := hm.pos
  obtain ⟨hleft, hbuf, hresult⟩ := ccCoreLncRecv_message storage h hm.fits hcap
  have hbytes : slice (store storage 0 m) 0 m.length = m := slice_store storage 0 m
  refine ⟨_, store storage 0 m, (ccCoreLncRecv link storage storageCap).read, hleft, fun fuel ↦ ?_⟩
  rw [lncRecvMessageLoop]
  dsimp only
  rw [hbuf, hresult, if_neg (by omega)]
  cases hdecode : decodeMessage m with
  | none =>
      rw [protocolDecodeTLV_rejects hbytes hdecode, (rejected_worth hdecode).1,
        (rejected_worth hdecode).2]
  | some d =>
      have ht : d.IsTelemetry := by
        by_contra hother
        exact hnot ⟨d, hdecode, hother⟩
      obtain ⟨hhandler, hcall⟩ := telemetryHandler_telemetry hbytes hm.wellFormed hdecode ht
      rw [(protocolDecodeTLV_accepts hbytes hdecode).1]
      dsimp only
      rw [hhandler, hcall]

theorem lncRecvMessageLoop_returns (hcap : storageCap ≤ 65535) (hm : Incoming storageCap m)
    (hreply : IsReply m) (h : link.incoming = tcpMessage m ++ rest) (storage : Mem) (fuel : Nat) :
    let out := lncRecvMessageLoop storageCap (fuel + 1) link storage
    out.link.incoming = rest ∧ out.handled = [] ∧ out.stores = [] ∧ Returns m out.result := by
  have hpos := hm.pos
  obtain ⟨hleft, hbuf, hresult⟩ := ccCoreLncRecv_message storage h hm.fits hcap
  have hbytes : slice (store storage 0 m) 0 m.length = m := slice_store storage 0 m
  obtain ⟨d, hdecode, ht⟩ := hreply
  obtain ⟨htlv, hvalue, -, -⟩ := protocolDecodeTLV_accepts hbytes hdecode
  rw [lncRecvMessageLoop]
  dsimp only
  rw [hbuf, hresult, if_neg (by omega), htlv]
  dsimp only
  rw [telemetryHandler_reply ht]
  exact ⟨hleft, rfl, rfl, d, _, hdecode, hvalue, rfl⟩

end Loop

theorem lncRecvMessageLoop_receives {storageCap fuel : Nat} {msgs : List Bytes}
    (hcap : storageCap ≤ 65535) (hmsgs : ∀ m ∈ msgs, Incoming storageCap m)
    (hfuel : msgs.length < fuel) (link : LncLink) (storage : Mem)
    (h : link.incoming = encodeAll tcpMessage msgs) :
    Receives msgs (lncRecvMessageLoop storageCap fuel link storage) := by
  -- induction on the messages that are still to come
  induction msgs generalizing fuel link storage with
  | nil =>
      cases fuel with
      | zero => omega
      | succ fuel =>
          obtain ⟨hleft, hzero⟩ := @ccCoreLncRecv_ended link storageCap storage h
          rw [lncRecvMessageLoop]
          dsimp only
          rw [if_pos hzero]
          exact .ended (fun x hx ↦ absurd hx List.not_mem_nil) rfl rfl rfl hleft
  | cons m msgs ih =>
      cases fuel with
      | zero => omega
      | succ fuel =>
          have hm := hmsgs m List.mem_cons_self
          by_cases hreply : IsReply m
          · obtain ⟨hleft, hhandled, hstores, hresult⟩ :=
              lncRecvMessageLoop_returns hcap hm hreply h storage fuel
            exact @Receives.reply [] msgs m _ (fun x hx ↦ absurd hx List.not_mem_nil) hreply hhandled
              hstores hresult hleft
          · obtain ⟨next, storage', read, hleft, hstep⟩ :=
              lncRecvMessageLoop_passes hcap hm hreply h storage
            rw [hstep fuel]
            exact (ih (fun x hx ↦ hmsgs x (List.mem_cons_of_mem m hx))
              (Nat.lt_of_succ_lt_succ hfuel) next storage' hleft).after hreply read

theorem tcpMessages_length_ge (msgs : List Bytes) :
    msgs.length ≤ (encodeAll tcpMessage msgs).length := by
  induction msgs with
  | nil => exact Nat.zero_le _
  | cons m msgs ih =>
      have hm := tcpMessage_length m
      rw [encodeAll_cons, List.length_append, List.length_cons]
      omega

theorem ccCoreLncRecvMessage_receives {storageCap : Nat} {msgs : List Bytes}
    (hcap : storageCap ≤ 65535) (hmsgs : ∀ m ∈ msgs, Incoming storageCap m) (link : LncLink)
    (storage : Mem) (h : link.incoming = encodeAll tcpMessage msgs) :
    Receives msgs (ccCoreLncRecvMessage link storage storageCap) := by
  have hge := tcpMessages_length_ge msgs
  apply lncRecvMessageLoop_receives hcap hmsgs ?_ link storage h
  rw [h]
  omega

theorem lncRecvMessageLoop_upTo {storageCap fuel : Nat} {front : List Bytes} {m tail : Bytes}
    (hcap : storageCap ≤ 65535) (hfront : ∀ x ∈ front, Incoming storageCap x ∧ ¬ IsReply x)
    (hm : Incoming storageCap m) (hreply : IsReply m) (hfuel : front.length < fuel) (link : LncLink)
    (storage : Mem) (h : link.incoming = encodeAll tcpMessage front ++ (tcpMessage m ++ tail)) :
    let out := lncRecvMessageLoop storageCap fuel link storage
    out.link.incoming = tail ∧ out.handled = front.flatMap handlerCalls ∧
      out.stores = front.flatMap messageStores ∧ Returns m out.result := by
  -- induction on the messages in front of the reply
  induction front generalizing fuel link storage with
  | nil =>
      cases fuel with
      | zero => omega
      | succ fuel => exact lncRecvMessageLoop_returns hcap hm hreply h storage fuel
  | cons x front ih =>
      cases fuel with
      | zero => omega
      | succ fuel =>
          rw [encodeAll_cons, List.append_assoc] at h
          obtain ⟨hx, hnot⟩ := hfront x List.mem_cons_self
          obtain ⟨next, storage', read, hleft, hstep⟩ :=
            lncRecvMessageLoop_passes hcap hx hnot h storage
          obtain ⟨htail, hhandled, hstores, hresult⟩ :=
            ih (fun y hy ↦ hfront y (List.mem_cons_of_mem x hy)) (Nat.lt_of_succ_lt_succ hfuel) next
              storage' hleft
          rw [hstep fuel, MessageOut.after]
          dsimp only
          rw [hhandled, hstores, List.flatMap_cons, List.flatMap_cons]
          exact ⟨htail, rfl, rfl, hresult⟩

theorem ccCoreLncRecvMessage_upTo {storageCap : Nat} {front : List Bytes} {m tail : Bytes}
    (hcap : storageCap ≤ 65535) (hfront : ∀ x ∈ front, Incoming storageCap x ∧ ¬ IsReply x)
    (hm : Incoming storageCap m) (hreply : IsReply m) (link : LncLink) (storage : Mem)
    (h : link.incoming = encodeAll tcpMessage front ++ (tcpMessage m ++ tail)) :
    let out := ccCoreLncRecvMessage link storage storageCap
    out.link.incoming = tail ∧ out.handled = front.flatMap handlerCalls ∧
      out.stores = front.flatMap messageStores ∧ Returns m out.result := by
  have hge := tcpMessages_length_ge front
  apply lncRecvMessageLoop_upTo hcap hfront hm hreply ?_ link storage h
  rw [h, List.length_append]
  omega

/-! ## 4. What a caller consumes -/

/-- The handler calls and the store calls of what was consumed, in order; the rest is still to come. -/
def Consumes (msgs : List Bytes) (link : LncLink) (handled : List HandlerCall)
    (stores : List DcaStore) : Prop :=
  ∃ consumed unread, msgs = consumed ++ unread ∧ link.incoming = encodeAll tcpMessage unread ∧
    handled = consumed.flatMap handlerCalls ∧ stores = consumed.flatMap messageStores

section Consume

variable {msgs : List Bytes} {link : LncLink}

theorem consumes_nothing (h : link.incoming = encodeAll tcpMessage msgs) :
    Consumes msgs link [] [] := ⟨[], msgs, rfl, h, rfl, rfl⟩

theorem Receives.consumes {out : MessageOut} (h : Receives msgs out) :
    Consumes msgs out.link out.handled out.stores := by
  cases h with
  | @reply front later m out hfront hm hhandled hstores hresult hleft =>
      refine ⟨front ++ [m], later, by rw [List.append_assoc]; rfl, hleft, ?_, ?_⟩
      · rw [List.flatMap_append, List.flatMap_singleton, (reply_worth hm).1, List.append_nil,
          hhandled]
      · rw [List.flatMap_append, List.flatMap_singleton, (reply_worth hm).2, List.append_nil,
          hstores]
  | ended hall hhandled hstores hresult hleft =>
      exact ⟨msgs, [], by rw [List.append_nil], hleft, hhandled, hstores⟩

theorem Consumes.trans {mid : LncLink} {handled handled' : List HandlerCall}
    {stores stores' : List DcaStore} (h : Consumes msgs mid handled stores)
    (hnext : ∀ unread, (∀ m ∈ unread, m ∈ msgs) → mid.incoming = encodeAll tcpMessage unread →
      Consumes unread link handled' stores') :
    Consumes msgs link (handled ++ handled') (stores ++ stores') := by
  obtain ⟨consumed, unread, rfl, hmid, rfl, rfl⟩ := h
  obtain ⟨more, left, rfl, hleft, rfl, rfl⟩ :=
    hnext unread (fun m hm ↦ List.mem_append_right _ hm) hmid
  exact ⟨consumed ++ more, left, by rw [List.append_assoc], hleft, by rw [List.flatMap_append],
    by rw [List.flatMap_append]⟩

end Consume

end SubmarineMonitor
