import SubmarineMonitor.Fleet.CentralComputer
import SubmarineMonitor.Protocol.TcpMessage
import SubmarineMonitor.Reasoning.Runs
import SubmarineMonitor.Reasoning.StreamCode

/-!
# LinkAlignment — which reads keep the link on message boundaries

Polls and queries read one connection.  A call that meets only whole prefixes of messages it accepts
leaves the link between two messages; one that takes a part of a prefix, or a prefix whose message it
refuses, leaves it inside a message, and the next call takes other bytes for a length.
-/

open Reasoning

namespace SubmarineMonitor

/-! ## 1. Aligned links -/

section Link

variable (msgs : List Bytes)

def LncLink.Aligned (link : LncLink) : Prop :=
  ∃ before rest, msgs = before ++ rest ∧ link.taken = (encodeAll tcpMessage before).length ∧
    link.incoming = encodeAll tcpMessage rest

def LncLink.Meets (link : LncLink) (m : Bytes) : Prop :=
  ∃ before after, msgs = before ++ m :: after ∧
    link.taken = (encodeAll tcpMessage before).length ∧
    link.incoming = tcpMessage m ++ encodeAll tcpMessage after

/-- The four bytes are the length prefix of a message of the stream, and give its length. -/
def RealPrefix (pos len : Nat) : Prop :=
  ∃ before m after, msgs = before ++ m :: after ∧ pos = (encodeAll tcpMessage before).length ∧
    len = m.length

/-- The read took nothing, or the whole prefix of a message that is not refused. -/
def PrefixRead.Clean (r : PrefixRead) : Prop := r.got = 0 ∨ (r.got = 4 ∧ r.len ≤ r.cap)

def PrefixRead.Real (r : PrefixRead) : Prop := r.got = 4 → RealPrefix msgs r.pos r.len

variable {msgs} {link : LncLink} {m : Bytes}

theorem LncLink.Aligned.cases (h : link.Aligned msgs) :
    link.incoming = [] ∨ ∃ m, link.Meets msgs m := by
  obtain ⟨before, rest, hmsgs, htaken, hin⟩ := h
  cases rest with
  | nil => exact .inl hin
  | cons m after => exact .inr ⟨m, before, after, hmsgs, htaken, hin⟩

theorem LncLink.Meets.mem (h : link.Meets msgs m) : m ∈ msgs := by
  obtain ⟨before, after, rfl, -, -⟩ := h
  exact List.mem_append_right _ List.mem_cons_self

theorem LncLink.Meets.incoming_length (h : link.Meets msgs m) :
    4 + m.length ≤ link.incoming.length := by
  obtain ⟨before, after, -, -, hin⟩ := h
  rw [hin, List.length_append, tcpMessage_length]
  omega

theorem LncLink.Meets.realPrefix (h : link.Meets msgs m) :
    RealPrefix msgs link.taken m.length := by
  obtain ⟨before, after, hmsgs, htaken, -⟩ := h
  exact ⟨before, m, after, hmsgs, htaken, rfl⟩

theorem LncLink.Meets.prefixLen (h : link.Meets msgs m) (hm : m.length < 4294967296) :
    protocolGetU32 (ofList (link.recv 4).1 0) = m.length := by
  obtain ⟨before, after, -, -, hin⟩ := h
  rw [LncLink.recv, hin]
  exact protocolGetU32_message hm _

theorem LncLink.recv_none {n : Nat} (h : (link.recv n).1.length = 0) : (link.recv n).2 = link := by
  have htake : link.incoming.take n = [] := List.length_eq_zero_iff.mp h
  have hdrop : link.incoming.drop n = link.incoming := by
    have hsplit := List.take_append_drop n link.incoming
    rw [htake, List.nil_append] at hsplit
    exact hsplit
  rw [LncLink.recv, htake, hdrop]
  rfl

/-- A part of a message that is taken leaves the link inside it. -/
theorem LncLink.Meets.lost (h : link.Meets msgs m) {n : Nat} (hpos : 0 < n)
    (hn : n < 4 + m.length) : ¬ (link.recv n).2.Aligned msgs := by
  have hlen := h.incoming_length
  obtain ⟨before, after, hmsgs, htaken, -⟩ := h
  rintro ⟨front, rest, hsplit, hfront, -⟩
  -- the bytes taken end inside the message, which is no boundary
  have htotal : (link.recv n).2.taken = (encodeAll tcpMessage before).length + n := by
    rw [LncLink.recv, htaken, List.length_take_of_le (by omega)]
  have hword := tcpMessage_length m
  rw [hmsgs] at hsplit
  exact not_wordBoundary_inside (show _ < (link.recv n).2.taken by omega) (by omega)
    ⟨front, rest, hsplit, hfront⟩

/-- The prefix and then the payload: the link stands behind the message. -/
theorem LncLink.Meets.recv_message (h : link.Meets msgs m) :
    ((link.recv 4).2.recv m.length).1 = m ∧ ((link.recv 4).2.recv m.length).2.Aligned msgs := by
  obtain ⟨before, after, hmsgs, htaken, hin⟩ := h
  have hbody : (link.recv 4).2.incoming = m ++ encodeAll tcpMessage after := by
    rw [LncLink.recv, hin, tcpMessage, List.append_assoc]
    rfl
  have hhead : (link.recv 4).2.taken = (encodeAll tcpMessage before).length + 4 := by
    rw [LncLink.recv, htaken, hin, tcpMessage, List.append_assoc]
    rfl
  have hdata : ((link.recv 4).2.recv m.length).1 = m := by
    rw [LncLink.recv, hbody, List.take_left]
  refine ⟨hdata, before ++ [m], after, by rw [hmsgs, List.append_assoc]; rfl, ?_, ?_⟩
  · rw [encodeAll_append, encodeAll_cons, encodeAll_nil, List.append_nil, List.length_append,
      tcpMessage_length, ← Nat.add_assoc, ← hhead]
    exact congrArg (fun l ↦ (link.recv 4).2.taken + l.length) hdata
  · rw [LncLink.recv, hbody, List.drop_left]

end Link

/-! ## 2. Queries -/

/-- The reads were clean, what they took for lengths were lengths, and the link stands between two
    messages. -/
structure Kept (msgs : List Bytes) (link : LncLink) (reads : List PrefixRead) : Prop where
  aligned : link.Aligned msgs
  clean : ∀ r ∈ reads, r.Clean
  real : ∀ r ∈ reads, r.Real msgs

structure Lost (msgs : List Bytes) (link : LncLink) (reads : List PrefixRead) : Prop where
  inside : ¬ link.Aligned msgs
  unclean : ∃ r ∈ reads, ¬ r.Clean

section Queries

variable {msgs : List Bytes} {link : LncLink} {reads : List PrefixRead}

theorem Kept.append {before : List PrefixRead} {mid : LncLink} (h : Kept msgs mid before)
    (h' : Kept msgs link reads) : Kept msgs link (before ++ reads) where
  aligned := h'.aligned
  clean := List.forall_mem_append.mpr ⟨h.clean, h'.clean⟩
  real := List.forall_mem_append.mpr ⟨h.real, h'.real⟩

theorem Lost.append (before : List PrefixRead) (h : Lost msgs link reads) :
    Lost msgs link (before ++ reads) where
  inside := h.inside
  unclean := by
    obtain ⟨r, hr, hunclean⟩ := h.unclean
    exact ⟨r, List.mem_append_right _ hr, hunclean⟩

theorem kept_of_nothing {r : PrefixRead} (h : link.Aligned msgs) (hgot : r.got = 0) :
    Kept msgs link [r] where
  aligned := h
  clean := List.forall_mem_singleton.mpr (.inl hgot)
  real := List.forall_mem_singleton.mpr fun h4 ↦ by omega

/-- `CcCore_LncRecv` takes a whole message, or finds the end, or refuses a message and returns 0. -/
theorem ccCoreLncRecv_cases (hmsgs : ∀ m ∈ msgs, m.length < 4294967296) (h : link.Aligned msgs)
    (outBuf : Mem) (maxLen : Nat) :
    Kept msgs (ccCoreLncRecv link outBuf maxLen).link [(ccCoreLncRecv link outBuf maxLen).read] ∨
      (Lost msgs (ccCoreLncRecv link outBuf maxLen).link
          [(ccCoreLncRecv link outBuf maxLen).read] ∧
        (ccCoreLncRecv link outBuf maxLen).result = 0) := by
  -- the connection ends here, or a message comes next
  rcases h.cases with hnil | ⟨m, hm⟩
  · have hgot : (link.recv 4).1.length = 0 := by rw [LncLink.recv, hnil]; rfl
    have hshort : (link.recv 4).1.length ≠ 4 := by omega
    rw [ccCoreLncRecv, if_pos hshort]
    dsimp only
    rw [LncLink.recv_none hgot]
    exact .inl (kept_of_nothing h hgot)
  · have hlen := hm.prefixLen (hmsgs m hm.mem)
    have hin := hm.incoming_length
    have hgot : (link.recv 4).1.length = 4 := List.length_take_of_le (by omega)
    rw [ccCoreLncRecv, if_neg (not_not_intro hgot), hlen]
    -- a message over the capacity is refused behind its prefix
    by_cases hlarge : m.length > maxLen
    · rw [if_pos hlarge]
      refine .inr ⟨⟨hm.lost (by decide) (by omega), _, List.mem_singleton_self _, ?_⟩, rfl⟩
      rintro (hzero | hclean)
      · exact absurd (hgot.symm.trans hzero) (by decide)
      · exact absurd hclean.2 (by exact Nat.not_le_of_lt hlarge)
    · have hbody := hm.recv_message
      rw [if_neg hlarge]
      dsimp only
      rw [hbody.1, if_neg (not_not_intro rfl)]
      exact .inl
        { aligned := hbody.2
          clean := List.forall_mem_singleton.mpr (.inr ⟨hgot, Nat.le_of_not_lt hlarge⟩)
          real := List.forall_mem_singleton.mpr fun _ ↦ hm.realPrefix }

theorem lncRecvMessageLoop_cases (hmsgs : ∀ m ∈ msgs, m.length < 4294967296)
    (h : link.Aligned msgs) (storageCap fuel : Nat) (storage : Mem) :
    Kept msgs (lncRecvMessageLoop storageCap fuel link storage).link
        (lncRecvMessageLoop storageCap fuel link storage).reads ∨
      (Lost msgs (lncRecvMessageLoop storageCap fuel link storage).link
          (lncRecvMessageLoop storageCap fuel link storage).reads ∧
        (lncRecvMessageLoop storageCap fuel link storage).result = some none) := by
  induction fuel generalizing link storage with
  | zero =>
      exact .inl { aligned := h, clean := fun r hr ↦ absurd hr List.not_mem_nil
                   real := fun r hr ↦ absurd hr List.not_mem_nil }
  | succ fuel ih =>
      have hr := ccCoreLncRecv_cases hmsgs h storage storageCap
      rw [lncRecvMessageLoop]
      dsimp only
      generalize ccCoreLncRecv link storage storageCap = r at hr ⊢
      by_cases hzero : r.result = 0
      · rw [if_pos hzero]
        exact hr.imp_right fun hlost ↦ ⟨hlost.1, rfl⟩
      · have hkept : Kept msgs r.link [r.read] := hr.resolve_right fun hlost ↦ hzero hlost.2
        -- the loop goes on behind a malformed message and behind telemetry
        have hgoes := (ih hkept.aligned r.outBuf).imp hkept.append fun hlost ↦
          And.intro (hlost.1.append [r.read]) hlost.2
        rw [if_neg hzero]
        cases protocolDecodeTLV r.outBuf r.result with
        | error e => exact hgoes
        | ok d =>
            dsimp only
            cases telemetryHandler d.tag (advance r.outBuf d.valueOff) d.valueLen with
            | none => exact .inl hkept
            | some stores =>
                cases stores with
                | none => exact .inl hkept
                | some stores => exact hgoes

theorem pagedQueryLoop_cases {α : Type} (hmsgs : ∀ m ∈ msgs, m.length < 4294967296)
    (h : link.Aligned msgs) (reqTag respTag recordTag : UInt8) (print : Mem → Nat → Option α)
    (startTime endTime : UInt32) (fuel : Nat) (stack : Nat → PageFrame) (cursor : PageCursor)
    (totalRecords : Nat) :
    let out := pagedQueryLoop reqTag respTag recordTag print startTime endTime fuel stack cursor
      totalRecords link
    Kept msgs out.link out.reads ∨ Lost msgs out.link out.reads := by
  -- induction on the pages; a page that goes on has kept the alignment
  induction fuel generalizing link stack cursor totalRecords with
  | zero =>
      exact .inl { aligned := h, clean := fun r hr ↦ absurd hr List.not_mem_nil
                   real := fun r hr ↦ absurd hr List.not_mem_nil }
  | succ fuel ih =>
      have hr := lncRecvMessageLoop_cases hmsgs h 300 (link.incoming.length + 1) (stack 0).storage
      rw [← ccCoreLncRecvMessage] at hr
      rcases pagedQueryLoop_page reqTag respTag recordTag print startTime endTime fuel stack cursor
        totalRecords link with ⟨printed, total, returned, hout⟩ | ⟨m, printed, next, total, hm, hout⟩
      · dsimp only
        rw [hout]
        exact hr.imp_right And.left
      · have hkept := hr.resolve_right fun hlost ↦ by
          rw [hm] at hlost
          exact absurd hlost.2 (by simp)
        dsimp only
        rw [hout]
        exact (ih hkept.aligned _ next total).imp hkept.append fun hlost ↦ hlost.append _

end Queries

/-! ## 3. Polls -/

structure CallKept (msgs : List Bytes) (out : CallOut) : Prop where
  aligned : out.cc.connected = true → out.cc.link.Aligned msgs
  clean : ∀ r ∈ out.reads, r.Clean
  real : ∀ r ∈ out.reads, r.Real msgs

structure CallLost (msgs : List Bytes) (out : CallOut) : Prop where
  connected : out.cc.connected = true
  lost : Lost msgs out.cc.link out.reads

section Polls

variable {msgs : List Bytes} {cc : CentralComputer} {r : PrefixRead}

theorem Kept.call {out : CallOut} (h : Kept msgs out.cc.link out.reads) : CallKept msgs out where
  aligned _ := h.aligned
  clean := h.clean
  real := h.real

theorem CallKept.after {out : CallOut} (hclean : r.Clean) (hreal : r.Real msgs)
    (stores : List DcaStore) (h : CallKept msgs out) : CallKept msgs (out.after r stores) where
  aligned := h.aligned
  clean := List.forall_mem_cons.mpr ⟨hclean, h.clean⟩
  real := List.forall_mem_cons.mpr ⟨hreal, h.real⟩

theorem CallLost.after {out : CallOut} (stores : List DcaStore) (h : CallLost msgs out) :
    CallLost msgs (out.after r stores) where
  connected := h.connected
  lost := h.lost.append [r]

/-- A disconnected object reads nothing more, wherever its link stands. -/
theorem callKept_disconnect (hclean : r.Clean) (hreal : r.Real msgs) :
    CallKept msgs { cc := cc.disconnect, reads := [r] } where
  aligned h := Bool.noConfusion h
  clean := List.forall_mem_singleton.mpr hclean
  real := List.forall_mem_singleton.mpr hreal

variable {i : Nat} {arrivals : Nat → PollArrival} {m : Bytes}

theorem pollLoop_nothing (h : cc.link.Aligned msgs)
    (hnone : (cc.link.recv (min 4 (arrivals 0).arrived)).1.length = 0) :
    CallKept msgs (pollLoop (i + 1) arrivals cc) := by
  rw [pollLoop, pollOnce]
  dsimp only
  rw [if_pos hnone, LncLink.recv_none hnone]
  by_cases hclosed : (arrivals 0).closed = true ∧ cc.link.incoming = []
  · rw [if_pos hclosed]
    exact callKept_disconnect (.inl hnone) fun hgot ↦
      absurd (hgot.symm.trans hnone) (by decide)
  · rw [if_neg hclosed]
    exact (kept_of_nothing h hnone).call

/-- The bytes of a split prefix are taken and thrown away. -/
theorem pollLoop_part (hcc : cc.connected = true) (hm : cc.link.Meets msgs m)
    (hsome : 0 < (arrivals 0).arrived) (hpart : (arrivals 0).arrived < 4) :
    CallLost msgs (pollLoop (i + 1) arrivals cc) := by
  have hin := hm.incoming_length
  have hgot : (cc.link.recv (min 4 (arrivals 0).arrived)).1.length = (arrivals 0).arrived := by
    rw [LncLink.recv, List.length_take]
    omega
  rw [pollLoop, pollOnce]
  dsimp only
  rw [if_neg (by omega), if_pos (by omega)]
  refine ⟨hcc, hm.lost (by omega) (by omega), _, List.mem_singleton_self _, ?_⟩
  rintro (hzero | hclean)
  · exact absurd (hgot.symm.trans hzero) (by omega)
  · exact absurd (hgot.symm.trans hclean.1) (by omega)

/-- The prefix of a message that does not fit `storage` is taken, its payload is not. -/
theorem pollLoop_refused (hmsgs : ∀ m ∈ msgs, m.length < 4294967296) (hcc : cc.connected = true)
    (hm : cc.link.Meets msgs m) (harrived : 4 ≤ (arrivals 0).arrived) (hlarge : m.length > 256) :
    CallLost msgs (pollLoop (i + 1) arrivals cc) := by
  have hin := hm.incoming_length
  have hgot : (cc.link.recv 4).1.length = 4 := List.length_take_of_le (by omega)
  rw [pollLoop, pollOnce]
  dsimp only
  rw [Nat.min_eq_left harrived, if_neg (by omega), if_neg (by omega),
    hm.prefixLen (hmsgs m hm.mem), if_pos (.inr hlarge)]
  refine ⟨hcc, hm.lost (by decide) (by omega), _, List.mem_singleton_self _, ?_⟩
  rintro (hzero | hclean)
  · exact absurd (hgot.symm.trans hzero) (by decide)
  · exact absurd hclean.2 (by exact Nat.not_le_of_lt hlarge)

/-- A whole prefix of a message that fits: the message is empty, or it comes too late, or it is taken
    and the next iteration starts behind it. -/
theorem pollLoop_message (hmsgs : ∀ m ∈ msgs, m.length < 4294967296)
    (hm : cc.link.Meets msgs m) (harrived : 4 ≤ (arrivals 0).arrived) (hsmall : m.length ≤ 256)
    (hnext : ∀ next : CentralComputer, next.link.Aligned msgs → next.connected = cc.connected →
      CallKept msgs (pollLoop i (fun i ↦ arrivals (i + 1)) next) ∨
        CallLost msgs (pollLoop i (fun i ↦ arrivals (i + 1)) next)) :
    CallKept msgs (pollLoop (i + 1) arrivals cc) ∨
      CallLost msgs (pollLoop (i + 1) arrivals cc) := by
  have hin := hm.incoming_length
  have hgot : (cc.link.recv 4).1.length = 4 := List.length_take_of_le (by omega)
  have hmessage := hm.recv_message
  rw [pollLoop, pollOnce]
  dsimp only
  rw [Nat.min_eq_left harrived, if_neg (by omega), if_neg (by omega),
    hm.prefixLen (hmsgs m hm.mem)]
  generalize hread : PrefixRead.mk cc.link.taken (cc.link.recv 4).1.length m.length 256 = r
  have hclean : r.Clean := by
    rw [← hread]
    exact .inr ⟨hgot, hsmall⟩
  have hreal : r.Real msgs := fun _ ↦ by
    rw [← hread]
    exact hm.realPrefix
  by_cases hempty : m.length = 0 ∨ m.length > 256
  · -- an empty message is its prefix
    rw [if_pos hempty]
    rw [show m.length = 0 by omega] at hmessage
    exact .inl { aligned := fun _ ↦ hmessage.2
                 clean := List.forall_mem_singleton.mpr hclean
                 real := List.forall_mem_singleton.mpr hreal }
  rw [if_neg hempty]
  by_cases hlate :
      ((cc.link.recv 4).2.recv (min m.length (arrivals 0).payloadArrived)).1.length ≠ m.length
  · rw [if_pos hlate]
    exact .inl (callKept_disconnect hclean hreal)
  have hall : min m.length (arrivals 0).payloadArrived = m.length := by
    have hle : ((cc.link.recv 4).2.recv (min m.length (arrivals 0).payloadArrived)).1.length ≤
        min m.length (arrivals 0).payloadArrived := List.length_take_le _ _
    omega
  rw [if_neg hlate, hall, hmessage.1]
  have hgoes : ∀ (next : CentralComputer) stores,
      next.link = ((cc.link.recv 4).2.recv m.length).2 → next.connected = cc.connected →
      CallKept msgs ((pollLoop i (fun i ↦ arrivals (i + 1)) next).after r stores) ∨
        CallLost msgs ((pollLoop i (fun i ↦ arrivals (i + 1)) next).after r stores) :=
    fun next stores hlink hconnected ↦
      (hnext next (hlink ▸ hmessage.2) hconnected).imp
        (fun hkept ↦ hkept.after hclean hreal stores) fun hlost ↦ hlost.after stores
  cases protocolDecodeTLV (store (arrivals 0).storage 0 m) (u16 m.length) with
  | error e => exact hgoes _ [] rfl rfl
  | ok d =>
      dsimp only
      generalize htaken : CentralComputer.takeTelemetry _ d.tag _ d.valueLen = taken
      cases taken with
      | none =>
          exact .inl { aligned := fun _ ↦ hmessage.2
                       clean := List.forall_mem_singleton.mpr hclean
                       real := List.forall_mem_singleton.mpr hreal }
      | some next =>
          have hlink := takeTelemetry_link htaken
          exact hgoes next.1 next.2 hlink.1 hlink.2

/-- A poll ends where it loses the alignment, and it does not disconnect there. -/
theorem pollLoop_cases (hmsgs : ∀ m ∈ msgs, m.length < 4294967296) (hcc : cc.connected = true)
    (h : cc.link.Aligned msgs) (i : Nat) (arrivals : Nat → PollArrival) :
    CallKept msgs (pollLoop i arrivals cc) ∨ CallLost msgs (pollLoop i arrivals cc) := by
  -- induction on the iterations left
  induction i generalizing cc arrivals with
  | zero =>
      exact .inl { aligned := fun _ ↦ h, clean := fun r hr ↦ absurd hr List.not_mem_nil
                   real := fun r hr ↦ absurd hr List.not_mem_nil }
  | succ i ih =>
      by_cases hnone : (cc.link.recv (min 4 (arrivals 0).arrived)).1.length = 0
      · exact .inl (pollLoop_nothing h hnone)
      have hm : ∃ m, cc.link.Meets msgs m := h.cases.resolve_left fun hnil ↦ hnone (by
        rw [LncLink.recv, hnil, List.take_nil, List.length_nil])
      obtain ⟨m, hm⟩ := hm
      have hsome : 0 < (arrivals 0).arrived := by
        have hle := List.length_take_le (min 4 (arrivals 0).arrived) cc.link.incoming
        have hpos : 0 < (cc.link.incoming.take (min 4 (arrivals 0).arrived)).length :=
          Nat.pos_of_ne_zero hnone
        omega
      by_cases hpart : (arrivals 0).arrived < 4
      · exact .inr (pollLoop_part hcc hm hsome hpart)
      by_cases hlarge : m.length > 256
      · exact .inr (pollLoop_refused hmsgs hcc hm (by omega) hlarge)
      · exact pollLoop_message hmsgs hm (by omega) (by omega) fun next halign hconnected ↦
          ih (hconnected.trans hcc) halign _

end Polls

/-! ## 4. Runs -/

/-- What the link owes its caller: four bytes that are taken for a length are the prefix of a
    message, and while the object is connected the next call reads the next message. -/
structure CallAligned (msgs : List Bytes) (out : CallOut) : Prop where
  real : ∀ r ∈ out.reads, r.Real msgs
  ready : out.cc.connected = true → out.cc.link.Aligned msgs

def connectedTo (msgs : List Bytes) : CentralComputer :=
  { connected := true, link := { incoming := encodeAll tcpMessage msgs, taken := 0 }
    haveLatest := false, latest := {} }

section Runs

variable {msgs : List Bytes} {cc : CentralComputer}

theorem query_cases {α : Type} {run : LncLink → QueryOut α}
    (hrun : ∀ link : LncLink, link.Aligned msgs →
      Kept msgs (run link).link (run link).reads ∨ Lost msgs (run link).link (run link).reads)
    (h : cc.connected = true → cc.link.Aligned msgs) :
    CallKept msgs (cc.query run) ∨ CallLost msgs (cc.query run) := by
  unfold CentralComputer.query
  by_cases hcc : cc.connected = true
  · rw [if_pos hcc]
    exact (hrun cc.link (h hcc)).imp (fun hkept ↦ hkept.call) fun hlost ↦ ⟨hcc, hlost⟩
  · rw [if_neg hcc]
    exact .inl { aligned := h, clean := fun r hr ↦ absurd hr List.not_mem_nil
                 real := fun r hr ↦ absurd hr List.not_mem_nil }

theorem call_cases (hmsgs : ∀ m ∈ msgs, m.length < 4294967296)
    (h : cc.connected = true → cc.link.Aligned msgs) (call : CcCall) :
    CallKept msgs (cc.call call) ∨ CallLost msgs (cc.call call) := by
  cases call with
  | poll arrivals =>
      rw [CentralComputer.call, CentralComputer.pollLatestTelemetry]
      by_cases hcc : cc.connected = true
      · rw [if_pos hcc]
        exact pollLoop_cases hmsgs hcc (h hcc) 5 arrivals
      · rw [if_neg hcc]
        exact .inl { aligned := h, clean := fun r hr ↦ absurd hr List.not_mem_nil
                     real := fun r hr ↦ absurd hr List.not_mem_nil }
  | queryMeasurements startTime endTime stack =>
      exact query_cases (fun link hlink ↦ pagedQueryLoop_cases hmsgs hlink _ _ _ _ _ _ _ _ _ _) h
  | queryEvents startTime endTime stack =>
      exact query_cases (fun link hlink ↦ pagedQueryLoop_cases hmsgs hlink _ _ _ _ _ _ _ _ _ _) h

/-- One call: it does its duty exactly when its reads are clean, and then the next one starts as
    well. -/
theorem ccStep_aligned (hmsgs : ∀ m ∈ msgs, m.length < 4294967296) (s : CentralComputer × Bool)
    (call : CcCall) (h : s.1.connected = true → s.1.link.Aligned msgs) :
    (CallAligned msgs (ccStep s call).2 ↔ ∀ r ∈ (ccStep s call).2.reads, r.Clean) ∧
      ((∀ r ∈ (ccStep s call).2.reads, r.Clean) →
        (ccStep s call).1.1.connected = true → (ccStep s call).1.1.link.Aligned msgs) := by
  rw [ccStep]
  by_cases hruns : s.2 = true
  · rw [if_pos hruns]
    rcases call_cases hmsgs h call with hkept | hlost
    · exact ⟨iff_of_true ⟨hkept.real, hkept.aligned⟩ hkept.clean, fun _ ↦ hkept.aligned⟩
    · have hunclean : ¬ ∀ r ∈ (s.1.call call).reads, r.Clean := fun hclean ↦ by
        obtain ⟨r, hr, hnot⟩ := hlost.lost.unclean
        exact hnot (hclean r hr)
      exact ⟨iff_of_false (fun haligned ↦ hlost.lost.inside (haligned.ready hlost.connected))
        hunclean, fun hclean ↦ absurd hclean hunclean⟩
  · rw [if_neg hruns]
    exact ⟨iff_of_true ⟨fun r hr ↦ absurd hr List.not_mem_nil, h⟩
      fun r hr ↦ absurd hr List.not_mem_nil, fun _ ↦ h⟩

/-- The link is aligned through a run exactly when every read of the run is clean. -/
theorem lnc_link_aligned_iff (msgs : List Bytes) (hmsgs : ∀ m ∈ msgs, m.length < 4294967296)
    (calls : List CcCall) :
    (∀ out ∈ runOutputs ccStep (connectedTo msgs, true) calls, CallAligned msgs out) ↔
      ∀ out ∈ runOutputs ccStep (connectedTo msgs, true) calls, ∀ r ∈ out.reads, r.Clean :=
  forall_runOutputs_iff (fun s call h ↦ ccStep_aligned hmsgs s call h) calls
    fun _ ↦ ⟨[], msgs, rfl, rfl, rfl⟩

end Runs

instance (r : PrefixRead) : Decidable r.Clean :=
  inferInstanceAs (Decidable (r.got = 0 ∨ (r.got = 4 ∧ r.len ≤ r.cap)))

/-- A poll that takes a KEEP_ALIVE, and a query that takes an empty message. -/
theorem lnc_link_aligned_keepAlive :
    let msgs : List Bytes := [[0x11, 0, 0], []]
    let calls : List CcCall :=
      [.poll fun i ↦ ⟨if i = 0 then 9 else 0, false, 3, fun _ ↦ 0xAA⟩,
       .queryMeasurements 0 9 fun _ ↦ ⟨fun _ ↦ 1, fun _ ↦ 2, 3, fun _ ↦ 4, 5, fun _ ↦ 6⟩]
    (runState ccStep (connectedTo msgs, true) calls).1.link.taken = 11 ∧
      ∀ out ∈ runOutputs ccStep (connectedTo msgs, true) calls, CallAligned msgs out := by
  intro msgs calls
  have htaken : (runState ccStep (connectedTo msgs, true) calls).1.link.taken = 11 := by decide
  have hclean : ∀ reads ∈ (runOutputs ccStep (connectedTo msgs, true) calls).map CallOut.reads,
      ∀ r ∈ reads, r.Clean := by decide
  refine ⟨htaken, (lnc_link_aligned_iff msgs (by decide) calls).mpr ?_⟩
  exact fun out hout ↦ hclean out.reads (List.mem_map_of_mem hout)

/-- A KEEP_ALIVE whose prefix comes in two halves: the second poll takes the rest of it, and two
    bytes behind it, for a length. -/
theorem lnc_link_misaligned_split :
    let msgs : List Bytes := [[0x11, 0, 0]]
    let calls : List CcCall :=
      [.poll fun _ ↦ ⟨2, false, 0, fun _ ↦ 0⟩, .poll fun _ ↦ ⟨5, false, 0, fun _ ↦ 0⟩]
    ¬ ∀ out ∈ runOutputs ccStep (connectedTo msgs, true) calls, CallAligned msgs out := by
  intro msgs calls haligned
  have hreads : (⟨2, 4, 0x00031100, 256⟩ : PrefixRead) ∈
      ((runOutputs ccStep (connectedTo msgs, true) calls).map CallOut.reads).flatten := by decide
  obtain ⟨reads, hreads, hr⟩ := List.mem_flatten.mp hreads
  obtain ⟨out, hout, rfl⟩ := List.mem_map.mp hreads
  obtain ⟨before, m, after, hmsgs, hpos, -⟩ := (haligned out hout).real _ hr rfl
  cases before with
  | nil => exact absurd hpos (by decide)
  | cons first before =>
      rw [List.cons_append, List.cons.injEq] at hmsgs
      exact absurd hmsgs.2.symm (List.append_ne_nil_of_right_ne_nil _ (List.cons_ne_nil _ _))

end SubmarineMonitor
