import SubmarineMonitor.Bridge.Downlink
import SubmarineMonitor.Bridge.MainLoop
import SubmarineMonitor.Protocol.FrameWire
import SubmarineMonitor.Protocol.TcpMessage
import SubmarineMonitor.Reasoning.Receiver

/-!
# Sessions — the downlink over successive client sessions

`BridgeServer_Accept`, `BridgeServer_Send`, `BridgeServer_TryRecv` and the client's disconnect come
in any order.  Next to the server's own state a run carries what its messages have to be compared
with: the list the current client sends, the bytes of it that are still unread, and what was
returned.
-/

open Reasoning

namespace SubmarineMonitor

/-! ## 1. Messages on the TCP stream -/

def MessageFits (p : Bytes) : Prop := 1 ≤ p.length ∧ p.length ≤ 256

theorem prefixLen_of_take {l : Bytes} {n : Nat} (hn : n < 4294967296)
    (h : l.take 4 = protocolPutU32 n) : prefixLen l = n := by
  have hlen := congrArg List.length h
  rw [List.length_take, protocolPutU32_length] at hlen
  apply protocolGetU32_of_slice hn
  have hslice := congrArg (List.take 4) (slice_ofList l 0)
  rw [slice_take _ _ (by omega), h] at hslice
  exact hslice

theorem prefixLen_message {p : Bytes} (hp : p.length ≤ 256) (r : Bytes) :
    prefixLen (tcpMessage p ++ r) = p.length :=
  prefixLen_of_take (by omega) (by rw [tcpMessage, List.append_assoc]; rfl)

theorem tcpMessage_prefixFree : PrefixFree tcpMessage MessageFits where
  ne_nil p h := by
    have hlen := congrArg List.length h
    rw [tcpMessage_length, List.length_nil] at hlen
    omega
  inj := by
    intro p q r s hp hq h
    have hlen : p.length = q.length := by
      rw [← prefixLen_message hp.2 r, h, prefixLen_message hq.2 s]
    rw [tcpMessage, tcpMessage, List.append_assoc, List.append_assoc, hlen] at h
    exact List.append_inj (List.append_cancel_left h) hlen

theorem takeMessage_message {p : Bytes} (outBuf : Mem) (r : Bytes) (hp : p.length ≤ 256) :
    takeMessage outBuf 256 (tcpMessage p ++ r) = (p.length, store outBuf 0 p, r) := by
  have hlen := tcpMessage_length p
  have hwait : ¬ ((tcpMessage p ++ r).length < 4 ∨
      (tcpMessage p ++ r).length < u32 (4 + p.length)) := by
    rw [List.length_append, u32_of_lt (by omega)]
    omega
  have hbody : (tcpMessage p ++ r).drop 4 = p ++ r := by
    rw [tcpMessage, List.append_assoc]
    rfl
  have hleft : (tcpMessage p ++ r).drop (4 + p.length) = r := by
    rw [← hlen, List.drop_left]
  rw [takeMessage, prefixLen_message hp, if_neg hwait]
  simp only
  rw [u32_of_lt (by omega), hleft, hbody, Nat.min_eq_left hp, List.take_left]

theorem takeMessage_cut {p l missing : Bytes} (outBuf : Mem) (h : l ++ missing = tcpMessage p)
    (hmissing : missing ≠ []) (hp : p.length ≤ 256) :
    takeMessage outBuf 256 l = (0, outBuf, l) := by
  have hlen := congrArg List.length h
  rw [List.length_append, tcpMessage_length] at hlen
  have hpos := List.length_pos_iff.mpr hmissing
  have hwait : l.length < 4 ∨ l.length < u32 (4 + prefixLen l) := by
    by_cases h4 : l.length < 4
    · exact .inl h4
    · have htake : l.take 4 = protocolPutU32 p.length := by
        have hfront := congrArg (List.take 4) h
        rw [List.take_append_of_le_length (by omega)] at hfront
        rw [hfront]
        rfl
      rw [prefixLen_of_take (by omega) htake, u32_of_lt (by omega)]
      omega
  rw [takeMessage, if_pos hwait]

def takenPayload (count : Nat) (outBuf : Mem) : Option Bytes :=
  if count > 0 then some (slice outBuf 0 count) else none

theorem takeMessage_delivers (outBuf : Mem) (l : Bytes) :
    Delivers tcpMessage MessageFits l
      (takenPayload (takeMessage outBuf 256 l).1 (takeMessage outBuf 256 l).2.1)
      (takeMessage outBuf 256 l).2.2 := by
  refine delivers_of_cut (fun p r hp h ↦ ?_) (fun p missing hp h hmissing ↦ ?_) (fun h ↦ ?_)
  · have hpos := hp.1
    rw [h, takeMessage_message outBuf r hp.2, takenPayload, if_pos (by omega), slice_store]
    exact ⟨rfl, rfl⟩
  · rw [takeMessage_cut outBuf h hmissing hp.2]
    exact ⟨rfl, rfl⟩
  · rw [h]
    exact ⟨rfl, rfl⟩

/-! ## 2. Events -/

structure SessionState where
  server : BridgeServer
  session : List Bytes
  unread : Bytes
  peerClosed : Bool
  returned : List Bytes

inductive SessionEvent
  | accept (fd : Int) (messages : List Bytes)
  | send (data : Bytes) (sentPrefix sentData : Int)
  | tryRecv (stack : DownlinkStack) (outcome : RecvOutcome)
  | disconnect

def sessionStep (w : SessionState) : SessionEvent → SessionState × Option Bytes
  | .accept fd messages =>
      let accepted := bridgeServerAccept w.server fd
      -- a session begins when a client is taken from the queue
      if w.server.clientFd = -1 ∧ accepted.1 = true then
        ({ server := accepted.2, session := messages, unread := encodeAll tcpMessage messages,
           peerClosed := false, returned := [] }, none)
      else ({ w with server := accepted.2 }, none)
  | .send data sentPrefix sentData =>
      ({ w with server := (bridgeServerSend w.server data sentPrefix sentData).1 }, none)
  | .tryRecv stack outcome =>
      let out := bridgeServerTryRecv w.server stack.tcpPayload 256 outcome
      let payload := takenPayload out.count out.outBuf
      ({ w with server := out.server,
                unread := w.unread.drop (bytesRead w.server outcome).length,
                returned := w.returned ++ payload.toList }, payload)
  | .disconnect => ({ w with peerClosed := true }, none)

/-- The client's messages have the sizes the core sends, `recv` returns bytes of the client's stream
    in order, and 0 only after the client has closed. -/
def EventAllowed (w : SessionState) : SessionEvent → Prop
  | .accept _ messages => ∀ p ∈ messages, MessageFits p
  | .send _ _ _ => True
  | .tryRecv _ (.data bytes) => RecvFits w.server (.data bytes) ∧ bytes <+: w.unread
  | .tryRecv _ .closed => w.peerClosed = true
  | .tryRecv _ .error => True
  | .disconnect => True

theorem EventAllowed.recvFits {w : SessionState} {stack : DownlinkStack} {outcome : RecvOutcome}
    (h : EventAllowed w (.tryRecv stack outcome)) : RecvFits w.server outcome := by
  cases outcome with
  | data bytes => exact h.1
  | closed => trivial
  | error => trivial

def SessionState.Initial (w : SessionState) : Prop :=
  (∃ listenFd recvBuf, w.server = bridgeServerInit listenFd recvBuf) ∧ w.session = [] ∧
    w.returned = []

/-! ## 3. The invariant -/

/-- While a client is connected, what it sent and what was not returned yet waits in the accumulator
    or is unread. -/
structure SessionInv (w : SessionState) : Prop where
  len : w.server.recvLen ≤ bridgeRecvBufSize
  fd : w.server.clientFd = -1 ∨ 0 ≤ w.server.clientFd
  sizes : ∀ p ∈ w.session, MessageFits p
  stream : ∃ rest, w.returned ++ rest = w.session ∧
    (0 ≤ w.server.clientFd → w.server.live ++ w.unread = encodeAll tcpMessage rest)

theorem SessionState.Initial.inv {w : SessionState} (h : w.Initial) : SessionInv w := by
  obtain ⟨⟨listenFd, recvBuf, hserver⟩, hsession, hreturned⟩ := h
  refine ⟨?_, ?_, ?_, [], ?_, ?_⟩
  · rw [hserver]
    exact Nat.zero_le _
  · rw [hserver]
    exact .inl rfl
  · rw [hsession]
    exact fun p hp ↦ absurd hp List.not_mem_nil
  · rw [hreturned, hsession]
    rfl
  · rw [hserver]
    intro hfd
    simp only [bridgeServerInit] at hfd
    omega

theorem bytesRead_prefix {w : SessionState} {stack : DownlinkStack} {outcome : RecvOutcome}
    (h : EventAllowed w (.tryRecv stack outcome)) :
    bytesRead w.server outcome ++ w.unread.drop (bytesRead w.server outcome).length = w.unread := by
  apply List.prefix_iff_eq_append.mp
  unfold bytesRead
  split
  · exact List.nil_prefix
  · split
    · cases outcome with
      | data bytes => exact h.2
      | closed => exact List.nil_prefix
      | error => exact List.nil_prefix
    · exact List.nil_prefix

/-- On a client's stream the length prefixes never wrap. -/
theorem prefixLen_of_stream {l unread : Bytes} {bs : List Bytes} (hbs : ∀ p ∈ bs, MessageFits p)
    (h : l ++ unread = encodeAll tcpMessage bs) : l.length < 4 ∨ prefixLen l < 4294967292 := by
  by_cases h4 : l.length < 4
  · exact .inl h4
  refine .inr ?_
  cases bs with
  | nil =>
      rw [(encodeAll_cut_nil h).1, List.length_nil] at h4
      omega
  | cons p bs =>
      have hp := (hbs p List.mem_cons_self).2
      have htake : l.take 4 = protocolPutU32 p.length := by
        have hfront := congrArg (List.take 4) h
        rw [List.take_append_of_le_length (by omega), encodeAll_cons, tcpMessage] at hfront
        rw [hfront, List.append_assoc]
        rfl
      rw [prefixLen_of_take (by omega) htake]
      omega

theorem sessionInv_accept {w : SessionState} {fd : Int} {messages : List Bytes}
    (h : SessionInv w) (hok : EventAllowed w (.accept fd messages)) :
    SessionInv (sessionStep w (.accept fd messages)).1 := by
  simp only [sessionStep]
  rcases bridgeServerAccept_cases w.server fd with ⟨b, haccept, hsame⟩ | ⟨hfree, hfd, haccept⟩
  · rw [haccept, if_neg hsame]
    exact h
  · -- a new session: the accumulator is emptied whatever an earlier one left in it
    rw [haccept, if_pos ⟨hfree, rfl⟩]
    exact ⟨Nat.zero_le _, .inr hfd, hok, messages, rfl, fun _ ↦ rfl⟩

theorem sessionInv_send {w : SessionState} (data : Bytes) (sentPrefix sentData : Int)
    (h : SessionInv w) : SessionInv (sessionStep w (.send data sentPrefix sentData)).1 := by
  obtain ⟨rest, hrest, -⟩ := h.stream
  simp only [sessionStep]
  rcases bridgeServerSend_cases w.server data sentPrefix sentData with hsend | hsend
  · rw [hsend]
    exact h
  · -- the client is gone, so nothing is owed to it
    rw [hsend]
    refine ⟨h.len, .inl rfl, h.sizes, rest, hrest, fun hfd ↦ ?_⟩
    simp only at hfd
    omega

theorem sessionInv_tryRecv {w : SessionState} {stack : DownlinkStack} {outcome : RecvOutcome}
    (h : SessionInv w) (hok : EventAllowed w (.tryRecv stack outcome)) :
    SessionInv (sessionStep w (.tryRecv stack outcome)).1 := by
  obtain ⟨rest, hrest, hstream⟩ := h.stream
  simp only [sessionStep]
  rcases h.fd with hfd | hfd
  · -- no client
    have hnone : w.server.clientFd < 0 := by omega
    have hread : bytesRead w.server outcome = [] := by unfold bytesRead; rw [if_pos hnone]
    simp only [tryRecv_disconnected hnone, hread, List.length_nil, List.drop_zero, takenPayload,
      gt_iff_lt, Nat.lt_irrefl, if_false, Option.toList_none, List.append_nil]
    exact h
  by_cases hclose : SeesClose w.server outcome
  · -- the client has closed
    simp only [tryRecv_closed hfd hclose, takenPayload, gt_iff_lt, Nat.lt_irrefl, if_false,
      Option.toList_none, List.append_nil]
    refine ⟨Nat.zero_le _, .inl rfl, h.sizes, rest, hrest, fun hfd' ↦ ?_⟩
    simp only at hfd'
    omega
  -- the accumulator with what `recv` adds is a piece of the client's stream
  have hrest_sizes : ∀ p ∈ rest, MessageFits p := fun p hp ↦
    h.sizes p (by rw [← hrest]; exact List.mem_append_right _ hp)
  have hreceived : receivedBytes w.server outcome ++
      w.unread.drop (bytesRead w.server outcome).length = encodeAll tcpMessage rest := by
    rw [receivedBytes, List.append_assoc, bytesRead_prefix hok, hstream hfd]
  obtain ⟨htake, hlen, hfd'⟩ := @tryRecv_eq w.server stack.tcpPayload 256 outcome h.len hfd hok.recvFits hclose
    (.inr (prefixLen_of_stream hrest_sizes hreceived))
  obtain ⟨rest', hnext, hleft⟩ := takeMessage_delivers stack.tcpPayload _ rest _ hrest_sizes hreceived
  rw [← htake] at hnext hleft
  refine ⟨hlen, .inr (by rw [hfd']; exact hfd), h.sizes, rest', ?_, fun _ ↦ hleft⟩
  simp only
  rw [List.append_assoc, hnext, hrest]

theorem sessionInv_step (w : SessionState) (e : SessionEvent) (h : SessionInv w)
    (hok : EventAllowed w e) : SessionInv (sessionStep w e).1 := by
  cases e with
  | accept fd messages => exact sessionInv_accept h hok
  | send data sentPrefix sentData => exact sessionInv_send data sentPrefix sentData h
  | tryRecv stack outcome => exact sessionInv_tryRecv h hok
  | disconnect => exact ⟨h.len, h.fd, h.sizes, h.stream⟩

/-! ## 4. Downlink transparency -/

/-- What a call returns is framed into the 600-byte buffer and decodes to itself. -/
theorem downlink_framed {s : BridgeServer} {stack : DownlinkStack} {outcome : RecvOutcome}
    {p : Bytes} (hp : p.length ≤ 256)
    (h : takenPayload (bridgeServerTryRecv s stack.tcpPayload 256 outcome).count
      (bridgeServerTryRecv s stack.tcpPayload 256 outcome).outBuf = some p) :
    let received := bridgeServerTryRecv s stack.tcpPayload 256 outcome
    let enc := frameEncode received.outBuf received.count stack.framed 600 stack.framedLen
    enc.result = .ok ∧
      (downlinkStep s stack outcome).2 = some (slice enc.outBuf 0 enc.outWritten) ∧
      ∀ inBuf, slice inBuf 0 enc.outWritten = slice enc.outBuf 0 enc.outWritten →
        frameDecode inBuf enc.outWritten 256 = .ok p enc.outWritten := by
  intro received enc
  unfold takenPayload at h
  have hcount : received.count > 0 := by
    by_contra hzero
    rw [if_neg hzero] at h
    exact absurd h (by simp)
  rw [if_pos hcount, Option.some.injEq] at h
  have hsize := frameOf_length_le p
  have hge := frameOf_length_ge p
  -- at worst 2 * 256 + 9 bytes, so the encoding cannot fail
  have henc : enc = { result := .ok, outBuf := store stack.framed 0 (frameOf p),
                      outWritten := (frameOf p).length } := by
    have hencode := frameEncode_eq_frameOf received.outBuf received.count stack.framed 600
      stack.framedLen (by decide) (by rw [h]; omega)
    rw [h] at hencode
    exact hencode
  refine ⟨by rw [henc], ?_, fun inBuf hin ↦ ?_⟩
  · unfold downlinkStep
    rw [if_pos hcount]
  · rw [henc] at hin ⊢
    simp only [slice_store] at hin ⊢
    have hparse := @parseFrame_frame 256 [] p [] List.not_mem_nil hp (by omega)
    rw [List.nil_append, List.append_nil, List.length_nil, Nat.zero_add] at hparse
    rw [frameDecode_eq_parseFrame _ _ _ (by omega), hin, hparse]

theorem downlink_transparent {w : SessionState} {es : List SessionEvent} (hw : w.Initial)
    (hok : Allowed sessionStep EventAllowed w es) :
    (∃ rest, (runState sessionStep w es).returned ++ rest = (runState sessionStep w es).session ∧
        (bridgeServerIsConnected (runState sessionStep w es).server = true →
          (runState sessionStep w es).server.live ++ (runState sessionStep w es).unread =
              encodeAll tcpMessage rest ∧
            ∀ other : List Bytes, (∀ p ∈ other, MessageFits p) →
              (runState sessionStep w es).server.live ++ (runState sessionStep w es).unread =
                encodeAll tcpMessage other →
              other = rest)) ∧
      ∀ st ∈ runSteps sessionStep w es, ∀ stack outcome p, st.2 = .tryRecv stack outcome →
        (sessionStep st.1 st.2).2 = some p →
        let received := bridgeServerTryRecv st.1.server stack.tcpPayload 256 outcome
        let enc := frameEncode received.outBuf received.count stack.framed 600 stack.framedLen
        enc.result = .ok ∧
          (downlinkStep st.1.server stack outcome).2 = some (slice enc.outBuf 0 enc.outWritten) ∧
          ∀ inBuf, slice inBuf 0 enc.outWritten = slice enc.outBuf 0 enc.outWritten →
            frameDecode inBuf enc.outWritten 256 = .ok p enc.outWritten := by
  have hinv := run_invariant sessionInv_step hw.inv hok
  constructor
  · obtain ⟨rest, hrest, hstream⟩ := hinv.1.stream
    refine ⟨rest, hrest, fun hconnected ↦ ?_⟩
    have hfd : 0 ≤ (runState sessionStep w es).server.clientFd := by
      rcases hinv.1.fd with hnone | hfd
      · rw [bridgeServerIsConnected, hnone] at hconnected
        exact absurd hconnected (by decide)
      · exact hfd
    have hrest_sizes : ∀ p ∈ rest, MessageFits p := fun p hp ↦
      hinv.1.sizes p (by rw [← hrest]; exact List.mem_append_right _ hp)
    exact ⟨hstream hfd, fun other hother hbytes ↦
      tcpMessage_prefixFree.encodeAll_inj hother hrest_sizes (hbytes.symm.trans (hstream hfd))⟩
  · rintro ⟨st, e⟩ hmem stack outcome p rfl hp
    -- the payload is one of the session's messages, so it fits the frame buffer
    have hafter := sessionInv_step st _ (hinv.2 _ hmem) (hok _ hmem)
    obtain ⟨rest, hrest, -⟩ := hafter.stream
    have hpayload : p ∈ (sessionStep st (.tryRecv stack outcome)).1.returned := by
      have htaken : takenPayload _ _ = some p := hp
      simp only [sessionStep, htaken, Option.toList_some]
      exact List.mem_append_right _ List.mem_cons_self
    have hfits := hafter.sizes p (by rw [← hrest]; exact List.mem_append_left _ hpayload)
    exact downlink_framed hfits.2 hp

def twoSessions : List SessionEvent :=
  [.accept 4 [[0x2A]],
    .tryRecv (uartIteration []).stack (.data [0x00, 0x00, 0x00]),
    .tryRecv (uartIteration []).stack (.data [0x01, 0x2A]),
    .disconnect,
    .tryRecv (uartIteration []).stack .closed,
    .accept 5 [[0x2B], [0x7E]],
    .tryRecv (uartIteration []).stack (.data [0x00, 0x00, 0x00, 0x01, 0x2B, 0x00])]

def sessionStart : SessionState :=
  { server := bridgeStart.server, session := [], unread := [], peerClosed := false, returned := [] }

theorem downlink_transparent_twoSessions :
    ∃ rest, (runState sessionStep sessionStart twoSessions).returned ++ rest =
        (runState sessionStep sessionStart twoSessions).session ∧
      (bridgeServerIsConnected (runState sessionStep sessionStart twoSessions).server = true →
        (runState sessionStep sessionStart twoSessions).server.live ++
              (runState sessionStep sessionStart twoSessions).unread = encodeAll tcpMessage rest ∧
          ∀ other : List Bytes, (∀ p ∈ other, MessageFits p) →
            (runState sessionStep sessionStart twoSessions).server.live ++
                (runState sessionStep sessionStart twoSessions).unread = encodeAll tcpMessage other →
            other = rest) := by
  have hinitial : sessionStart.Initial := ⟨⟨3, fun _ ↦ 0, rfl⟩, rfl, rfl⟩
  have hok : Allowed sessionStep EventAllowed sessionStart twoSessions := by
    simp only [twoSessions, allowed_cons, EventAllowed, RecvFits, MessageFits]
    exact ⟨by decide, by decide +kernel, by decide +kernel, trivial, rfl, by decide,
      by decide +kernel, allowed_nil _ _ _⟩
  exact (downlink_transparent hinitial hok).1

end SubmarineMonitor
