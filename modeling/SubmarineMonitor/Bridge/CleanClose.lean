import SubmarineMonitor.Bridge.Sessions

/-!
# CleanClose — the call in which `BridgeServer_TryRecv` sees the client leave

The client sends its messages and closes, and the kernel reports the close behind the last byte.  Each
call hands out one message, so several may still wait when the close is seen.
-/

open Reasoning

namespace SubmarineMonitor

/-- The session has come to its end: the client is connected and has closed in order, all its bytes have
    been read, and the next call sees that. -/
structure AtClose (w : SessionState) : Prop where
  connected : 0 ≤ w.server.clientFd
  closed : w.peerClosed = true
  read : w.unread = []
  sees : SeesClose w.server .closed

theorem encodeAll_tcpMessage_eq_nil {ms : List Bytes} :
    encodeAll tcpMessage ms = [] ↔ ms = [] := by
  constructor
  · intro h
    cases ms with
    | nil => rfl
    | cons m ms =>
        have hlen := congrArg List.length h
        rw [encodeAll_cons, List.length_append, tcpMessage_length, List.length_nil] at hlen
        omega
  · rintro rfl
    rfl

/-- The call that sees the close hands out nothing and drops the client. -/
theorem sessionStep_close {w : SessionState} (h : AtClose w) (stack : DownlinkStack) :
    (sessionStep w (.tryRecv stack .closed)).2 = none ∧
      (sessionStep w (.tryRecv stack .closed)).1.returned = w.returned ∧
      (sessionStep w (.tryRecv stack .closed)).1.session = w.session ∧
      (sessionStep w (.tryRecv stack .closed)).1.server.clientFd = -1 := by
  simp only [sessionStep, tryRecv_closed h.connected h.sees, takenPayload, gt_iff_lt,
    Nat.lt_irrefl, if_false, Option.toList_none, List.append_nil, and_self]

/-- In every run: the payloads that the session's calls have returned, up to and including the one that
    sees the close, are the client's messages exactly when nothing waits in the accumulator in front
    of that call. -/
theorem clean_close_iff {w : SessionState} {es : List SessionEvent} (hw : w.Initial)
    (hok : Allowed sessionStep EventAllowed w es) (hclose : AtClose (runState sessionStep w es))
    (stack : DownlinkStack) :
    (sessionStep (runState sessionStep w es) (.tryRecv stack .closed)).1.returned =
        (runState sessionStep w es).session ↔
      (runState sessionStep w es).server.recvLen = 0 := by
  have hinv := (run_invariant sessionInv_step hw.inv hok).1
  obtain ⟨rest, hrest, hstream⟩ := hinv.stream
  rw [(sessionStep_close hclose stack).2.1]
  -- all that was sent and not returned waits in the accumulator
  have hlive : (runState sessionStep w es).server.live = encodeAll tcpMessage rest := by
    rw [← hstream hclose.connected, hclose.read, List.append_nil]
  rw [← hrest, List.self_eq_append_right, ← encodeAll_tcpMessage_eq_nil, ← hlive,
    ← List.length_eq_zero_iff, BridgeServer.live_length]

/-- A client sends two messages in one piece; after the first is returned, `calls` come, and the client
    leaves. -/
def twoMessages (calls : List SessionEvent) : List SessionEvent :=
  [.accept 4 [[0x2A], [0x2B]],
    .tryRecv (uartIteration []).stack
      (.data [0x00, 0x00, 0x00, 0x01, 0x2A, 0x00, 0x00, 0x00, 0x01, 0x2B])] ++ calls ++ [.disconnect]

-- the second message is fetched before the close is seen
theorem clean_close_both :
    (sessionStep (runState sessionStep sessionStart
        (twoMessages [.tryRecv (uartIteration []).stack .error]))
      (.tryRecv (uartIteration []).stack .closed)).1.returned = [[0x2A], [0x2B]] := by
  have hinitial : sessionStart.Initial := ⟨⟨3, fun _ ↦ 0, rfl⟩, rfl, rfl⟩
  have hok : Allowed sessionStep EventAllowed sessionStart
      (twoMessages [.tryRecv (uartIteration []).stack .error]) := by
    simp only [twoMessages, List.cons_append, List.nil_append, allowed_cons, EventAllowed, RecvFits,
      MessageFits]
    exact ⟨by decide, by decide +kernel, trivial, trivial, allowed_nil _ _ _⟩
  have hclose : AtClose (runState sessionStep sessionStart
      (twoMessages [.tryRecv (uartIteration []).stack .error])) :=
    ⟨by decide +kernel, by decide +kernel, by decide +kernel, by decide +kernel, rfl⟩
  exact (clean_close_iff hinitial hok hclose _).mpr (by decide +kernel)

-- the close is seen while the second message waits, and the message is gone
theorem clean_close_loses_message :
    Allowed sessionStep EventAllowed sessionStart (twoMessages []) ∧
      AtClose (runState sessionStep sessionStart (twoMessages [])) ∧
      (runState sessionStep sessionStart (twoMessages [])).session = [[0x2A], [0x2B]] ∧
      (sessionStep (runState sessionStep sessionStart (twoMessages []))
        (.tryRecv (uartIteration []).stack .closed)).1.returned = [[0x2A]] := by
  have hok : Allowed sessionStep EventAllowed sessionStart (twoMessages []) := by
    simp only [twoMessages, List.cons_append, List.nil_append, allowed_cons, EventAllowed, RecvFits,
      MessageFits]
    exact ⟨by decide, by decide +kernel, trivial, allowed_nil _ _ _⟩
  exact ⟨hok, ⟨by decide +kernel, by decide +kernel, by decide +kernel, by decide +kernel, rfl⟩,
    by decide +kernel, by decide +kernel⟩

end SubmarineMonitor
