import SubmarineMonitor.CentralComputer.Log
import SubmarineMonitor.Protocol.FieldBuf

/-!
# LncLinkClient — the core's end of the TCP link, `lnc_link_client.cpp`

A socket is the bytes that are still to come on the connection and the number of bytes taken from
it.  A blocking `recv` with `MSG_WAITALL` waits for all it asks for and comes back short only when
the connection ends.  Beside its own results each function reports how it read the length prefixes.
-/

open Reasoning

namespace SubmarineMonitor

structure LncLink where
  incoming : Bytes
  taken : Nat
  deriving DecidableEq, Repr

def LncLink.recv (l : LncLink) (n : Nat) : Bytes × LncLink :=
  (l.incoming.take n,
    { incoming := l.incoming.drop n, taken := l.taken + (l.incoming.take n).length })

/-- A `recv` for a length prefix: the position of its first byte on the connection, the number of
    bytes it returned, the length they spell if they are four, and the capacity that length is held
    against. -/
structure PrefixRead where
  pos : Nat
  got : Nat
  len : Nat
  cap : Nat
  deriving DecidableEq, Repr

/-- The return value of `CcCore_LncRecv` with `outBuf` and the socket. -/
structure LncRecvOut where
  link : LncLink
  read : PrefixRead
  outBuf : Mem
  result : Nat

def ccCoreLncRecv (link : LncLink) (outBuf : Mem) (maxLen : Nat) : LncRecvOut :=
  let head := link.recv 4
  let len := protocolGetU32 (ofList head.1 0)
  let read : PrefixRead := { pos := link.taken, got := head.1.length, len, cap := maxLen }
  if head.1.length ≠ 4 then { link := head.2, read, outBuf, result := 0 }
  -- the prefix is taken, the payload stays on the connection
  else if len > maxLen then { link := head.2, read, outBuf, result := 0 }
  else
    let data := head.2.recv len
    let outBuf := store outBuf 0 data.1
    if data.1.length ≠ len then { link := data.2, read, outBuf, result := 0 }
    else { link := data.2, read, outBuf, result := u16 len }

/-- The bytes `CcCore_LncSend` sends; `message` and `messageLen` are its uninitialised variables. -/
def ccCoreLncSend (message : Mem) (messageLen : Nat) (tag : UInt8) (value : Mem) (valueLen : Nat) :
    Bytes :=
  let out := protocolEncodeTLV tag value valueLen message 0 32 messageLen
  protocolPutU32 out.outWritten ++ slice out.outBuf 0 out.outWritten

structure LncMessage where
  tag : UInt8
  value : Mem
  valueLen : Nat

/-- What `CcCore_LncRecvMessage` does: `none` when it does not return, `some none` when it returns
    `false`. -/
structure MessageOut where
  link : LncLink
  reads : List PrefixRead
  handled : List HandlerCall
  stores : List DcaStore
  result : Option (Option LncMessage)

def MessageOut.after (out : MessageOut) (read : PrefixRead) (handled : List HandlerCall)
    (stores : List DcaStore) : MessageOut :=
  { out with
    reads := read :: out.reads
    handled := handled ++ out.handled
    stores := stores ++ out.stores }

def lncRecvMessageLoop (storageCap : Nat) : Nat → LncLink → Mem → MessageOut
  | 0, link, _ => { link, reads := [], handled := [], stores := [], result := none }
  | fuel + 1, link, storage =>
      let r := ccCoreLncRecv link storage storageCap
      if r.result = 0 then
        { link := r.link, reads := [r.read], handled := [], stores := [], result := some none }
      else
        match protocolDecodeTLV r.outBuf r.result with
        -- malformed: the loop goes on with the next message
        | .error _ => (lncRecvMessageLoop storageCap fuel r.link r.outBuf).after r.read [] []
        | .ok d =>
            let value := advance r.outBuf d.valueOff
            let handled : HandlerCall := { tag := d.tag, value := slice value 0 d.valueLen }
            match telemetryHandler d.tag value d.valueLen with
            | none =>
                { link := r.link, reads := [r.read], handled := [handled], stores := []
                  result := none }
            | some none =>
                { link := r.link, reads := [r.read], handled := [], stores := []
                  result := some (some { tag := d.tag, value, valueLen := d.valueLen }) }
            -- telemetry is handled here, and is not what the caller waits for
            | some (some stores) =>
                (lncRecvMessageLoop storageCap fuel r.link r.outBuf).after r.read [handled] stores

/-- Each iteration that goes on takes a prefix from the connection. -/
def ccCoreLncRecvMessage (link : LncLink) (storage : Mem) (storageCap : Nat) : MessageOut :=
  lncRecvMessageLoop storageCap (link.incoming.length + 1) link storage

/-! ## The fuel suffices -/

theorem LncLink.recv_length_le (link : LncLink) (n : Nat) :
    (link.recv n).2.incoming.length ≤ link.incoming.length := by
  rw [LncLink.recv, List.length_drop]
  exact Nat.sub_le _ _

theorem ccCoreLncRecv_shrinks {link : LncLink} {outBuf : Mem} {maxLen : Nat}
    (h : (ccCoreLncRecv link outBuf maxLen).result ≠ 0) :
    (ccCoreLncRecv link outBuf maxLen).link.incoming.length < link.incoming.length := by
  unfold ccCoreLncRecv at h ⊢
  by_cases hhead : (link.recv 4).1.length ≠ 4
  · rw [if_pos hhead] at h
    exact absurd rfl h
  rw [if_neg hhead] at h ⊢
  by_cases hlarge : protocolGetU32 (ofList (link.recv 4).1 0) > maxLen
  · rw [if_pos hlarge] at h
    exact absurd rfl h
  rw [if_neg hlarge] at h ⊢
  have hfour : (link.recv 4).2.incoming.length < link.incoming.length := by
    have hgot : (link.recv 4).1.length = 4 := Decidable.of_not_not hhead
    rw [LncLink.recv, List.length_take] at hgot
    rw [LncLink.recv, List.length_drop]
    omega
  have hdata := (link.recv 4).2.recv_length_le (protocolGetU32 (ofList (link.recv 4).1 0))
  dsimp only
  split
  · exact Nat.lt_of_le_of_lt hdata hfour
  · exact Nat.lt_of_le_of_lt hdata hfour

/-- With more fuel than bytes to come the loop never runs out of it. -/
theorem lncRecvMessageLoop_fuel (storageCap : Nat) {fuel : Nat} {link : LncLink} (storage : Mem)
    (h : link.incoming.length < fuel) (k : Nat) :
    lncRecvMessageLoop storageCap (fuel + k) link storage =
      lncRecvMessageLoop storageCap fuel link storage := by
  -- each iteration that goes on takes at least a prefix from the connection
  induction fuel generalizing link storage with
  | zero => omega
  | succ fuel ih =>
      rw [show fuel + 1 + k = (fuel + k) + 1 by omega, lncRecvMessageLoop, lncRecvMessageLoop]
      dsimp only
      by_cases hzero : (ccCoreLncRecv link storage storageCap).result = 0
      · rw [if_pos hzero, if_pos hzero]
      · have hless := ccCoreLncRecv_shrinks hzero
        rw [if_neg hzero, if_neg hzero, ih _ (by omega)]

/-- A message that is returned has been taken from the connection. -/
theorem lncRecvMessageLoop_shrinks (storageCap : Nat) {fuel : Nat} {link : LncLink} {storage : Mem}
    {m : LncMessage} (h : (lncRecvMessageLoop storageCap fuel link storage).result = some (some m)) :
    (lncRecvMessageLoop storageCap fuel link storage).link.incoming.length <
      link.incoming.length := by
  induction fuel generalizing link storage with
  | zero => exact absurd h (by simp [lncRecvMessageLoop])
  | succ fuel ih =>
      rw [lncRecvMessageLoop] at h ⊢
      dsimp only at h ⊢
      by_cases hzero : (ccCoreLncRecv link storage storageCap).result = 0
      · rw [if_pos hzero] at h
        exact absurd h (by simp)
      have hless := ccCoreLncRecv_shrinks hzero
      rw [if_neg hzero] at h ⊢
      generalize ccCoreLncRecv link storage storageCap = r at h hless ⊢
      cases hdecode : protocolDecodeTLV r.outBuf r.result with
      | error e =>
          rw [hdecode] at h
          exact Nat.lt_trans (ih h) hless
      | ok d =>
          rw [hdecode] at h
          dsimp only at h ⊢
          cases hhandler : telemetryHandler d.tag (advance r.outBuf d.valueOff) d.valueLen with
          | none =>
              rw [hhandler] at h
              exact absurd h (by simp)
          | some stores =>
              rw [hhandler] at h
              cases stores with
              | none => exact hless
              | some stores => exact Nat.lt_trans (ih h) hless

end SubmarineMonitor
