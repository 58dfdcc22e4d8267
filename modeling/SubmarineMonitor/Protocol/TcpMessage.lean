import SubmarineMonitor.Protocol.FieldAccess

/-!
# TcpMessage — messages on a TCP link

Every TCP link of the system carries messages behind a four-byte length, and a message is one TLV.
-/

open Reasoning

namespace SubmarineMonitor

def tcpMessage (p : Bytes) : Bytes := protocolPutU32 p.length ++ p

def tlvMessage (tag : UInt8) (value : Bytes) : Bytes :=
  tag :: (protocolPutU16 value.length ++ value)

def Unfinished (l : Bytes) : Prop := l.length < 4 + protocolGetU32 (ofList (l.take 4) 0)

theorem tcpMessage_length (p : Bytes) : (tcpMessage p).length = 4 + p.length := by
  rw [tcpMessage, List.length_append, protocolPutU32_length]

theorem protocolGetU32_front {n : Nat} (hn : n < 4294967296) (part : Bytes) :
    protocolGetU32 (ofList ((protocolPutU32 n ++ part).take 4) 0) = n :=
  protocolGetU32_of_slice hn (slice_ofList (protocolPutU32 n) 0)

theorem protocolGetU32_message {p : Bytes} (hp : p.length < 4294967296) (r : Bytes) :
    protocolGetU32 (ofList ((tcpMessage p ++ r).take 4) 0) = p.length := by
  rw [tcpMessage, List.append_assoc]
  exact protocolGetU32_front hp (p ++ r)

theorem unfinished_of_short {l : Bytes} (h : l.length < 4) : Unfinished l :=
  Nat.lt_of_lt_of_le h (Nat.le_add_right 4 _)

theorem unfinished_part {n : Nat} {part : Bytes} (hn : n < 4294967296) (h : part.length < n) :
    Unfinished (protocolPutU32 n ++ part) := by
  rw [Unfinished, protocolGetU32_front hn, List.length_append, protocolPutU32_length]
  omega

/-- The senders encode into a message buffer and send what was written, behind its length. -/
theorem sendTLV_eq (message : Mem) (messageLen : Nat) (tag : UInt8) {value : Mem}
    {valueLen cap : Nat} {v : Bytes} (hvalue : slice value 0 valueLen = v)
    (hfit : v.length + 3 ≤ cap) (hcap : cap < 65536) :
    protocolPutU32 (protocolEncodeTLV tag value valueLen message 0 cap messageLen).outWritten ++
        slice (protocolEncodeTLV tag value valueLen message 0 cap messageLen).outBuf 0
          (protocolEncodeTLV tag value valueLen message 0 cap messageLen).outWritten =
      tcpMessage (tlvMessage tag v) := by
  have hn := congrArg List.length hvalue
  rw [slice_length] at hn
  let f : Tlv := { tag, value := v, length_lt := by omega }
  have hb := f.bytes_length
  have hv : f.value.length = v.length := rfl
  have hout := @protocolEncodeTLV_tlv f value message valueLen 0 cap messageLen hn hvalue (by omega)
    (by omega)
  have htag : f.tag = tag := rfl
  rw [htag] at hout
  rw [hout]
  dsimp only
  rw [slice_store]
  rfl

end SubmarineMonitor
