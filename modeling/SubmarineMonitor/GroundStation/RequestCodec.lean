import SubmarineMonitor.CentralComputer.CommGs
import SubmarineMonitor.GroundStation.GsQueries
import SubmarineMonitor.Protocol.Lookup
import SubmarineMonitor.Protocol.TcpMessage

/-!
# RequestCodec — requests built by the ground station and parsed by the core

A request is three TLVs in an 80-byte payload.  With a submarine ID of up to 63 bytes they fit and
the core parses the request back.  With a longer one an encoding fails that nobody looks at, or the
length of the ID wraps, and the request is not parsed back (`gs_requests_parsed_back_iff`).
-/

open Reasoning

namespace SubmarineMonitor

/-! ## 1. Definitions -/

/-- Nothing is sent; or the payload lies in its buffer, none of it is what the buffer held before,
    and the core takes the request apart as it was made. -/
def ParsedBack (sends : RequestFrame → Bytes → UInt32 → UInt32 → Bytes) (reqTag : UInt8)
    (frame : RequestFrame) (submarineId : Bytes) (start stop : UInt32) : Prop :=
  let b := requestPayload frame submarineId start stop
  sends frame submarineId start stop = [] ∨
    (b.len ≤ 80 ∧
      (∀ payload, slice (requestPayload { frame with payload } submarineId start stop).buf 0 b.len =
        slice b.buf 0 b.len) ∧
      ∀ storage, ∃ m rest,
        commGsRecvMessage storage 512 (sends frame submarineId start stop) = some (m, rest) ∧
          m.tag = reqTag ∧
          parseGsRangeRequest m.value m.valueLen = some (some { submarineId, start, stop }))

def rangeRequestTlvs (submarineId : Tlv) (start stop : UInt32) : List Tlv :=
  [submarineId, u32Tlv protoFieldTimeRangeStart start, u32Tlv protoFieldTimeRangeEnd stop]

/-! ## 2. The message -/

theorem gsSend_tlv (message : Mem) (messageLen : Nat) (tag : UInt8) {value : Mem} {valueLen : Nat}
    {v : Bytes} (hvalue : slice value 0 valueLen = v) (hlen : v.length ≤ 125) :
    gsSend message messageLen tag value valueLen = tcpMessage (tlvMessage tag v) :=
  sendTLV_eq message messageLen tag hvalue (by omega) (by decide)

theorem commGsRecvMessage_tlv (storage : Mem) {storageCap : Nat} {tag : UInt8} {v : Bytes}
    (hfits : v.length + 3 ≤ storageCap) (hcap : storageCap ≤ 65535) :
    ∃ m rest, commGsRecvMessage storage storageCap (tcpMessage (tlvMessage tag v)) = some (m, rest) ∧
      m.tag = tag ∧ m.valueLen = v.length ∧ slice m.value 0 v.length = v := by
  let f : Tlv := { tag, value := v, length_lt := by omega }
  have hmessage : tlvMessage tag v = f.bytes := rfl
  have hb : f.bytes.length = 3 + v.length := f.bytes_length
  have hlength := tcpMessage_length f.bytes
  have hrest : (tcpMessage f.bytes).drop 4 = f.bytes := rfl
  have hprefix : protocolGetU32 (ofList ((tcpMessage f.bytes).take 4) 0) = f.bytes.length := by
    have hget := @protocolGetU32_message f.bytes (by omega) []
    rwa [List.append_nil] at hget
  have hbytes : slice (store storage 0 f.bytes) 0 f.bytes.length = f.bytes ++ [] := by
    rw [slice_store, List.append_nil]
  have hdecode := protocolDecodeTLV_tlv f hbytes (by omega)
  have hvalue := (slice_tlv hbytes).1
  rw [hmessage, commGsRecvMessage, if_neg (by omega), hprefix, hrest]
  dsimp only
  rw [if_neg (by omega), if_neg (by omega), List.take_length, u16_of_lt (by omega), hdecode]
  refine ⟨_, _, rfl, rfl, rfl, ?_⟩
  rw [slice_advance]
  exact hvalue

/-- While the payload lies in its buffer, what is parsed is the payload. -/
theorem sendRequest_received {reqTag : UInt8} {frame : RequestFrame} {submarineId : Bytes}
    {start stop : UInt32} (hlen : (requestPayload frame submarineId start stop).len ≤ 80)
    (storage : Mem) :
    ∃ m rest, commGsRecvMessage storage 512 (sendRequest reqTag frame submarineId start stop) =
        some (m, rest) ∧ m.tag = reqTag ∧
      m.valueLen = (requestPayload frame submarineId start stop).len ∧
      slice m.value 0 m.valueLen = slice (requestPayload frame submarineId start stop).buf 0
        (requestPayload frame submarineId start stop).len := by
  have hsend := @gsSend_tlv frame.message frame.messageLen reqTag
    (requestPayload frame submarineId start stop).buf
    (requestPayload frame submarineId start stop).len _ rfl (by rw [slice_length]; omega)
  obtain ⟨m, rest, hrecv, htag, hvalueLen, hvalue⟩ := @commGsRecvMessage_tlv storage 512 reqTag
    (slice (requestPayload frame submarineId start stop).buf 0
      (requestPayload frame submarineId start stop).len)
    (by rw [slice_length]; omega) (by decide)
  rw [slice_length] at hvalueLen hvalue
  exact ⟨m, rest, by rw [sendRequest, hsend, hrecv], htag, hvalueLen, by rw [hvalueLen, hvalue]⟩

/-! ## 3. An ID that fits -/

section Fits

variable {value : Mem} {valueLen : Nat}

theorem findTime_mem {fs : List Tlv} {tag : UInt8} {n : UInt32} (hlen : valueLen ≤ 65535)
    (hx : slice value 0 valueLen = tlvBytes fs) (htags : (fs.map Tlv.tag).Nodup)
    (hmem : u32Tlv tag n ∈ fs) : findTime value valueLen tag = some (some n) := by
  obtain ⟨f, hfound, hflen, hslice⟩ := findField_mem hlen hx htags hmem
  have hfour : (u32Tlv tag n).value.length = 4 := protocolPutU32_length _
  have htag : (u32Tlv tag n).tag = tag := rfl
  have hget : getU32 (advance value f.off) = n := by
    apply getU32_of_slice
    rw [slice_advance, Nat.add_zero, ← hfour, ← hflen]
    exact hslice
  rw [htag] at hfound
  rw [findTime, hfound]
  dsimp only
  rw [if_neg (by omega), hget]

theorem parseGsRangeRequest_tlvs {id : Tlv} {start stop : UInt32}
    (hid : id.tag = protoFieldSubmarineId) (hlen : valueLen ≤ 65535)
    (hx : slice value 0 valueLen = tlvBytes (rangeRequestTlvs id start stop)) :
    parseGsRangeRequest value valueLen = some (some { submarineId := id.value, start, stop }) := by
  have htags : ((rangeRequestTlvs id start stop).map Tlv.tag).Nodup := by
    rw [rangeRequestTlvs, List.map_cons, hid]
    show [protoFieldSubmarineId, protoFieldTimeRangeStart, protoFieldTimeRangeEnd].Nodup
    decide
  have hstart : u32Tlv protoFieldTimeRangeStart start ∈ rangeRequestTlvs id start stop :=
    List.mem_cons_of_mem _ List.mem_cons_self
  have hstop : u32Tlv protoFieldTimeRangeEnd stop ∈ rangeRequestTlvs id start stop :=
    List.mem_cons_of_mem _ (List.mem_cons_of_mem _ List.mem_cons_self)
  obtain ⟨f, hfound, -, hslice⟩ := findField_mem hlen hx htags List.mem_cons_self
  rw [hid] at hfound
  rw [parseGsRangeRequest, hfound]
  dsimp only
  rw [findTime_mem hlen hx htags hstart, findTime_mem hlen hx htags hstop]
  dsimp only
  rw [hslice]

end Fits

section Payload

variable {submarineId : Bytes}

theorem requestPayload_holds (frame : RequestFrame) (start stop : UInt32)
    (h : submarineId.length ≤ 63) :
    (requestPayload frame submarineId start stop).Holds
      (rangeRequestTlvs { tag := protoFieldSubmarineId, value := submarineId,
                          length_lt := by omega } start stop) := by
  let id : Tlv := { tag := protoFieldSubmarineId, value := submarineId, length_lt := by omega }
  have hid : id.bytes.length = 3 + submarineId.length := id.bytes_length
  have hlen : u16 submarineId.length = id.value.length := u16_of_lt id.length_lt
  let b : FieldBuf :=
    { buf := frame.payload, valueBuf := frame.valueBuf, written := frame.written }
  have hempty : b.Holds [] := { len_eq := rfl, bytes := rfl, ok := rfl }
  have hfirst := hempty.encodeNext id hlen
    (by rw [hlen]; exact slice_ofList submarineId 0) (show 0 + _ ≤ 80 by omega) (by decide)
  have hone : (tlvBytes ([] ++ [id])).length = 3 + submarineId.length := by
    rw [List.nil_append, tlvBytes_cons, tlvBytes_nil, List.append_nil, hid]
  exact hfirst.encodeFields [u32Tlv protoFieldTimeRangeStart start,
    u32Tlv protoFieldTimeRangeEnd stop] (show _ + 14 ≤ 80 by omega) (by decide)

theorem parsedBack_of_le (reqTag : UInt8) (frame : RequestFrame) (start stop : UInt32)
    (h : submarineId.length ≤ 63) :
    ParsedBack (sendRequest reqTag) reqTag frame submarineId start stop := by
  have hholds := fun frame ↦ requestPayload_holds frame start stop h
  have hlen : (requestPayload frame submarineId start stop).len ≤ 80 := by
    rw [(hholds frame).len_eq, rangeRequestTlvs, tlvBytes_cons, List.length_append, Tlv.bytes_length]
    exact Nat.add_le_add_right (m := 66) (by dsimp only; omega) 14
  refine .inr ⟨hlen, fun payload ↦ ?_, fun storage ↦ ?_⟩
  · have hother := hholds { frame with payload }
    have hsame : (requestPayload { frame with payload } submarineId start stop).len =
        (requestPayload frame submarineId start stop).len := by
      rw [hother.len_eq, (hholds frame).len_eq]
    rw [(hholds frame).bytes, ← hsame, hother.bytes]
  · obtain ⟨m, rest, hrecv, htag, hvalueLen, hvalue⟩ :=
      @sendRequest_received reqTag frame submarineId start stop hlen storage
    rw [(hholds frame).bytes] at hvalue
    exact ⟨m, rest, hrecv, htag, parseGsRangeRequest_tlvs rfl (by omega) hvalue⟩

end Payload

/-! ## 4. An ID that does not fit -/

section Long

variable {submarineId : Bytes} {value : Mem} {valueLen : Nat}

theorem parseGsRangeRequest_id {request : RangeRequest}
    (h : parseGsRangeRequest value valueLen = some (some request)) :
    ∃ f, protocolFindField value valueLen protoFieldSubmarineId = some (.ok f) ∧
      request.submarineId.length = f.len := by
  rw [parseGsRangeRequest] at h
  rcases hfound : protocolFindField value valueLen protoFieldSubmarineId with _ | e | f
  · rw [hfound] at h
    exact absurd h (by simp)
  · rw [hfound] at h
    exact absurd h (by simp)
  refine ⟨f, rfl, ?_⟩
  rw [hfound] at h
  dsimp only at h
  rcases hstart : findTime value valueLen protoFieldTimeRangeStart with _ | _ | start
  · rw [hstart] at h
    exact absurd h (by simp)
  · rw [hstart] at h
    exact absurd h (by simp)
  rw [hstart] at h
  dsimp only at h
  rcases hstop : findTime value valueLen protoFieldTimeRangeEnd with _ | _ | stop
  · rw [hstop] at h
    exact absurd h (by simp)
  · rw [hstop] at h
    exact absurd h (by simp)
  rw [hstop] at h
  cases h
  exact slice_length _ _ _

/-- An ID that fits alone: one of the times does not fit behind it, and the fill goes past the end
    of the payload. -/
theorem requestPayload_overruns (frame : RequestFrame) (start stop : UInt32)
    (hlo : 64 ≤ submarineId.length) (hhi : submarineId.length ≤ 77) :
    80 < (requestPayload frame submarineId start stop).len := by
  let b : FieldBuf :=
    { buf := frame.payload, valueBuf := frame.valueBuf, written := frame.written }
  let b1 := b.encodeNext 80 protoFieldSubmarineId (ofList submarineId 0) (u16 submarineId.length)
  let b2 := b1.encodeField 80 protoFieldTimeRangeStart (protocolPutU32 start.toNat)
  let b3 := b2.encodeField 80 protoFieldTimeRangeEnd (protocolPutU32 stop.toNat)
  show 80 < b3.len
  have hzero : b.len = 0 := rfl
  obtain ⟨hw1, hl1⟩ : b1.written = _ ∧ b1.len = _ := b.encodeNext_len 80 _ _ _
  obtain ⟨hw2, hl2⟩ : b2.written = _ ∧ b2.len = _ := b1.encodeField_len 80 _ _
  obtain ⟨hw3, hl3⟩ : b3.written = _ ∧ b3.len = _ := b2.encodeField_len 80 _ _
  rw [hzero, if_neg (by unfold u16; omega)] at hw1
  rw [protocolPutU32_length] at hw2 hw3
  have hone : b1.written = submarineId.length + 3 ∧ b1.len = submarineId.length + 3 := by
    rw [hl1, hw1, hzero]
    unfold u16
    omega
  by_cases hstart : submarineId.length ≤ 70
  -- the start time fits, the end time does not: `written` is that of the start time
  · rw [if_neg (by unfold u16; omega)] at hw2
    have htwo : b2.written = 7 ∧ b2.len = submarineId.length + 10 := by
      rw [hl2, hw2]
      unfold u16
      omega
    rw [if_pos (by unfold u16; omega)] at hw3
    rw [hl3, hw3]
    unfold u16
    omega
  -- the start time does not fit: `written` is that of the ID, added a second time
  · rw [if_pos (by unfold u16; omega)] at hw2
    have htwo : b2.len = 2 * submarineId.length + 6 := by
      rw [hl2, hw2]
      unfold u16
      omega
    rw [if_neg (by unfold u16; omega)] at hw3
    rw [hl3, hw3]
    unfold u16
    omega

theorem u32Tlv_bytes (tag : UInt8) (n : UInt32) :
    (u32Tlv tag n).bytes = tag :: 0 :: 4 :: protocolPutU32 n.toNat := by
  have hfour : (u32Tlv tag n).value.length = 4 := protocolPutU32_length _
  rw [Tlv.bytes_eq, hfour]
  rfl

/-- An ID whose length wraps: of its TLV no more than two bytes are counted, and the times are
    written over the rest of it. -/
theorem requestPayload_wraps (frame : RequestFrame) (start stop : UInt32)
    (hlo : 65533 ≤ submarineId.length) (hhi : submarineId.length < 65536) :
    (requestPayload frame submarineId start stop).len = submarineId.length - 65533 + 14 ∧
      slice (requestPayload frame submarineId start stop).buf 0
          (requestPayload frame submarineId start stop).len =
        [protoFieldSubmarineId, 255].take (submarineId.length - 65533) ++
          ((u32Tlv protoFieldTimeRangeStart start).bytes ++
            (u32Tlv protoFieldTimeRangeEnd stop).bytes) := by
  let b : FieldBuf :=
    { buf := frame.payload, valueBuf := frame.valueBuf, written := frame.written }
  let b1 := b.encodeNext 80 protoFieldSubmarineId (ofList submarineId 0) (u16 submarineId.length)
  have hid : u16 submarineId.length = submarineId.length := u16_of_lt hhi
  have htotal := u16_wrapped hlo hhi
  have hroom : ¬ u16 (2 ^ 64 + 80 - b.len) < submarineId.length - 65533 := by
    rw [show b.len = 0 from rfl]
    unfold u16
    omega
  have hone : b1.len = submarineId.length - 65533 := by
    obtain ⟨hw1, hl1⟩ : b1.written = _ ∧ b1.len = _ := b.encodeNext_len 80 _ _ _
    rw [hid, htotal, if_neg hroom] at hw1
    rw [hl1, hw1, show b.len = 0 from rfl, Nat.zero_add, u16_of_lt (by omega)]
  have hbuf : b1.buf = store frame.payload 0 (protoFieldSubmarineId ::
      (protocolPutU16 submarineId.length ++
        slice (ofList submarineId 0) 0 submarineId.length)) := by
    show (b.encodeNext 80 protoFieldSubmarineId (ofList submarineId 0) (u16 _)).buf = _
    rw [FieldBuf.encodeNext, protocolEncodeTLV, hid, htotal, if_neg hroom]
    exact store_tlv frame.payload 0 _ _ _
  have hhead : slice b1.buf 0 b1.len =
      [protoFieldSubmarineId, 255].take (submarineId.length - 65533) := by
    have hlength : (protoFieldSubmarineId :: (protocolPutU16 submarineId.length ++
        slice (ofList submarineId 0) 0 submarineId.length)).length = submarineId.length + 3 := by
      rw [List.length_cons, List.length_append, protocolPutU16_length, slice_length]
      omega
    have hall := slice_store frame.payload 0 (protoFieldSubmarineId ::
      (protocolPutU16 submarineId.length ++ slice (ofList submarineId 0) 0 submarineId.length))
    rw [hone, ← slice_take _ _ (show submarineId.length - 65533 ≤ 2 by omega),
      ← slice_take _ _ (show 2 ≤ submarineId.length + 3 by omega), hbuf, ← hlength, hall,
      protocolPutU16_eq, show submarineId.length / 256 = 255 by omega]
    rfl
  have hsize : ∀ tag n, (u32Tlv tag n).bytes.length = 7 := fun tag n ↦ by
    rw [u32Tlv_bytes]
    rfl
  obtain ⟨hl2, hx2⟩ := b1.encodeField_fits (u32Tlv protoFieldTimeRangeStart start)
    (show _ ≤ 80 by rw [hsize]; omega) (by decide)
  rw [hsize] at hl2 hx2
  obtain ⟨hl3, hx3⟩ := (b1.encodeField 80 (u32Tlv protoFieldTimeRangeStart start).tag
    (u32Tlv protoFieldTimeRangeStart start).value).encodeField_fits
    (u32Tlv protoFieldTimeRangeEnd stop) (show _ ≤ 80 by rw [hsize]; omega) (by decide)
  rw [hsize] at hl3 hx3
  rw [← hl3, hl2, hx2, hhead, List.append_assoc] at hx3
  exact ⟨by rw [show (requestPayload frame submarineId start stop).len = _ from hl3]; omega, hx3⟩

/-- In what is left no submarine ID is found. -/
theorem findField_wrapped {start stop : UInt32} (hlo : 65533 ≤ submarineId.length)
    (hhi : submarineId.length < 65536) (hlen : valueLen ≤ 65535)
    (hx : slice value 0 valueLen = [protoFieldSubmarineId, 255].take (submarineId.length - 65533) ++
      ((u32Tlv protoFieldTimeRangeStart start).bytes ++
        (u32Tlv protoFieldTimeRangeEnd stop).bytes)) :
    ∃ e, protocolFindField value valueLen protoFieldSubmarineId = some (.error e) := by
  have hcases : submarineId.length - 65533 = 0 ∨ submarineId.length - 65533 = 1 ∨
      submarineId.length - 65533 = 2 := by omega
  -- the bytes of the ID's header that are left take the first bytes of the start time for a length
  rcases hcases with hk | hk | hk
  · rw [hk] at hx
    have hothers : ∀ g ∈ [u32Tlv protoFieldTimeRangeStart start, u32Tlv protoFieldTimeRangeEnd stop],
        g.tag ≠ protoFieldSubmarineId := by
      intro g hg
      rcases List.mem_pair.mp hg with rfl | rfl
      · exact show protoFieldTimeRangeStart ≠ protoFieldSubmarineId by decide
      · exact show protoFieldTimeRangeEnd ≠ protoFieldSubmarineId by decide
    have htimes : slice value 0 valueLen =
        tlvBytes [u32Tlv protoFieldTimeRangeStart start, u32Tlv protoFieldTimeRangeEnd stop] := by
      rw [hx, tlvBytes_cons, tlvBytes_cons, tlvBytes_nil, List.append_nil]
      rfl
    exact ⟨_, findField_missing hlen htimes hothers⟩
  · rw [hk, u32Tlv_bytes, u32Tlv_bytes] at hx
    refine ⟨_, findField_of_endsAt hlen (by rw [hx]; exact .here _) (.value ?_ ?_)⟩
    · exact show 12 < 9984 by decide
    · exact show 9984 < 65533 by decide
  · rw [hk, u32Tlv_bytes, u32Tlv_bytes] at hx
    refine ⟨_, findField_of_endsAt hlen (by rw [hx]; exact .here _) (.value ?_ ?_)⟩
    · exact show 13 < 65319 by decide
    · exact show 65319 < 65533 by decide

theorem le_of_parsedBack {reqTag : UInt8} {frame : RequestFrame} {start stop : UInt32}
    (h : ParsedBack (sendRequest reqTag) reqTag frame submarineId start stop) :
    submarineId.length ≤ 63 := by
  rcases h with hnothing | ⟨hfit, -, hparsed⟩
  -- the length is always sent
  · have hlength := congrArg List.length hnothing
    rw [sendRequest, gsSend, List.length_append, protocolPutU32_length] at hlength
    exact absurd hlength (by simp)
  obtain ⟨m, rest, hrecv, -, hparse⟩ := hparsed (ofList [] 0)
  obtain ⟨m', rest', hrecv', -, hvalueLen, hvalue⟩ :=
    @sendRequest_received reqTag frame submarineId start stop hfit (ofList [] 0)
  cases hrecv.symm.trans hrecv'
  have hlen : m.valueLen ≤ 80 := hvalueLen ▸ hfit
  -- the ID is a field of the payload, or its length wraps
  obtain ⟨f, hfound, hid⟩ := parseGsRangeRequest_id hparse
  obtain ⟨hi, lo, bytes, hcomes, hall, hf⟩ := (findField_ok_iff (by omega) f).mp hfound
  have hbytes := (slice_of_found (by omega) hcomes).1
  have hL := bigEndian16_lt hi lo
  dsimp only at hid
  rw [hf] at hid
  dsimp only at hid
  by_contra hlong
  by_cases hwrap : 65533 ≤ submarineId.length
  · have hx := (requestPayload_wraps frame start stop hwrap (by omega)).2
    obtain ⟨e, he⟩ := findField_wrapped hwrap (by omega) (by omega) (hvalue.trans hx)
    exact absurd (hfound.symm.trans he) (by simp)
  · have hover := @requestPayload_overruns submarineId frame start stop (by omega) (by omega)
    omega

end Long

/-- A request is parsed back exactly if its submarine ID has no more than 63 bytes. -/
theorem gs_requests_parsed_back_iff (frame : RequestFrame) (submarineId : Bytes)
    (start stop : UInt32) :
    (ParsedBack gsRequestLogSends protoTagGsGetLogReq frame submarineId start stop ↔
        submarineId.length ≤ 63) ∧
      (ParsedBack gsRequestEventsSends protoTagGsGetEventsReq frame submarineId start stop ↔
        submarineId.length ≤ 63) :=
  ⟨⟨le_of_parsedBack, parsedBack_of_le protoTagGsGetLogReq frame start stop⟩,
    ⟨le_of_parsedBack, parsedBack_of_le protoTagGsGetEventsReq frame start stop⟩⟩

/-- 64 bytes of ID leave six for the end time: its encoding fails, and the seven bytes of the start
    time are counted a second time. -/
theorem gs_request_overruns :
    ¬ ParsedBack gsRequestLogSends protoTagGsGetLogReq
      { payload := ofList [] 0, valueBuf := ofList [] 0, written := 0, message := ofList [] 0
        messageLen := 0 } (List.replicate 64 0x41) 0 10 := by
  intro h
  rcases h with hnothing | ⟨hfit, -⟩
  · have hlength := congrArg List.length hnothing
    exact absurd hlength (by decide +kernel)
  · exact absurd hfit (by decide +kernel)

end SubmarineMonitor
