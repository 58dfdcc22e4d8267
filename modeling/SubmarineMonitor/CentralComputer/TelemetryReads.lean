import SubmarineMonitor.CentralComputer.LncReceive
import SubmarineMonitor.Protocol.PartialLookup

/-!
# TelemetryReads — the bytes of its message that a telemetry handler reads

The handlers look a field up and read a fixed number of bytes behind its header, whatever length the
field declares.  What is stored depends on nothing but the message exactly if every field that a
handler finds has the bytes that are read of it (`telemetry_independent_iff`).
-/

open Reasoning

namespace SubmarineMonitor

/-! ## 1. The reads of the handlers -/

/-- `width` bytes are read from `off` on, of a value that ends before `stop`. -/
structure ByteRead where
  off : Nat
  width : Nat
  stop : Nat
  deriving DecidableEq, Repr

def ByteRead.Inside (r : ByteRead) : Prop := r.off + r.width ≤ r.stop

instance (r : ByteRead) : Decidable r.Inside :=
  inferInstanceAs (Decidable (r.off + r.width ≤ r.stop))

/-- The fields a handler looks up, in order, each with the bytes it reads of it: those of the value,
    and those of the measurement record in it. -/
structure HandlerFields where
  outer : List (UInt8 × Nat)
  record : List (UInt8 × Nat)

def keepAliveFields : HandlerFields where
  outer := [(protoFieldTimestamp, 4), (protoFieldMode, 1)]
  record := [(protoFieldTemperature, 2), (protoFieldHumidity, 1), (protoFieldLight, 2),
    (protoFieldBatteryVoltage, 2)]

/-- The byte of the watchdog flag is only printed: what counts is that the lookup returns. -/
def eventReportFields : HandlerFields where
  outer := [(protoFieldTimestamp, 4), (protoFieldEventType, 1), (protoFieldEventSource, 1),
    (protoFieldWdResetFlag, 0)]
  record := [(protoFieldTemperature, 2), (protoFieldHumidity, 1), (protoFieldLight, 2),
    (protoFieldBatteryVoltage, 2), (protoFieldMode, 1)]

def handlerFields (tag : UInt8) : Option HandlerFields :=
  if tag = protoTagKeepAlive then some keepAliveFields
  else if tag = protoTagEventReport then some eventReportFields
  else none

/-- The reads of a lookup in a value of `len` bytes, `received` of which are there, and of the field
    it finds: up to the end of the field, or of the value if that comes first. -/
def lookupReads (value : Mem) (len received : Nat) (tag : UInt8) (width : Nat) : List ByteRead :=
  (headersRead value len tag 65536 0).map (fun off ↦ { off, width := 3, stop := received }) ++
    match protocolFindField value len tag with
    | some (.ok f) => [{ off := f.off, width, stop := min (f.off + f.len) received }]
    | _ => []

def fieldReads (value : Mem) (len received : Nat) :
    List (UInt8 × Nat) → List ByteRead → List ByteRead
  | [], after => after
  | (tag, width) :: fields, after =>
      lookupReads value len received tag width ++
        match protocolFindField value len tag with
        | none => []
        | some _ => fieldReads value len received fields after

def recordReads (value : Mem) (len received : Nat) (fields : List (UInt8 × Nat)) : List ByteRead :=
  lookupReads value len received protoFieldMeasurementRecord 0 ++
    match protocolFindField value len protoFieldMeasurementRecord with
    | some (.ok f) =>
        fieldReads (advance value f.off) f.len (min f.len (received - f.off)) fields []
    | _ => []

def telemetryReads (tag : UInt8) (value : Mem) (len received : Nat) : List ByteRead :=
  match handlerFields tag with
  | none => []
  | some h => fieldReads value len received h.outer (recordReads value len received h.record)

/-! ## 2. Messages -/

/-- Whatever the storage held before, the message alone decides what is stored, and the handler reads
    nothing outside the field it has found. -/
structure TelemetryIndependent (m : Bytes) : Prop where
  same : ∀ storageCap link storage storage', m.length ≤ storageCap → storageCap ≤ 65535 →
    link.incoming = tcpMessage m →
      let out := ccCoreLncRecvMessage link storage storageCap
      let out' := ccCoreLncRecvMessage link storage' storageCap
      out.stores = out'.stores ∧ (out.result = none ↔ out'.result = none)
  inside : ∀ storage d, protocolDecodeTLV (store storage 0 m) m.length = .ok d →
    ∀ r ∈ telemetryReads d.tag (advance (store storage 0 m) d.valueOff) d.valueLen
      (min d.valueLen (m.length - d.valueOff)), r.Inside

def Finds (tag : UInt8) (len : Nat) (l : Bytes) (hi lo : UInt8) (rest : Bytes) : Prop :=
  ComesTo tag l (tag :: hi :: lo :: rest) ∧
    (bigEndian16 hi lo ≤ rest.length + (len - l.length) ∨ 65533 ≤ bigEndian16 hi lo)

/-- No header outside `l` is looked at, and the field declares the bytes that are read of it and has
    them. -/
def FieldFits (len : Nat) (l : Bytes) (tag : UInt8) (width : Nat) : Prop :=
  StaysWithin tag (len - l.length) l ∧ ∀ hi lo rest, Finds tag len l hi lo rest →
    width ≤ bigEndian16 hi lo ∧ width ≤ rest.length

def FieldsFit (len : Nat) (l : Bytes) : List (UInt8 × Nat) → Prop → Prop
  | [], after => after
  | (tag, width) :: fields, after =>
      FieldFits len l tag width ∧ (LookupReturns tag l → FieldsFit len l fields after)

def RecordFits (len : Nat) (l : Bytes) (fields : List (UInt8 × Nat)) : Prop :=
  FieldFits len l protoFieldMeasurementRecord 0 ∧
    ∀ hi lo rest, Finds protoFieldMeasurementRecord len l hi lo rest →
      FieldsFit (bigEndian16 hi lo) (rest.take (bigEndian16 hi lo)) fields True

def TelemetryFits (m : Bytes) : Prop :=
  ∀ d h, decodeMessage m = some d → handlerFields d.tag = some h →
    FieldsFit d.len d.value h.outer (RecordFits d.len d.value h.record)

/-! ## 3. Reads inside their fields -/

section Inside

variable {value : Mem} {len : Nat} {l : Bytes}

theorem findField_finds_iff (hlen : len ≤ 65535) (hle : l.length ≤ len)
    (hl : slice value 0 l.length = l) {tag : UInt8} (hstay : StaysWithin tag (len - l.length) l)
    (f : Field) :
    protocolFindField value len tag = some (.ok f) ↔ ∃ hi lo rest, Finds tag len l hi lo rest ∧
      f = { off := l.length - rest.length, len := bigEndian16 hi lo } := by
  rw [findField_within_iff hlen hle hl hstay]
  constructor
  · rintro ⟨hi, lo, rest, hcomes, hall, rfl⟩
    exact ⟨hi, lo, rest, ⟨hcomes, hall⟩, rfl⟩
  · rintro ⟨hi, lo, rest, ⟨hcomes, hall⟩, rfl⟩
    exact ⟨hi, lo, rest, hcomes, hall, rfl⟩

theorem Finds.length_le {tag hi lo : UInt8} {rest : Bytes} (h : Finds tag len l hi lo rest) :
    rest.length + 3 ≤ l.length := h.1.length_le

theorem lookupReads_inside_iff (hlen : len ≤ 65535) (hle : l.length ≤ len)
    (hl : slice value 0 l.length = l) (tag : UInt8) (width : Nat) :
    (∀ r ∈ lookupReads value len l.length tag width, r.Inside) ↔ FieldFits len l tag width := by
  rw [lookupReads, List.forall_mem_append, List.forall_mem_map, FieldFits,
    ← headersRead_inside_iff hlen hle hl]
  apply and_congr_right
  intro hheaders
  have hstay := (headersRead_inside_iff hlen hle hl).mp hheaders
  have hfinds := findField_finds_iff hlen hle hl hstay
  constructor
  · intro hinside hi lo rest hf
    have hrest := hf.length_le
    rw [(hfinds _).mpr ⟨hi, lo, rest, hf, rfl⟩] at hinside
    have hread := hinside _ List.mem_cons_self
    rw [ByteRead.Inside] at hread
    dsimp only at hread
    omega
  · intro hfits
    rcases hfound : protocolFindField value len tag with _ | e | f
    · exact fun r hr ↦ absurd hr List.not_mem_nil
    · exact fun r hr ↦ absurd hr List.not_mem_nil
    · obtain ⟨hi, lo, rest, hf, rfl⟩ := (hfinds f).mp hfound
      have hrest := hf.length_le
      have hwidth := hfits hi lo rest hf
      intro r hr
      rw [List.mem_singleton.mp hr, ByteRead.Inside]
      dsimp only
      omega

theorem fieldReads_inside_iff (hlen : len ≤ 65535) (hle : l.length ≤ len)
    (hl : slice value 0 l.length = l) (fields : List (UInt8 × Nat)) {after : List ByteRead}
    {fits : Prop} (hafter : (∀ r ∈ after, r.Inside) ↔ fits) :
    (∀ r ∈ fieldReads value len l.length fields after, r.Inside) ↔
      FieldsFit len l fields fits := by
  induction fields with
  | nil => exact hafter
  | cons field fields ih =>
      obtain ⟨tag, width⟩ := field
      rw [fieldReads, FieldsFit, List.forall_mem_append, lookupReads_inside_iff hlen hle hl, ← ih]
      apply and_congr_right
      intro hfits
      rw [← findField_returns_within_iff hlen hle hl hfits.1]
      cases protocolFindField value len tag with
      | none => exact ⟨fun _ h ↦ absurd rfl h, fun _ r hr ↦ absurd hr List.not_mem_nil⟩
      | some r => exact ⟨fun h _ ↦ h, fun h ↦ h (by simp)⟩

theorem Finds.slice {tag hi lo : UInt8} {rest : Bytes} (hlen : len ≤ 65535) (hle : l.length ≤ len)
    (hl : slice value 0 l.length = l) (h : Finds tag len l hi lo rest) :
    slice (advance value (l.length - rest.length)) 0 (rest.take (bigEndian16 hi lo)).length =
      rest.take (bigEndian16 hi lo) := by
  have hcomes := h.1
  rw [← hl] at hcomes
  have hrest := (slice_of_found (by omega) hcomes).2
  rw [slice_advance, Nat.add_zero, List.length_take,
    ← slice_take value _ (Nat.min_le_right (bigEndian16 hi lo) rest.length), hrest]
  by_cases hL : bigEndian16 hi lo ≤ rest.length
  · rw [Nat.min_eq_left hL]
  · rw [Nat.min_eq_right (by omega), List.take_of_length_le (Nat.le_refl _),
      List.take_of_length_le (by omega)]

theorem recordReads_inside_iff (hlen : len ≤ 65535) (hle : l.length ≤ len)
    (hl : slice value 0 l.length = l) (fields : List (UInt8 × Nat)) :
    (∀ r ∈ recordReads value len l.length fields, r.Inside) ↔ RecordFits len l fields := by
  rw [recordReads, RecordFits, List.forall_mem_append, lookupReads_inside_iff hlen hle hl]
  apply and_congr_right
  intro hfits
  have hfinds := findField_finds_iff hlen hle hl hfits.1
  have hrecord : ∀ {hi lo rest}, Finds protoFieldMeasurementRecord len l hi lo rest →
      ((∀ r ∈ fieldReads (advance value (l.length - rest.length)) (bigEndian16 hi lo)
          (min (bigEndian16 hi lo) (l.length - (l.length - rest.length))) fields [], r.Inside) ↔
        FieldsFit (bigEndian16 hi lo) (rest.take (bigEndian16 hi lo)) fields True) := by
    intro hi lo rest hf
    have hL := bigEndian16_lt hi lo
    have hrest := hf.length_le
    have hreceived : min (bigEndian16 hi lo) (l.length - (l.length - rest.length)) =
        (rest.take (bigEndian16 hi lo)).length := by
      rw [List.length_take, Nat.sub_sub_self (by omega)]
    rw [hreceived]
    exact fieldReads_inside_iff (by omega) (List.length_take_le _ _) (hf.slice hlen hle hl) fields
      ⟨fun _ ↦ trivial, fun _ r hr ↦ absurd hr List.not_mem_nil⟩
  constructor
  · intro hinside hi lo rest hf
    rw [(hfinds _).mpr ⟨hi, lo, rest, hf, rfl⟩] at hinside
    exact (hrecord hf).mp hinside
  · intro hfit
    rcases hfound : protocolFindField value len protoFieldMeasurementRecord with _ | e | f
    · exact fun r hr ↦ absurd hr List.not_mem_nil
    · exact fun r hr ↦ absurd hr List.not_mem_nil
    · obtain ⟨hi, lo, rest, hf, rfl⟩ := (hfinds f).mp hfound
      exact (hrecord hf).mpr (hfit hi lo rest hf)

end Inside

/-! ## 4. Two values that agree on what is there -/

structure Agree (value value' : Mem) (len : Nat) (l : Bytes) : Prop where
  len_le : len ≤ 65535
  fits : l.length ≤ len
  left : slice value 0 l.length = l
  right : slice value' 0 l.length = l

section Agree

variable {value value' : Mem} {len : Nat} {l : Bytes} {fields : List (UInt8 × Nat)} {fits : Prop}
  {α β : Type}

theorem Agree.lookup_eq (h : Agree value value' len l) {tag : UInt8} {width : Nat}
    (hfits : FieldFits len l tag width) :
    protocolFindField value len tag = protocolFindField value' len tag :=
  findField_within_congr h.len_le h.fits h.left h.right hfits.1

theorem Agree.read_eq (h : Agree value value' len l) {tag : UInt8} {width : Nat} {init : α}
    {read : Mem → α} (hfits : FieldFits len l tag width) (hread : ReadsWidth read width) :
    readField value len tag init read = readField value' len tag init read := by
  rw [readField, readField, ← h.lookup_eq hfits]
  rcases hfound : protocolFindField value len tag with _ | e | f
  · rfl
  · rfl
  obtain ⟨hi, lo, rest, hf, rfl⟩ :=
    (findField_finds_iff h.len_le h.fits h.left hfits.1 f).mp hfound
  obtain ⟨hdeclared, hthere⟩ := hfits.2 hi lo rest hf
  have hleft := hf.slice h.len_le h.fits h.left
  have hright := hf.slice h.len_le h.fits h.right
  have hwidth : width ≤ (rest.take (bigEndian16 hi lo)).length := by
    rw [List.length_take]
    omega
  dsimp only
  rw [hread.of_slice hleft hwidth, hread.of_slice hright hwidth]

theorem Agree.read_bind (h : Agree value value' len l) {tag : UInt8} {width : Nat} {init : α}
    {read : Mem → α} (hfits : FieldsFit len l ((tag, width) :: fields) fits)
    (hread : ReadsWidth read width) {f g : α → Option β}
    (hnext : FieldsFit len l fields fits → ∀ a, f a = g a) :
    (readField value len tag init read).bind f =
      (readField value' len tag init read).bind g := by
  rw [← h.read_eq hfits.1 hread]
  apply Option.bind_congr
  intro a ha
  have hreturns : protocolFindField value len tag ≠ none := by
    apply readField_isSome_iff.mp
    rw [ha]
    rfl
  exact hnext (hfits.2 ((findField_returns_within_iff h.len_le h.fits h.left hfits.1.1).mp hreturns))
    a

theorem Agree.lookup_bind (h : Agree value value' len l) {tag : UInt8} {width : Nat}
    (hfits : FieldsFit len l ((tag, width) :: fields) fits)
    {f g : Except ProtoResult Field → Option β}
    (hnext : FieldsFit len l fields fits → ∀ a, f a = g a) :
    (protocolFindField value len tag).bind f = (protocolFindField value' len tag).bind g := by
  rw [← h.lookup_eq hfits.1]
  apply Option.bind_congr
  intro a ha
  have hreturns : protocolFindField value len tag ≠ none := by
    rw [ha]
    exact Option.some_ne_none a
  exact hnext (hfits.2 ((findField_returns_within_iff h.len_le h.fits h.left hfits.1.1).mp hreturns))
    a

/-- The record that is found is the same in both, and its fields fit. -/
theorem Agree.record_bind (h : Agree value value' len l) (hfits : RecordFits len l fields)
    {f g : Except ProtoResult Field → Option β} (herror : ∀ e, f (.error e) = g (.error e))
    (hrecord : ∀ (r : Field) (l' : Bytes), Agree (advance value r.off) (advance value' r.off) r.len l' →
      FieldsFit r.len l' fields True → f (.ok r) = g (.ok r)) :
    (protocolFindField value len protoFieldMeasurementRecord).bind f =
      (protocolFindField value' len protoFieldMeasurementRecord).bind g := by
  rw [← h.lookup_eq hfits.1]
  apply Option.bind_congr
  intro a ha
  rcases a with e | r
  · exact herror e
  obtain ⟨hi, lo, rest, hf, rfl⟩ :=
    (findField_finds_iff h.len_le h.fits h.left hfits.1.1 r).mp ha
  have hL := bigEndian16_lt hi lo
  exact hrecord _ _
    { len_le := by dsimp only; omega
      fits := List.length_take_le _ _
      left := hf.slice h.len_le h.fits h.left
      right := hf.slice h.len_le h.fits h.right }
    (hfits.2 hi lo rest hf)

theorem Agree.readRecord_bind (h : Agree value value' len l)
    (hfits : FieldsFit len l ([(protoFieldTemperature, 2), (protoFieldHumidity, 1),
      (protoFieldLight, 2), (protoFieldBatteryVoltage, 2)] ++ fields) fits)
    {f g : Int16 → UInt8 → UInt16 → UInt16 → Option β}
    (hnext : FieldsFit len l fields fits → ∀ t u v w, f t u v w = g t u v w) :
    ((readField value len protoFieldTemperature 0 getI16).bind fun temperature ↦
        (readField value len protoFieldHumidity 0 getU8).bind fun humidity ↦
          (readField value len protoFieldLight 0 getU16).bind fun light ↦
            (readField value len protoFieldBatteryVoltage 0 getU16).bind fun battery ↦
              f temperature humidity light battery) =
      (readField value' len protoFieldTemperature 0 getI16).bind fun temperature ↦
        (readField value' len protoFieldHumidity 0 getU8).bind fun humidity ↦
          (readField value' len protoFieldLight 0 getU16).bind fun light ↦
            (readField value' len protoFieldBatteryVoltage 0 getU16).bind fun battery ↦
              g temperature humidity light battery := by
  apply h.read_bind hfits getI16_reads
  intro hfits temperature
  apply h.read_bind hfits getU8_reads
  intro hfits humidity
  apply h.read_bind hfits getU16_reads
  intro hfits light
  apply h.read_bind hfits getU16_reads
  exact fun hfits battery ↦ hnext hfits temperature humidity light battery

theorem ccCorePrintKeepAlive_agree (h : Agree value value' len l)
    (hfits : FieldsFit len l keepAliveFields.outer (RecordFits len l keepAliveFields.record)) :
    ccCorePrintKeepAlive value len = ccCorePrintKeepAlive value' len := by
  rw [ccCorePrintKeepAlive, ccCorePrintKeepAlive]
  apply h.read_bind hfits getU32_reads
  intro hfits timestamp
  apply h.read_bind hfits getU8_reads
  intro hfits mode
  apply h.record_bind hfits
  · exact fun e ↦ rfl
  intro f record h hfits
  apply h.readRecord_bind hfits
  exact fun _ temperature humidity light battery ↦ rfl

theorem ccCorePrintEventReport_agree (h : Agree value value' len l)
    (hfits : FieldsFit len l eventReportFields.outer (RecordFits len l eventReportFields.record)) :
    ccCorePrintEventReport value len = ccCorePrintEventReport value' len := by
  rw [ccCorePrintEventReport, ccCorePrintEventReport]
  apply h.read_bind hfits getU32_reads
  intro hfits timestamp
  apply h.read_bind hfits getU8_reads
  intro hfits eventType
  apply h.read_bind hfits getU8_reads
  intro hfits eventSource
  apply h.lookup_bind hfits
  intro hfits wdResetFlag
  apply h.record_bind hfits
  · exact fun e ↦ rfl
  intro f record h hfits
  apply h.readRecord_bind hfits
  intro hfits temperature humidity light battery
  apply h.read_bind hfits getU8_reads
  exact fun _ mode ↦ rfl

theorem telemetryHandler_agree {tag : UInt8} (h : Agree value value' len l)
    (hfits : ∀ hf, handlerFields tag = some hf →
      FieldsFit len l hf.outer (RecordFits len l hf.record)) :
    telemetryHandler tag value len = telemetryHandler tag value' len := by
  rw [handlerFields] at hfits
  rw [telemetryHandler, telemetryHandler]
  by_cases hkeep : tag = protoTagKeepAlive
  · rw [if_pos hkeep] at hfits ⊢
    rw [if_pos hkeep, ccCorePrintKeepAlive_agree h (hfits keepAliveFields rfl)]
  rw [if_neg hkeep] at hfits ⊢
  rw [if_neg hkeep]
  by_cases hevent : tag = protoTagEventReport
  · rw [if_pos hevent] at hfits ⊢
    rw [if_pos hevent, ccCorePrintEventReport_agree h (hfits eventReportFields rfl)]
  · rw [if_neg hevent, if_neg hevent]

end Agree

/-! ## 5. One message on the connection -/

section Message

variable {storageCap : Nat} {link : LncLink} {m : Bytes}

theorem lncRecvMessageLoop_ended (h : link.incoming = []) (fuel : Nat) (storage : Mem) :
    (lncRecvMessageLoop storageCap (fuel + 1) link storage).stores = [] ∧
      (lncRecvMessageLoop storageCap (fuel + 1) link storage).result = some none := by
  obtain ⟨-, hzero⟩ := @ccCoreLncRecv_ended link storageCap storage h
  rw [lncRecvMessageLoop]
  dsimp only
  rw [if_pos hzero]
  exact ⟨rfl, rfl⟩

/-- What the handler of the message does is all that is done. -/
theorem ccCoreLncRecvMessage_single (hfits : m.length ≤ storageCap) (hcap : storageCap ≤ 65535)
    (h : link.incoming = tcpMessage m) (storage : Mem) :
    (ccCoreLncRecvMessage link storage storageCap).stores =
        ((decodeMessage m).bind fun d ↦
          (telemetryHandler d.tag (advance (store storage 0 m) 3) d.len).join).getD [] ∧
      ((ccCoreLncRecvMessage link storage storageCap).result = none ↔
        ∃ d, decodeMessage m = some d ∧
          telemetryHandler d.tag (advance (store storage 0 m) 3) d.len = none) := by
  have hlength : link.incoming.length = m.length + 3 + 1 := by
    rw [h, tcpMessage_length]
    omega
  obtain ⟨hleft, hbuf, hresult⟩ :=
    ccCoreLncRecv_message storage (h.trans (List.append_nil _).symm) hfits hcap
  have hbytes : slice (store storage 0 m) 0 m.length = m := slice_store storage 0 m
  rw [ccCoreLncRecvMessage, hlength, lncRecvMessageLoop]
  dsimp only
  rw [hbuf, hresult]
  obtain ⟨hstores, hended⟩ := @lncRecvMessageLoop_ended storageCap _ hleft (m.length + 3)
    (store storage 0 m)
  cases hdecode : decodeMessage m with
  | none =>
      have hnone : ¬ ∃ d, (none : Option DecodedMessage) = some d ∧
          telemetryHandler d.tag (advance (store storage 0 m) 3) d.len = none := by
        rintro ⟨d, hd, -⟩
        exact absurd hd (by simp)
      by_cases hempty : m.length = 0
      · rw [if_pos hempty]
        exact ⟨rfl, fun hr ↦ absurd hr (by simp), fun hd ↦ absurd hd hnone⟩
      · rw [if_neg hempty, protocolDecodeTLV_rejects hbytes hdecode]
        dsimp only [MessageOut.after]
        rw [hstores, hended]
        exact ⟨rfl, fun hr ↦ absurd hr (by simp), fun hd ↦ absurd hd hnone⟩
  | some d =>
      obtain ⟨htlv, -, -, hm⟩ := protocolDecodeTLV_accepts hbytes hdecode
      rw [if_neg (by omega), htlv, Option.bind_some]
      dsimp only
      cases hhandler : telemetryHandler d.tag (advance (store storage 0 m) 3) d.len with
      | none => exact ⟨rfl, fun _ ↦ ⟨d, rfl, hhandler⟩, fun _ ↦ rfl⟩
      | some stores =>
          have hsome : ¬ ∃ d', some d = some d' ∧
              telemetryHandler d'.tag (advance (store storage 0 m) 3) d'.len = none := by
            rintro ⟨d', hd, hnone⟩
            cases hd
            exact absurd (hhandler.symm.trans hnone) (by simp)
          cases stores with
          | none => exact ⟨rfl, fun hr ↦ absurd hr (by simp), fun hd ↦ absurd hd hsome⟩
          | some stores =>
              dsimp only [MessageOut.after]
              rw [hstores, hended, List.append_nil]
              exact ⟨rfl, fun hr ↦ absurd hr (by simp), fun hd ↦ absurd hd hsome⟩

/-- The value of a message, seen in a storage that holds the message. -/
theorem decodedValue_agree {d : DecodedMessage} (hm : decodeMessage m = some d)
    (storage storage' : Mem) :
    Agree (advance (store storage 0 m) 3) (advance (store storage' 0 m) 3) d.len d.value := by
  have hvalue : ∀ storage : Mem,
      slice (advance (store storage 0 m) 3) 0 d.value.length = d.value := by
    intro storage
    obtain ⟨-, hrest, -⟩ := protocolDecodeTLV_accepts (slice_store storage 0 m) hm
    rw [DecodedMessage.value, List.length_take, ← slice_take _ _ (Nat.min_le_right _ _), hrest]
    exact List.take_eq_take_min.symm
  obtain ⟨-, -, hlen, -⟩ := protocolDecodeTLV_accepts (slice_store storage 0 m) hm
  exact { len_le := hlen, fits := List.length_take_le _ _, left := hvalue storage
          right := hvalue storage' }

theorem telemetryReads_inside_iff {d : DecodedMessage} (hm : decodeMessage m = some d)
    (storage : Mem) :
    (∀ r ∈ telemetryReads d.tag (advance (store storage 0 m) 3) d.len
        (min d.len (m.length - 3)), r.Inside) ↔
      ∀ h, handlerFields d.tag = some h →
        FieldsFit d.len d.value h.outer (RecordFits d.len d.value h.record) := by
  have hagree := decodedValue_agree hm storage storage
  obtain ⟨-, -, -, hlength⟩ := protocolDecodeTLV_accepts (slice_store storage 0 m) hm
  have hreceived : min d.len (m.length - 3) = d.value.length := by
    rw [DecodedMessage.value, List.length_take, hlength, Nat.add_sub_cancel]
  rw [telemetryReads, hreceived]
  cases handlerFields d.tag with
  | none =>
      exact ⟨fun _ h hh ↦ absurd hh (by simp), fun _ r hr ↦ absurd hr List.not_mem_nil⟩
  | some h =>
      have hiff := fieldReads_inside_iff hagree.len_le hagree.fits hagree.left h.outer
        (recordReads_inside_iff hagree.len_le hagree.fits hagree.left h.record)
      exact ⟨fun hinside _ hh ↦ Option.some.inj hh ▸ hiff.mp hinside,
        fun hfits ↦ hiff.mpr (hfits h rfl)⟩

/-- What is stored, and whether the call comes back, follows from what the handlers do. -/
theorem ccCoreLncRecvMessage_same (hfits : TelemetryFits m) (hfit : m.length ≤ storageCap)
    (hcap : storageCap ≤ 65535) (h : link.incoming = tcpMessage m) (storage storage' : Mem) :
    (ccCoreLncRecvMessage link storage storageCap).stores =
        (ccCoreLncRecvMessage link storage' storageCap).stores ∧
      ((ccCoreLncRecvMessage link storage storageCap).result = none ↔
        (ccCoreLncRecvMessage link storage' storageCap).result = none) := by
  have hhandler : ∀ d, decodeMessage m = some d →
      telemetryHandler d.tag (advance (store storage 0 m) 3) d.len =
        telemetryHandler d.tag (advance (store storage' 0 m) 3) d.len := fun d hm ↦
    telemetryHandler_agree (decodedValue_agree hm storage storage') fun hf ↦ hfits d hf hm
  obtain ⟨hstores, hresult⟩ := ccCoreLncRecvMessage_single hfit hcap h storage
  obtain ⟨hstores', hresult'⟩ := ccCoreLncRecvMessage_single hfit hcap h storage'
  rw [hstores, hstores', hresult, hresult']
  constructor
  · congr 1
    exact Option.bind_congr fun d hm ↦ congrArg Option.join (hhandler d hm)
  · exact exists_congr fun d ↦ and_congr_right fun hm ↦ by rw [hhandler d hm]

end Message

/-- The message alone decides what is stored exactly if its fields have the bytes that are read. -/
theorem telemetry_independent_iff (m : Bytes) : TelemetryIndependent m ↔ TelemetryFits m := by
  constructor
  · intro h d hf hm hfields
    obtain ⟨htlv, -⟩ := protocolDecodeTLV_accepts (slice_store (ofList [] 0) 0 m) hm
    exact (telemetryReads_inside_iff hm (ofList [] 0)).mp (h.inside _ _ htlv) hf hfields
  · intro hfits
    refine { same := ?_, inside := ?_ }
    · intro storageCap link storage storage' hfit hcap hlink
      exact ccCoreLncRecvMessage_same hfits hfit hcap hlink storage storage'
    · intro storage dec hdec
      cases hm : decodeMessage m with
      | none =>
          rw [protocolDecodeTLV_rejects (slice_store storage 0 m) hm] at hdec
          exact absurd hdec (by simp)
      | some d =>
          rw [(protocolDecodeTLV_accepts (slice_store storage 0 m) hm).1] at hdec
          cases hdec
          exact (telemetryReads_inside_iff hm storage).mpr fun h hh ↦ hfits d h hm hh

/-- A KEEP_ALIVE with an empty measurement record and, at its end, a MODE without a value: the mode
    that is stored is whatever the buffer holds behind the message. -/
theorem telemetry_stale_mode :
    ¬ TelemetryIndependent [0x11, 0x00, 0x06, 0x29, 0x00, 0x00, 0x2C, 0x00, 0x00] := by
  intro h
  have hsame := (h.same 256
    { incoming := tcpMessage [0x11, 0x00, 0x06, 0x29, 0x00, 0x00, 0x2C, 0x00, 0x00], taken := 0 }
    (fun _ ↦ 0) (fun _ ↦ 1) (by decide) (by decide) rfl).1
  revert hsame
  decide +kernel

end SubmarineMonitor
