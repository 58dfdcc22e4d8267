import SubmarineMonitor.CentralComputer.ManagementCommand
import SubmarineMonitor.GroundStation.GsQueries
import SubmarineMonitor.Protocol.TlvWalk

/-!
# RecordWalks — the four walks over the records of a response

`CcCore_GetMeasurements`, `CcCore_GetEvents`, `Gs_RequestLog` and `Gs_RequestEvents` each walk the
value of a response by hand.  None of them holds a length against what is left of the value, as
`Protocol_FindField` does: a walk agrees with the TLVs of the value exactly where these leave no
header over, end before the 16-bit guard wraps, and no lookup in a record is misled by a length of
65533 bytes or more.
-/

open Reasoning

namespace SubmarineMonitor

/-! ## 1. The walks -/

inductive RecordWalk
  | getMeasurements
  | getEvents
  | requestLog
  | requestEvents
  deriving DecidableEq, Repr

def RecordWalk.recordTag : RecordWalk → UInt8
  | .getMeasurements | .requestLog => protoFieldMeasurementRecord
  | .getEvents | .requestEvents => protoFieldEventRecord

def gsReadRecords {α : Type} (recordTag : UInt8) (print : Mem → Nat → Option α) (value : Mem)
    (valueLen : Nat) : Option (List α) := do
  let visited ← walkTlv value valueLen
  (visited.filter fun p ↦ p.1 = recordTag).mapM fun p ↦ print (advance value p.2.off) p.2.len

def RecordWalk.Returns : RecordWalk → Mem → Nat → Prop
  | .getMeasurements, value, valueLen => ∀ cursor,
      (readPage protoFieldMeasurementRecord readMeasurementRecord cursor value valueLen).isSome
  | .getEvents, value, valueLen => ∀ cursor,
      (readPage protoFieldEventRecord readEventRecord cursor value valueLen).isSome
  | .requestLog, value, valueLen =>
      (gsReadRecords protoFieldMeasurementRecord printMeasurementRecord value valueLen).isSome
  | .requestEvents, value, valueLen =>
      (gsReadRecords protoFieldEventRecord readEventRecord value valueLen).isSome

/-- The slices of `value` that are handed to `Protocol_FindField` for one record: the record, and
    the measurement an event holds. -/
def RecordWalk.searched (w : RecordWalk) (value : Mem) (record : Field) : List Field :=
  match w with
  | .getMeasurements | .requestLog => [record]
  | .getEvents | .requestEvents =>
      match protocolFindField (advance value record.off) record.len protoFieldMeasurementRecord with
      | some (.ok f) => [record, { off := record.off + f.off, len := f.len }]
      | _ => [record]

/-- What a walk should do: come to its end, visit exactly the complete TLVs of the value, and look
    at nothing behind the value. -/
structure RecordWalk.FollowsGrammar (w : RecordWalk) (value : Mem) (valueLen : Nat) : Prop where
  returns : w.Returns value valueLen
  visits : walkTlv value valueLen = some (placed 0 (siblings (slice value 0 valueLen)))
  inside : ∀ visited, walkTlv value valueLen = some visited → ∀ p ∈ visited,
    p.2.off + p.2.len ≤ valueLen ∧
      (p.1 = w.recordTag → ∀ s ∈ w.searched value p.2, s.off + s.len ≤ valueLen)

/-! ## 2. Where they do it -/

def readingTags : List UInt8 :=
  [protoFieldTemperature, protoFieldHumidity, protoFieldLight, protoFieldBatteryVoltage,
    protoFieldMode]

def MeasurementFits (record : Bytes) : Prop :=
  LookupReturns protoFieldTimestamp record ∧ ∀ tag ∈ readingTags, LookupReturns tag record

/-- The lookups in an event record return; and the measurement they come to, if any, declares less than
    65533 bytes and, where it is complete, lets its own lookups return. -/
def EventFits (record : Bytes) : Prop :=
  (∀ tag ∈ [protoFieldTimestamp, protoFieldEventType, protoFieldEventSource,
    protoFieldMeasurementRecord], LookupReturns tag record) ∧
  ∀ hi lo rest, ComesTo protoFieldMeasurementRecord record
      (protoFieldMeasurementRecord :: hi :: lo :: rest) →
    bigEndian16 hi lo < 65533 ∧ (bigEndian16 hi lo ≤ rest.length →
      ∀ tag ∈ readingTags, LookupReturns tag (rest.take (bigEndian16 hi lo)))

def RecordWalk.RecordFits : RecordWalk → Bytes → Prop
  | .getMeasurements | .requestLog => MeasurementFits
  | .getEvents | .requestEvents => EventFits

/-- The complete TLVs of the value end before the guard wraps, leave no header over, and each record
    among them misleads no lookup. -/
structure RecordWalk.Fits (w : RecordWalk) (bytes : Bytes) : Prop where
  ends : WalkEnds bytes
  records : ∀ f ∈ siblings bytes, f.tag = w.recordTag → w.RecordFits f.value

/-! ## 3. Returning -/

theorem mapM_isSome_iff {α β : Type} {f : α → Option β} {l : List α} :
    (l.mapM f).isSome ↔ ∀ a ∈ l, (f a).isSome := by
  induction l with
  | nil => exact ⟨fun _ a ha ↦ absurd ha List.not_mem_nil, fun _ ↦ rfl⟩
  | cons a l ih =>
      rw [List.mapM_cons, List.forall_mem_cons, ← ih]
      cases f a with
      | none => exact ⟨fun h ↦ absurd h (by simp), fun h ↦ absurd h.1 (by simp)⟩
      | some b =>
          cases l.mapM f with
          | none => exact ⟨fun h ↦ absurd h (by simp), fun h ↦ absurd h.2 (by simp)⟩
          | some bs => exact ⟨fun _ ↦ ⟨rfl, rfl⟩, fun _ ↦ rfl⟩

theorem gsReadRecords_isSome_iff {α : Type} {recordTag : UInt8} {print : Mem → Nat → Option α}
    {value : Mem} {valueLen : Nat} {visited : List (UInt8 × Field)}
    (h : walkTlv value valueLen = some visited) :
    (gsReadRecords recordTag print value valueLen).isSome ↔
      ∀ p ∈ visited, p.1 = recordTag → (print (advance value p.2.off) p.2.len).isSome := by
  rw [gsReadRecords, h, Option.bind_eq_bind, Option.bind_some, mapM_isSome_iff]
  simp only [List.mem_filter, decide_eq_true_eq, and_imp]

/-- The walk of the core and that of the Ground Station are one. -/
theorem readPage_printed {α : Type} (recordTag : UInt8) (print : Mem → Nat → Option α)
    (cursor : PageCursor) (value : Mem) (valueLen : Nat) :
    (readPage recordTag print cursor value valueLen).map Page.printed =
      gsReadRecords recordTag print value valueLen := by
  rw [readPage, gsReadRecords]
  cases walkTlv value valueLen with
  | none => rfl
  | some visited =>
      simp only [Option.bind_eq_bind, Option.bind_some]
      cases (visited.filter fun p ↦ p.1 = recordTag).mapM fun p ↦
          print (advance value p.2.off) p.2.len with
      | none => rfl
      | some printed => rfl

/-! ## 4. The lookups in a record -/

theorem bind_isSome_iff {α β : Type} {x : Option α} {f : α → Option β} {P : Prop}
    (h : ∀ a, (f a).isSome ↔ P) : (x >>= f).isSome ↔ x.isSome ∧ P := by
  cases x with
  | none => exact ⟨fun h ↦ absurd h (by simp), fun h ↦ absurd h.1 (by simp)⟩
  | some a => exact ⟨fun hf ↦ ⟨rfl, (h a).mp hf⟩, fun hP ↦ (h a).mpr hP.2⟩

section Record

variable {record : Mem} {recordLen : Nat}

theorem readReading_isSome_iff (hlen : recordLen ≤ 65535) :
    (readReading record recordLen).isSome ↔
      ∀ tag ∈ readingTags, LookupReturns tag (slice record 0 recordLen) := by
  rw [readReading, bind_isSome_iff fun _ ↦ bind_isSome_iff fun _ ↦ bind_isSome_iff fun _ ↦
    bind_isSome_iff fun _ ↦ bind_isSome_iff fun _ ↦ (iff_of_true rfl trivial)]
  simp only [readField_isSome_iff, findField_returns_iff hlen, readingTags, List.forall_mem_cons,
    List.not_mem_nil, false_implies, implies_true, and_true]

theorem readMeasurementRecord_isSome_iff (hlen : recordLen ≤ 65535) :
    (readMeasurementRecord record recordLen).isSome ↔
      MeasurementFits (slice record 0 recordLen) := by
  rw [readMeasurementRecord, bind_isSome_iff fun _ ↦ bind_isSome_iff fun _ ↦
    (iff_of_true rfl trivial), readField_isSome_iff, findField_returns_iff hlen,
    readReading_isSome_iff hlen, and_true]
  rfl

theorem readEventRecord_isSome_iff :
    (readEventRecord record recordLen).isSome ↔
      (∀ tag ∈ [protoFieldTimestamp, protoFieldEventType, protoFieldEventSource,
        protoFieldMeasurementRecord], protocolFindField record recordLen tag ≠ none) ∧
      ∀ f, protocolFindField record recordLen protoFieldMeasurementRecord = some (.ok f) →
        (readReading (advance record f.off) f.len).isSome := by
  let nested := protocolFindField record recordLen protoFieldMeasurementRecord ≠ none ∧
    ∀ f, protocolFindField record recordLen protoFieldMeasurementRecord = some (.ok f) →
      (readReading (advance record f.off) f.len).isSome
  have hfields : (readEventRecord record recordLen).isSome ↔
      (readField record recordLen protoFieldTimestamp (0 : UInt32) getU32).isSome ∧
      (readField record recordLen protoFieldEventType (0 : UInt8) getU8).isSome ∧
      (readField record recordLen protoFieldEventSource (0 : UInt8) getU8).isSome ∧ nested := by
    rw [readEventRecord]
    refine bind_isSome_iff fun timestamp ↦ bind_isSome_iff fun eventType ↦
      bind_isSome_iff fun eventSource ↦ ?_
    -- the nested measurement
    show _ ↔ protocolFindField record recordLen protoFieldMeasurementRecord ≠ none ∧ _
    cases protocolFindField record recordLen protoFieldMeasurementRecord with
    | none => exact ⟨fun h ↦ absurd h (by simp), fun h ↦ absurd rfl h.1⟩
    | some r =>
        cases r with
        | error e => exact ⟨fun _ ↦ ⟨by simp, fun f h ↦ absurd h (by simp)⟩, fun _ ↦ rfl⟩
        | ok f =>
            have hbind : (readReading (advance record f.off) f.len >>= fun reading ↦
                some ({ timestamp, eventType, eventSource, measurement := some reading } :
                  PrintedEvent)).isSome ↔ (readReading (advance record f.off) f.len).isSome := by
              rw [bind_isSome_iff fun _ ↦ (iff_of_true rfl trivial), and_true]
            constructor
            · intro h
              refine ⟨by simp, fun g hg ↦ ?_⟩
              cases hg
              exact hbind.mp h
            · exact fun h ↦ hbind.mpr (h.2 f rfl)
  rw [hfields]
  simp only [readField_isSome_iff, nested, List.forall_mem_cons, List.not_mem_nil, false_implies,
    implies_true, and_true, and_assoc]

/-- The slice of a nested measurement and its lookups are as they should be. -/
theorem eventFits_iff (hlen : recordLen ≤ 65535) :
    EventFits (slice record 0 recordLen) ↔ (readEventRecord record recordLen).isSome ∧
      ∀ f, protocolFindField record recordLen protoFieldMeasurementRecord = some (.ok f) →
        f.off + f.len ≤ recordLen := by
  rw [readEventRecord_isSome_iff, EventFits]
  simp only [findField_returns_iff hlen, and_assoc]
  apply and_congr_right
  intro _
  constructor
  · intro h
    have hfound : ∀ f, protocolFindField record recordLen protoFieldMeasurementRecord =
        some (.ok f) → f.off + f.len ≤ recordLen ∧
          (readReading (advance record f.off) f.len).isSome := by
      intro f hf
      obtain ⟨hi, lo, rest, hcomes, hall, rfl⟩ := (findField_ok_iff hlen f).mp hf
      obtain ⟨hfit, hreading⟩ := h hi lo rest hcomes
      obtain ⟨hin, hrest⟩ := slice_of_found hlen hcomes
      have hwhole : bigEndian16 hi lo ≤ rest.length := by omega
      have hvalue : slice (advance record (recordLen - rest.length)) 0 (bigEndian16 hi lo) =
          rest.take (bigEndian16 hi lo) := by
        rw [slice_advance, Nat.add_zero, ← slice_take _ _ hwhole, hrest]
      have hreads := (@readReading_isSome_iff (advance record (recordLen - rest.length)) _
        (show bigEndian16 hi lo ≤ 65535 by omega)).mpr (by rw [hvalue]; exact hreading hwhole)
      exact ⟨by dsimp only; omega, hreads⟩
    exact ⟨fun f hf ↦ (hfound f hf).2, fun f hf ↦ (hfound f hf).1⟩
  · rintro ⟨hreads, hinside⟩ hi lo rest hcomes
    obtain ⟨hin, hrest⟩ := slice_of_found hlen hcomes
    have hL := bigEndian16_lt hi lo
    constructor
    · by_contra hwrap
      have hf := hinside _ ((findField_ok_iff hlen _).mpr
        ⟨hi, lo, rest, hcomes, .inr (by omega), rfl⟩)
      dsimp only at hf
      omega
    · intro hwhole
      have hread := hreads _ ((findField_ok_iff hlen _).mpr
        ⟨hi, lo, rest, hcomes, .inl hwhole, rfl⟩)
      dsimp only at hread
      rw [readReading_isSome_iff (show bigEndian16 hi lo ≤ 65535 by omega), slice_advance, Nat.add_zero] at hread
      rwa [← slice_take _ _ hwhole, hrest] at hread

end Record

/-! ## 5. Each walk on each buffer -/

def RecordWalk.ReadsRecord : RecordWalk → Mem → Nat → Prop
  | .getMeasurements, record, recordLen | .requestLog, record, recordLen =>
      (readMeasurementRecord record recordLen).isSome
  | .getEvents, record, recordLen | .requestEvents, record, recordLen =>
      (readEventRecord record recordLen).isSome

section Walk

variable {w : RecordWalk} {value : Mem} {valueLen : Nat}

theorem returns_iff {visited : List (UInt8 × Field)}
    (h : walkTlv value valueLen = some visited) :
    w.Returns value valueLen ↔ ∀ p ∈ visited, p.1 = w.recordTag →
      w.ReadsRecord (advance value p.2.off) p.2.len := by
  have hpage : ∀ {α : Type} (recordTag : UInt8) (print : Mem → Nat → Option α),
      (∀ cursor, (readPage recordTag print cursor value valueLen).isSome) ↔
        ∀ p ∈ visited, p.1 = recordTag → (print (advance value p.2.off) p.2.len).isSome := by
    intro α recordTag print
    rw [← gsReadRecords_isSome_iff h, ← readPage_printed recordTag print {}]
    constructor
    · intro hall
      rw [Option.isSome_map]
      exact hall {}
    · intro hsome cursor
      rwa [← Option.isSome_map, readPage_printed, ← readPage_printed recordTag print {}]
  cases w with
  | getMeasurements => exact hpage _ _
  | getEvents => exact hpage _ _
  | requestLog => exact gsReadRecords_isSome_iff h
  | requestEvents => exact gsReadRecords_isSome_iff h

theorem recordFits_iff {record : Field} (hlen : valueLen ≤ 65535)
    (hin : record.off + record.len ≤ valueLen) :
    w.RecordFits (slice value record.off record.len) ↔
      w.ReadsRecord (advance value record.off) record.len ∧
        ∀ s ∈ w.searched value record, s.off + s.len ≤ valueLen := by
  have hself : ∀ s ∈ [record], s.off + s.len ≤ valueLen :=
    fun s hs ↦ List.mem_singleton.mp hs ▸ hin
  have hbytes : slice value record.off record.len =
      slice (advance value record.off) 0 record.len := by rw [slice_advance, Nat.add_zero]
  have hevent : EventFits (slice value record.off record.len) ↔
      (readEventRecord (advance value record.off) record.len).isSome ∧
        ∀ s ∈ RecordWalk.getEvents.searched value record, s.off + s.len ≤ valueLen := by
    rw [hbytes, eventFits_iff (by omega), RecordWalk.searched]
    apply and_congr_right
    intro _
    cases hnested : protocolFindField (advance value record.off) record.len
        protoFieldMeasurementRecord with
    | none => exact iff_of_true (fun f hf ↦ absurd hf (by simp)) hself
    | some r =>
        cases r with
        | error e => exact iff_of_true (fun f hf ↦ absurd hf (by simp)) hself
        | ok f =>
            -- a length that wraps is no slice of the value either
            obtain ⟨hi, lo, rest, hcomes, hall, rfl⟩ := (findField_ok_iff (by omega) f).mp hnested
            have hrest := (slice_of_found (by omega) hcomes).1
            rw [List.forall_mem_cons, List.forall_mem_singleton]
            constructor
            · intro h
              have hf := h _ rfl
              dsimp only at hf ⊢
              exact ⟨hin, by omega⟩
            · rintro ⟨-, h⟩ f hf
              cases hf
              dsimp only at h ⊢
              omega
  have hmeasurement : MeasurementFits (slice value record.off record.len) ↔
      (readMeasurementRecord (advance value record.off) record.len).isSome ∧
        ∀ s ∈ [record], s.off + s.len ≤ valueLen := by
    rw [hbytes, readMeasurementRecord_isSome_iff (by omega)]
    exact ⟨fun h ↦ ⟨h, hself⟩, fun h ↦ h.1⟩
  cases w with
  | getMeasurements => exact hmeasurement
  | getEvents => exact hevent
  | requestLog => exact hmeasurement
  | requestEvents => exact hevent

end Walk

theorem record_walk_followsGrammar_iff (w : RecordWalk) (value : Mem) (valueLen : Nat)
    (hlen : valueLen ≤ 65535) :
    w.FollowsGrammar value valueLen ↔ w.Fits (slice value 0 valueLen) := by
  obtain ⟨x, hx, -⟩ := siblings_split (slice value 0 valueLen)
  have hle := siblings_length_le (slice value 0 valueLen)
  have hends := @walkTlv_siblings_iff value valueLen hlen
  rw [slice_length] at hle
  generalize hfs : siblings (slice value 0 valueLen) = fs at hx hle hends
  have hin : ∀ p ∈ placed 0 fs, p.2.off + p.2.len ≤ valueLen := by
    intro p hp
    have hp := placed_inside hp
    omega
  -- the records among the TLVs are the records visited
  have hrecords : (∀ f ∈ fs, f.tag = w.recordTag → w.RecordFits f.value) ↔
      ∀ p ∈ placed 0 fs, p.1 = w.recordTag →
        w.ReadsRecord (advance value p.2.off) p.2.len ∧
          ∀ s ∈ w.searched value p.2, s.off + s.len ≤ valueLen := by
    rw [← forall_placed_iff hx fun tag record ↦ tag = w.recordTag → w.RecordFits record]
    apply forall₂_congr
    intro p hp
    rw [recordFits_iff hlen (hin p hp)]
  constructor
  · intro h
    have hvisits := h.visits
    rw [hfs] at hvisits
    have hreturns := (returns_iff hvisits).mp h.returns
    refine { ends := hends.mp hvisits, records := ?_ }
    rw [hfs, hrecords]
    exact fun p hp htag ↦ ⟨hreturns p hp htag, (h.inside _ hvisits p hp).2 htag⟩
  · intro h
    have hvisits := hends.mpr h.ends
    have hall := h.records
    rw [hfs, hrecords] at hall
    refine { returns := (returns_iff hvisits).mpr fun p hp htag ↦ (hall p hp htag).1
             visits := by rw [hfs]; exact hvisits, inside := ?_ }
    intro visited hvisited p hp
    rw [hvisits] at hvisited
    cases hvisited
    exact ⟨hin p hp, fun htag ↦ (hall p hp htag).2⟩

-- a status and a record with a mode
theorem record_walk_followsGrammar_mode :
    RecordWalk.getMeasurements.FollowsGrammar
      (ofList [0x26, 0x00, 0x01, 0x00, 0x29, 0x00, 0x04, 0x2C, 0x00, 0x01, 0x07] 0) 11 := by
  apply (record_walk_followsGrammar_iff _ _ 11 (by decide)).mpr
  let mode : Tlv := { tag := 0x2C, value := [0x07], length_lt := by decide }
  let fs : List Tlv := [{ tag := 0x26, value := [0x00], length_lt := by decide },
    { tag := 0x29, value := tlvBytes [mode], length_lt := by decide }]
  rw [show slice (ofList [0x26, 0x00, 0x01, 0x00, 0x29, 0x00, 0x04, 0x2C, 0x00, 0x01, 0x07] 0) 0
    11 = tlvBytes fs by decide]
  refine { ends := ?_, records := ?_ }
  · exact { short := by rw [siblings_complete]; decide, left := by rw [siblings_complete]; decide }
  · rw [siblings_complete, List.forall_mem_cons, List.forall_mem_singleton]
    refine ⟨fun h ↦ absurd h (by decide), fun _ ↦ ?_⟩
    have hreturns := fun tag ↦ lookupReturns_tlvBytes tag
      (show (tlvBytes [mode]).length ≤ 65535 by decide)
    exact ⟨hreturns _, fun tag _ ↦ hreturns tag⟩

/-- A record that declares five bytes where none is left is visited all the same. -/
theorem record_walk_leaves_value :
    ¬ RecordWalk.getMeasurements.FollowsGrammar (ofList [0x29, 0x00, 0x05] 0) 3 := by
  intro h
  have hvisited : walkTlv (ofList [0x29, 0x00, 0x05] 0) 3 =
      some [(0x29, { off := 3, len := 5 })] := by decide +kernel
  have hin := (h.inside _ hvisited _ List.mem_cons_self).1
  exact absurd hin (by decide)

end SubmarineMonitor
