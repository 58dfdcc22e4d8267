import SubmarineMonitor.CentralComputer.TelemetryChain
import SubmarineMonitor.GroundStation.GsSession
import SubmarineMonitor.Storage.SharedDisk

/-!
# EndToEnd — what the Ground Station shows of what the LNC has sent

The records that a session of the Ground Station shows are those the submarine has sent, as far as they had
been received when the session asked for them: in their order, in the range, up to the size of a response,
and none is forgotten in the week behind its receipt (`gs_session_remembers`).  They come from frames that
were intact on the UART, each from one frame (`end_to_end`).
-/

open Reasoning

namespace SubmarineMonitor

/-! ## 1. Definitions -/

/-- The default of every `submarineId` parameter on the LNC link. -/
def lncId : Text := ['L', 'N', 'C', '-', '0', '1']

theorem lncId_plain : PlainName lncId := ⟨by decide, by decide, by decide, by decide, by decide⟩

def AnsweredFrom {α ρ ν : Type} (recordTlv : ρ → Tlv) (shown : ρ → ν) (record : α → ρ)
    (timestamp : ρ → UInt32) (range : GsRange) (own : List (Fin endOfDates × α))
    (outcome : GsOutcome ν) : Prop :=
  ∃ forgotten kept, own = forgotten ++ kept ∧
    (∀ x ∈ forgotten, ∃ y ∈ own, receiptDay x.1 + 7 ≤ receiptDay y.1) ∧
    AnswerOf recordTlv shown ((kept.map (record ·.2)).filter fun r ↦
      range.rangeStart ≤ timestamp r ∧ timestamp r ≤ range.rangeEnd) outcome

/-- Both programs are done: the first request was answered from the records in `first`, and the other one
    from those in `second`. -/
def ShownEnd (range : GsRange) (first second : List ReceivedStore)
    (net : Network GsState GsLinkState UInt8 (List StoreCall)) : Prop :=
  ∃ log events asked,
    net = .ended { phase := .exited 0, log := some log, events := some events } .accept [] asked ∧
    AnsweredFrom measurementRecordTlv shownMeasurement (fun m ↦ m) (·.timestamp) range
      (first.filterMap (·.measurementOf (idText range.submarineId))) log ∧
    AnsweredFrom eventRecordTlv shownEvent StoreEventArgs.event (·.timestamp) range
      (second.filterMap (·.eventOf (idText range.submarineId))) events

theorem answeredFrom_of_query {α ρ ν : Type} {recordTlv : ρ → Tlv} {shown : ρ → ν} {record : α → ρ}
    {timestamp : ρ → UInt32} {range : GsRange} {own : List (Fin endOfDates × α)}
    {outcome : GsOutcome ν} {query : UInt32 → UInt32 → List ρ}
    (hquery : RemembersWeek query record timestamp own)
    (h : AnswerOf recordTlv shown (query range.rangeStart range.rangeEnd) outcome) :
    AnsweredFrom recordTlv shown record timestamp range own outcome := by
  obtain ⟨forgotten, kept, hown, hold, hanswer⟩ := hquery
  rw [hanswer] at h
  exact ⟨forgotten, kept, hown, hold, h⟩

/-! ## 2. A session on a disk with records -/

section Session

variable {dataDir : Text} {ids : Set Text} {disk : Disk} {before during : List ReceivedStore}
  {range : GsRange} {linkMemory : GsLinkMemory} {memory : GsMemory} {leftRoom rightRoom : Nat}

/-- Records of known submarines, received in the order of the clock and stored from empty directories
    on. -/
structure Received (dataDir : Text) (ids : Set Text) (disk : Disk) (log : List ReceivedStore) :
    Prop where
  plain : ∀ a ∈ ids, PlainName a
  starts : StartsEmpty dataDir ids disk
  known : ∀ x ∈ log, x.submarineId ∈ ids
  clock : (log.map (·.received)).Pairwise (· ≤ ·)

theorem Received.front {log front : List ReceivedStore} (h : Received dataDir ids disk log)
    (hfront : front <+: log) : Received dataDir ids disk front where
  plain := h.plain
  starts := h.starts
  known x hx := h.known x (hfront.subset hx)
  clock := h.clock.sublist (hfront.sublist.map _)

theorem diskBehind_append (before later : List ReceivedStore) :
    diskBehind dataDir (diskBehind dataDir disk (before.map ReceivedStore.call))
        (later.map ReceivedStore.call) =
      runState (dcaStore dataDir) disk ((before ++ later).map ReceivedStore.call) := by
  rw [List.map_append]
  exact List.foldl_append.symm

/-- The stores of the first calls are those of the first records. -/
theorem front_of_calls {calls : List StoreCall} (h : calls <+: during.map ReceivedStore.call) :
    ∃ front, front <+: during ∧ calls = front.map ReceivedStore.call := by
  refine ⟨during.take calls.length, List.take_prefix _ _, ?_⟩
  rw [List.map_take]
  exact List.prefix_iff_eq_take.mp h

theorem shownEnd_of_sessionEnd {first second : List ReceivedStore}
    {net : Network GsState GsLinkState UInt8 (List StoreCall)}
    (hid : idText range.submarineId ∈ ids) (hreceived : Received dataDir ids disk (before ++ during))
    (hfirst : first <+: during) (hsecond : second <+: during)
    (h : SessionEnd dataDir (diskBehind dataDir disk (before.map ReceivedStore.call)) range
      (first.map ReceivedStore.call) (second.map ReceivedStore.call) net) :
    ShownEnd range (before ++ first) (before ++ second) net := by
  obtain ⟨log, events, hnet, hlog, hevents⟩ := h
  have hone := hreceived.front ((List.prefix_append_right_inj before).mpr hfirst)
  have htwo := hreceived.front ((List.prefix_append_right_inj before).mpr hsecond)
  rw [diskBehind_append] at hlog hevents
  exact ⟨log, events, _, hnet,
    answeredFrom_of_query (measurements_remembered hone.plain hid hone.starts hone.known hone.clock) hlog,
    answeredFrom_of_query (events_remembered htwo.plain hid htwo.starts htwo.known htwo.clock) hevents⟩

end Session

/-- A record from before the session, and one that is stored while the greeting is on its way. -/
def receivedBefore : List ReceivedStore := [⟨lncId, leapDay, .measurement { timestamp := 5 }⟩]

def receivedDuring : List ReceivedStore :=
  [⟨lncId, ⟨1709164801, by decide⟩, .measurement { timestamp := 6 }⟩]

/-- The store calls of the loop of `main`, at times of the clock, in a process that no signal has ended. -/
structure StoredBy (passes : List MainPass) (log : List ReceivedStore) : Prop where
  goes : runState mainStep true passes = true
  records : log.map (·.record) = mainStores passes
  id : ∀ x ∈ log, x.submarineId = lncId
  clock : (log.map (·.received)).Pairwise (· ≤ ·)

def sentStores (fs : List SentFrame) : List DcaStore :=
  (fs.flatMap SentFrame.intact).flatMap messageStores

def ShowsSent {ρ ν : Type} (shown : ρ → ν) (sent : List ρ) (outcome : GsOutcome ν) : Prop :=
  outcome = .noDataFound ∨ ∃ rs : List ρ, rs.Sublist sent ∧ outcome = .records (rs.map shown)

theorem filterMap_sublist {α β : Type} {f g : α → Option β} (h : ∀ x b, f x = some b → g x = some b)
    (l : List α) : (l.filterMap f).Sublist (l.filterMap g) := by
  induction l with
  | nil => exact List.Sublist.refl _
  | cons x l ih =>
      cases hf : f x with
      | none =>
          rw [List.filterMap_cons_none hf]
          exact ih.trans ((List.sublist_cons_self x l).filterMap g)
      | some b =>
          rw [List.filterMap_cons_some hf, List.filterMap_cons_some (h x b hf)]
          exact ih.cons_cons b

theorem showsSent_of_answeredFrom {α ρ ν : Type} {recordTlv : ρ → Tlv} {shown : ρ → ν} {record : α → ρ}
    {timestamp : ρ → UInt32} {range : GsRange} {own : List (Fin endOfDates × α)}
    {outcome : GsOutcome ν} {sent : List α} (hown : (own.map (·.2)).Sublist sent)
    (h : AnsweredFrom recordTlv shown record timestamp range own outcome) :
    ShowsSent shown (sent.map record) outcome := by
  obtain ⟨forgotten, kept, rfl, -, n, -, houtcome⟩ := h
  rw [houtcome]
  split
  · exact .inl rfl
  · refine .inr ⟨_, ?_, rfl⟩
    have hkept : (kept.map (record ·.2)).Sublist (sent.map record) := by
      rw [List.map_append] at hown
      have htail := ((List.sublist_append_right _ _).trans hown).map record
      rw [List.map_map] at htail
      exact htail
    exact (List.take_sublist _ _).trans (List.filter_sublist.trans hkept)

theorem own_sublist {α : Type} (kind : DcaStore → Option α) (id : Text) (log : List ReceivedStore) :
    ((log.filterMap (·.filedAs kind id)).map (·.2)).Sublist ((log.map (·.record)).filterMap kind) := by
  rw [List.map_filterMap, List.filterMap_map]
  apply filterMap_sublist
  intro x a ha
  obtain ⟨y, hy, rfl⟩ := Option.map_eq_some_iff.mp ha
  exact (ReceivedStore.of_filedAs hy).2.2

theorem showsSent_of_shownEnd {fs : List SentFrame} {passes : List MainPass}
    {log front front' : List ReceivedStore} {range : GsRange}
    {net : Network GsState GsLinkState UInt8 (List StoreCall)}
    (hsub : (mainStores passes).Sublist (sentStores fs)) (hlog : StoredBy passes log)
    (hfront : front <+: log) (hfront' : front' <+: log) (h : ShownEnd range front front' net) :
    ∃ shownLog shownEvents asked,
      net = .ended { phase := .exited 0, log := some shownLog, events := some shownEvents } .accept []
        asked ∧
      ShowsSent shownMeasurement ((sentStores fs).filterMap DcaStore.asMeasurement) shownLog ∧
      ShowsSent shownEvent
        (((sentStores fs).filterMap DcaStore.asEvent).map StoreEventArgs.event) shownEvents := by
  obtain ⟨shownLog, shownEvents, asked, hnet, hmeasured, hoccurred⟩ := h
  have hrecords : ∀ {l : List ReceivedStore}, l <+: log →
      (l.map (·.record)).Sublist (sentStores fs) := by
    intro l hl
    have hall := hl.sublist.map (·.record)
    rw [hlog.records] at hall
    exact hall.trans hsub
  have hshown := showsSent_of_answeredFrom
    ((own_sublist _ _ front).trans ((hrecords hfront).filterMap _)) hmeasured
  rw [List.map_id'] at hshown
  exact ⟨shownLog, shownEvents, asked, hnet, hshown, showsSent_of_answeredFrom
    ((own_sublist _ _ front').trans ((hrecords hfront').filterMap _)) hoccurred⟩

/-- The whole way: frames on the UART with flipped bits that are detected, pieces of any size, clients and
    connections that come and go, a clock that does not go back, a disk that drops old files, and a session
    in any order of its steps and of the stores.  While no signal ends the process the session can come to
    its end from any point, and it shows records of intact frames, each once, in the order in which they were
    sent: of the front that had been stored when it asked, those in the range that the disk remembers, up to
    the size of a response. -/
theorem end_to_end {fs : List SentFrame} {w : ServedState} {is : List IterationInput}
    {unread : Bytes} {passes : List MainPass} (hfs : ∀ f ∈ fs, f.Detectable)
    (hmsgs : ∀ f ∈ fs, f.flips = [] → Incoming 256 f.payload) (hw : w.Initial)
    (hfit : Allowed bridgeIteration ChunkFits w.bridge is) (hfull : Allowed serveStep SendsFully w is)
    (hstream : is.flatMap (·.uartChunk) ++ unread = encodeAll SentFrame.onLine fs)
    (hjoined : JoinedTo passes (runState serveStep w is).wires.reverse) (dataDir : Text) (disk : Disk)
    (hdisk : StartsEmpty dataDir {lncId} disk)
    (before during : List ReceivedStore) (hstored : StoredBy passes (before ++ during))
    (linkMemory : GsLinkMemory) (memory : GsMemory) (leftRoom rightRoom : Nat)
    (parse : Bytes → Option UInt32) (nowTs : UInt32) (lines : List Bytes)
    (hid : idText (gsPrompts parse nowTs lines).submarineId = lncId) (events : List (Event StoreCall))
    (sys : System GsState GsLinkState UInt8 StoreCall)
    (hhistory : sys.history = during.map ReceivedStore.call) :
    let range := gsPrompts parse nowTs lines
    let P := gsSession dataDir (diskBehind dataDir disk (before.map ReceivedStore.call)) linkMemory
      memory range leftRoom rightRoom
    events.foldlM (System.act P) ⟨gsSessionStart, []⟩ = some sys →
    ∃ (rest : List Party) (t : Network GsState GsLinkState UInt8 (List StoreCall))
      (first second : List ReceivedStore),
      (rest.map Event.move).foldlM (System.act P) sys = some ⟨t, sys.history⟩ ∧
        first <+: second ∧ second <+: during ∧ ShownEnd range (before ++ first) (before ++ second) t ∧
        (∃ shownLog shownEvents asked,
          t = .ended { phase := .exited 0, log := some shownLog, events := some shownEvents } .accept []
            asked ∧
          ShowsSent shownMeasurement ((sentStores fs).filterMap DcaStore.asMeasurement) shownLog ∧
          ShowsSent shownEvent
            (((sentStores fs).filterMap DcaStore.asEvent).map StoreEventArgs.event) shownEvents) ∧
        ((∀ p, sys.act P (.move p) = none) → sys.net = t) := by
  intro range P h
  obtain ⟨delivered, -, hwhole, -, -, hstores⟩ := chain_stores hfs hmsgs hw hfit hfull hstream hjoined
  have hsub : (mainStores passes).Sublist (sentStores fs) := by
    rw [hstores]
    exact hwhole.flatMap _
  have hreceived : Received dataDir {lncId} disk (before ++ during) :=
    { plain := by
        rintro a rfl
        exact lncId_plain
      starts := hdisk
      known := hstored.id
      clock := hstored.clock }
  have hlen : range.submarineId.length ≤ 63 := by
    have hsix := congrArg List.length hid
    rw [idText, List.length_map] at hsix
    exact hsix.trans_le (by decide)
  obtain ⟨-, -, rest, t, first, second, hrest, hfirst, hsecond, hend, hstuck⟩ :=
    session_completes hlen h
  rw [hhistory] at hsecond
  obtain ⟨second, hduring, rfl⟩ := front_of_calls hsecond
  obtain ⟨first, hfront, rfl⟩ := front_of_calls hfirst
  have hshown := shownEnd_of_sessionEnd hid hreceived (hfront.trans hduring) hduring hend
  exact ⟨rest, t, first, second, hrest, hfront, hduring, hshown,
    showsSent_of_shownEnd hsub hstored
      ((List.prefix_append_right_inj before).mpr (hfront.trans hduring))
      ((List.prefix_append_right_inj before).mpr hduring) hshown, hstuck⟩

def receivedReport : List ReceivedStore := [⟨lncId, leapDay, .measurement {}⟩]

theorem end_to_end_one_report :
    let range := gsPrompts (fun _ ↦ none) 1709164802 []
    let P := gsSession ['d'] (diskBehind ['d'] emptyDisk
      (receivedReport.map ReceivedStore.call)) ⟨fun _ _ ↦ 0, fun _ _ ↦ zeroFrame⟩ zeroMemory range 0 0
    ∃ (rest : List Party) (t : Network GsState GsLinkState UInt8 (List StoreCall)),
      (rest.map Event.move).foldlM (System.act P) ⟨gsSessionStart, []⟩ = some ⟨t, []⟩ ∧
        ShownEnd range receivedReport receivedReport t := by
  intro range P
  have hstored : StoredBy chainPasses (receivedReport ++ []) :=
    { goes := by decide +kernel
      records := by decide +kernel
      id := by
        show ∀ x ∈ receivedReport, x.submarineId = lncId
        decide
      clock := by decide }
  obtain ⟨rest, t, first, second, hrest, hfirst, hsecond, hend, -, -⟩ := end_to_end
    chainFrames_detectable chainFrames_incoming (show chainStart.Initial from ⟨rfl, rfl, rfl⟩)
    chainRun_fits chainRun_sends chainRun_stream chainPasses_joined ['d'] emptyDisk
    (startsEmpty_emptyDisk ⟨by decide, by decide, by decide, by decide, by decide⟩ _) receivedReport []
    hstored ⟨fun _ _ ↦ 0, fun _ _ ↦ zeroFrame⟩ zeroMemory 0 0
    (fun _ ↦ none) 1709164802 [] rfl [] ⟨gsSessionStart, []⟩ rfl rfl
  obtain rfl := List.prefix_nil.mp hsecond
  obtain rfl := List.prefix_nil.mp hfirst
  exact ⟨rest, t, hrest, hend⟩

end SubmarineMonitor
