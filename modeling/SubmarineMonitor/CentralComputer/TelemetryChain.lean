import SubmarineMonitor.Bridge.Clients
import SubmarineMonitor.Bridge.NoisyLine
import SubmarineMonitor.CentralComputer.Reconnects
import Mathlib.Data.List.Forall2

/-!
# TelemetryChain — from the UART of the LNC to the store calls of the Central Computer

Frames come over the UART with bits flipped in some of them, the bridge reads them in pieces of any size
and passes them to whatever client it has, the connections drop anywhere, and the Central Computer connects
again until SIGPIPE ends it.  What it stores is worth some of the messages that were sent intact, in the
order they were sent and none of them twice (`telemetry_chain`).
-/

open Reasoning

namespace SubmarineMonitor

def linksOf (passes : List MainPass) : List LncLink := passes.filterMap (·.connected)

/-- The Central Computer's connections are connections of the bridge, in their order, and each brings a front
    of what the bridge put on it. -/
def JoinedTo (passes : List MainPass) (wires : List Bytes) : Prop :=
  List.SublistForall₂ (fun (link : LncLink) wire ↦ link.incoming <+: wire) (linksOf passes) wires

/-- One client comes in the first iteration and stays to the end, and its connection brings all of it; no
    signal ends its process. -/
structure OneSession (w : ServedState) (is : List IterationInput) (passes : List MainPass) : Prop where
  listens : 0 ≤ w.bridge.server.listenFd
  comes : ∃ i js, is = i :: js ∧ 0 ≤ i.acceptFd
  stays : Allowed serveStep KeepsClient w is
  arrives : (linksOf passes).map LncLink.incoming = (runState serveStep w is).wires
  goes : ∀ p ∈ passes, ¬ p.Signalled

theorem whole_eq (passes : List MainPass) :
    passes.flatMap MainPass.whole = (linksOf passes).flatMap fun link ↦ messagesIn link.incoming := by
  induction passes with
  | nil => rfl
  | cons p passes ih =>
      rw [List.flatMap_cons, ih, MainPass.whole]
      cases hconnected : p.connected with
      | none =>
          have hlinks : linksOf (p :: passes) = linksOf passes := List.filterMap_cons_none hconnected
          rw [hlinks]
          rfl
      | some link =>
          have hlinks : linksOf (p :: passes) = link :: linksOf passes :=
            List.filterMap_cons_some hconnected
          rw [hlinks, List.flatMap_cons, Option.toList_some, List.flatMap_singleton]

/-- What comes whole over the connections is among what they were given. -/
theorem whole_sublist {links : List LncLink} {given : List (Bytes × List Bytes)}
    (hfront : ∀ x ∈ given, x.1 <+: encodeAll tcpMessage x.2)
    (hmsgs : ∀ x ∈ given, ∀ m ∈ x.2, Incoming 256 m)
    (h : List.SublistForall₂ (fun (link : LncLink) x ↦ link.incoming <+: x.1) links given) :
    (links.flatMap fun link ↦ messagesIn link.incoming).Sublist (given.map (·.2)).flatten ∧
      ∀ link ∈ links, ∃ msgs, (∀ m ∈ msgs, Incoming 256 m) ∧
        link.incoming <+: encodeAll tcpMessage msgs := by
  induction h with
  | nil => exact ⟨List.nil_sublist _, fun link hlink ↦ absurd hlink List.not_mem_nil⟩
  | @cons link x links given hlink _ ih =>
      obtain ⟨hx, hgiven⟩ := List.forall_mem_cons.mp hfront
      obtain ⟨hxmsgs, hgivenmsgs⟩ := List.forall_mem_cons.mp hmsgs
      obtain ⟨hsub, hall⟩ := ih hgiven hgivenmsgs
      have hwhole := (messagesIn_front hxmsgs (hlink.trans hx)).1.sublist
      refine ⟨?_, List.forall_mem_cons.mpr ⟨⟨x.2, hxmsgs, hlink.trans hx⟩, hall⟩⟩
      rw [List.flatMap_cons, List.map_cons, List.flatten_cons]
      exact hwhole.append hsub
  | @cons_right x links given _ ih =>
      obtain ⟨hsub, hall⟩ := ih (List.forall_mem_cons.mp hfront).2 (List.forall_mem_cons.mp hmsgs).2
      refine ⟨?_, hall⟩
      rw [List.map_cons, List.flatten_cons]
      exact hsub.trans (List.sublist_append_right _ _)

section Chain

variable {fs : List SentFrame} {w : ServedState} {is : List IterationInput} {unread : Bytes}
  {passes : List MainPass}

/-- The connections bring some of the payloads that the bridge forwarded. -/
theorem joined_sublist {ps : List Bytes} {clientFd : Int} {wires : List Bytes}
    (hserves : Serves clientFd wires ps) (hmsgs : ∀ p ∈ ps, Incoming 256 p)
    (hjoined : JoinedTo passes wires.reverse) :
    (passes.flatMap MainPass.whole).Sublist ps ∧ ∀ p ∈ passes, p.Bridged := by
  obtain ⟨given, rfl, hfront, hsub, -⟩ := hserves.given
  rw [← List.map_reverse] at hjoined hsub
  rw [JoinedTo, List.sublistForall₂_map_right_iff] at hjoined
  have hfront' : ∀ x ∈ given.reverse, x.1 <+: encodeAll tcpMessage x.2 := fun x hx ↦
    hfront x (List.mem_reverse.mp hx)
  have hgiven : ∀ x ∈ given.reverse, ∀ m ∈ x.2, Incoming 256 m := fun x hx m hm ↦
    hmsgs m (hsub.subset (List.mem_flatten_of_mem (List.mem_map_of_mem hx) hm))
  obtain ⟨hwhole, hbridged⟩ := whole_sublist hfront' hgiven hjoined
  rw [whole_eq]
  exact ⟨hwhole.trans hsub, fun p hp link hlink ↦ hbridged link (List.mem_filterMap.mpr ⟨p, hp, hlink⟩)⟩

theorem intact_incoming (hmsgs : ∀ f ∈ fs, f.flips = [] → Incoming 256 f.payload) :
    ∀ p ∈ fs.flatMap SentFrame.intact, Incoming 256 p := by
  intro p hp
  obtain ⟨f, hf, hp⟩ := List.mem_flatMap.mp hp
  rw [SentFrame.intact] at hp
  by_cases hflips : f.flips = []
  · rw [if_pos hflips, List.mem_singleton] at hp
    rw [hp]
    exact hmsgs f hf hflips
  · rw [if_neg hflips] at hp
    exact absurd hp List.not_mem_nil

theorem one_session_whole (hw : w.Initial) (hone : OneSession w is passes)
    (hmsgs : ∀ p ∈ forwarded w.bridge is, Incoming 256 p) :
    passes.flatMap MainPass.whole = forwarded w.bridge is := by
  obtain ⟨i, js, rfl, haccept⟩ := hone.comes
  have harrives := hone.arrives
  rw [one_client_served hw hone.listens haccept hone.stays] at harrives
  rw [whole_eq, ← List.flatMap_map LncLink.incoming messagesIn, harrives, List.flatMap_singleton]
  have hge := tcpMessages_length_ge (forwarded w.bridge (i :: js))
  have hall := @wholeMessages_stream [] (forwarded w.bridge (i :: js))
    ((encodeAll tcpMessage (forwarded w.bridge (i :: js))).length + 1) (.inl rfl)
    (fun m hm ↦ Nat.lt_of_le_of_lt (hmsgs m hm).fits (by decide)) (by omega)
  rw [List.append_nil] at hall
  exact hall

/-- What is taken of the connections are payloads of intact frames, and those are stored. -/
theorem chain_stores (hfs : ∀ f ∈ fs, f.Detectable)
    (hmsgs : ∀ f ∈ fs, f.flips = [] → Incoming 256 f.payload) (hw : w.Initial)
    (hfit : Allowed bridgeIteration ChunkFits w.bridge is) (hfull : Allowed serveStep SendsFully w is)
    (hstream : is.flatMap (·.uartChunk) ++ unread = encodeAll SentFrame.onLine fs)
    (hjoined : JoinedTo passes (runState serveStep w is).wires.reverse) :
    ∃ taken, TakenBy passes taken ∧ taken.Sublist (fs.flatMap SentFrame.intact) ∧
      (runState mainStep true passes = true ↔ ∀ p ∈ passes, ¬ p.Signalled) ∧
      mainHandled passes = taken.flatMap handlerCalls ∧
      mainStores passes = taken.flatMap messageStores := by
  obtain ⟨taken, rest, rfl, hforwarded, -⟩ := uplink_passes hfs hw.bridge hfit hstream
  have hsent : (forwarded w.bridge is).Sublist ((taken ++ rest).flatMap SentFrame.intact) := by
    rw [hforwarded, List.flatMap_append]
    exact List.sublist_append_left _ _
  have hincoming : ∀ p ∈ forwarded w.bridge is, Incoming 256 p := fun p hp ↦
    intact_incoming hmsgs p (hsent.subset hp)
  obtain ⟨hsub, hbridged⟩ := joined_sublist (clients_served hw hfull) hincoming hjoined
  obtain ⟨delivered, htaken, hworth⟩ := stored_passes passes hbridged
  exact ⟨delivered, htaken, htaken.front.sublist.trans (hsub.trans hsent), hworth⟩

end Chain

/-- A report with two flipped bits and an intact one, in one piece, and a client from the start. -/
def chainFrames : List SentFrame := [⟨emptyReport, [16, 5]⟩, ⟨emptyReport, []⟩]

def chainIteration (acceptFd : Int) (uartChunk : Bytes) : IterationInput :=
  { uartIteration uartChunk with acceptFd, sentPrefix := 4, sentData := 6 }

def chainRun : List IterationInput :=
  [chainIteration 4 (encodeAll SentFrame.onLine chainFrames), chainIteration (-1) []]

def chainStart : ServedState := { bridge := bridgeStart, wires := [] }

def chainPasses : List MainPass :=
  [⟨some ⟨tcpMessage emptyReport, 0⟩, 1000, fun _ ↦ ⟨fun _ ↦ 0, 0, fun _ ↦ 0, 0, fun _ ↦ 0⟩,
    fun _ _ ↦ 0, fun _ ↦ false⟩]

theorem chainRun_keepsClient : Allowed serveStep KeepsClient chainStart chainRun := by
  have hfirst : (uplinkStep bridgeStart.uplink (encodeAll SentFrame.onLine chainFrames)).2 = none := by
    decide +kernel
  have hsecond : (uplinkStep (serveStep chainStart
      (chainIteration 4 (encodeAll SentFrame.onLine chainFrames))).1.bridge.uplink []).2 =
        some emptyReport := by
    decide +kernel
  have hstays : ∀ acceptFd chunk, (chainIteration acceptFd chunk).recvOutcome ≠ .closed := by
    intro acceptFd chunk h
    cases h
  simp only [chainRun, allowed_cons]
  generalize encodeAll SentFrame.onLine chainFrames = chunk at hfirst hsecond ⊢
  refine ⟨⟨fun payload hup ↦ ?_, hstays _ _⟩, ⟨fun payload hup ↦ ?_, hstays _ _⟩, allowed_nil _ _ _⟩
  · cases hfirst.symm.trans hup
  · cases hsecond.symm.trans hup
    exact ⟨rfl, by decide⟩

theorem chainFrames_detectable : ∀ f ∈ chainFrames, f.Detectable := by
  intro f hf
  rcases List.mem_cons.mp hf with rfl | hf
  · exact ⟨by decide +kernel, by decide, by decide +kernel, .inr (.inr ⟨16, 5, rfl, by decide⟩)⟩
  · obtain rfl := List.mem_singleton.mp hf
    exact ⟨by decide +kernel, by decide, by decide +kernel, .inl rfl⟩

theorem chainFrames_incoming : ∀ f ∈ chainFrames, f.flips = [] → Incoming 256 f.payload := by
  intro f hf _
  have hreport : ∀ f ∈ chainFrames, f.payload = emptyReport := by decide
  rw [hreport f hf]
  exact emptyReport_incoming

theorem chainRun_fits : Allowed bridgeIteration ChunkFits bridgeStart chainRun := by
  simp only [chainRun, allowed_cons]
  exact ⟨by decide +kernel, by decide +kernel, allowed_nil _ _ _⟩

theorem chainRun_sends : Allowed serveStep SendsFully chainStart chainRun := fun p hp ↦
  (chainRun_keepsClient p hp).sendsFully

theorem chainRun_stream :
    chainRun.flatMap (·.uartChunk) ++ [] = encodeAll SentFrame.onLine chainFrames := by
  decide +kernel

theorem chainRun_wires : (runState serveStep chainStart chainRun).wires = [tcpMessage emptyReport] := by
  decide +kernel

theorem chainPasses_joined : JoinedTo chainPasses (runState serveStep chainStart chainRun).wires.reverse := by
  rw [chainRun_wires]
  exact .cons (List.prefix_refl _) .nil

theorem chainPasses_go : ∀ p ∈ chainPasses, ¬ p.Signalled := by
  rintro p hp ⟨link, hlink, k, hk, hsignal⟩
  obtain rfl := List.mem_singleton.mp hp
  cases hsignal

end SubmarineMonitor
