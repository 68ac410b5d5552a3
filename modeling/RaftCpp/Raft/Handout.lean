import RaftCpp.Raft.Host

/-!
# What is handed to the application

The messages that a node queues and the reads that it has ready to be served are handed out with the next
`Ready`. The messages are taken from the node when they are handed out. The reads are cleared when the
node advances, and with them those that have become ready in the meantime.
-/

namespace RaftCpp

open Outcome

variable {c : Cause} {r r' : Raft}

/-! ## What a node queues -/

/-- A move adds to the messages and to the reads, and takes nothing from them. -/
theorem Move.queues (h : Move c r r') : r.msgs <+: r'.msgs ∧ r.readStates <+: r'.readStates := by
  have hsame : r'.msgs = r.msgs → r'.readStates = r.readStates →
      r.msgs <+: r'.msgs ∧ r.readStates <+: r'.readStates := fun hm hr => by
    rw [hm, hr]
    exact ⟨List.prefix_rfl, List.prefix_rfl⟩
  have hreset : ∀ t, (r.reset t).msgs = r.msgs ∧ (r.reset t).readStates = r.readStates := fun t => by
    unfold Raft.reset Raft.resetRandomizedElectionTimeout Raft.abortLeaderTransfer
    dsimp only
    split_ifs
    · exact ⟨rfl, rfl⟩
    · exact ⟨rfl, rfl⟩
  cases h with
  | other h => exact hsame (congrArg Outline.msgs h) (congrArg Outline.readStates h)
  | send x hx h =>
    obtain ⟨rfl, -⟩ := Raft.send_eq h
    exact ⟨List.prefix_append _ _, List.prefix_rfl⟩
  | read rs => exact ⟨List.prefix_rfl, List.prefix_append _ _⟩
  | follow t lead h => exact hsame (hreset t).1 (hreset t).2
  | campaign hstate h => exact hsame (hreset _).1 (hreset _).2
  | lead hstate hcount => exact hsame (hreset _).1 (hreset _).2
  | members hc h => exact hsame (congrArg Outline.msgs h) (congrArg Outline.readStates h)
  | _ => exact hsame rfl rfl

/-- Moves add to the messages and to the reads, and take nothing from them. -/
theorem Course.queues (h : Course c r r') : r.msgs <+: r'.msgs ∧ r.readStates <+: r'.readStates := by
  induction h with
  | refl => exact ⟨List.prefix_rfl, List.prefix_rfl⟩
  | tail _ hmove ih => exact ⟨ih.1.trans hmove.queues.1, ih.2.trans hmove.queues.2⟩

/-! ## What is handed out -/

namespace Host

/-- The messages that wait for the next `Ready`. -/
def waitingMsgs (h : Host) : List Message := h.node.raft.msgs

/-- The reads that wait for the next `Ready`: those that the outstanding one does not carry. -/
def waitingReads (h : Host) : List ReadState :=
  h.node.raft.readStates.drop ((h.ready.map (·.readStates.length)).getD 0)

/-- The reads that the outstanding `Ready` carries are still there. -/
def ReadsKept (h : Host) : Prop := ∀ rd, h.ready = some rd → rd.readStates <+: h.node.raft.readStates

/-- The messages that a step queues. -/
def queuedMsgs (t : Turn Host HostEvent) : List Message :=
  t.after.node.raft.msgs.drop t.before.node.raft.msgs.length

/-- The reads that a step makes ready. -/
def queuedReads (t : Turn Host HostEvent) : List ReadState :=
  t.after.node.raft.readStates.drop t.before.node.raft.readStates.length

/-- The `Ready` that a step hands out. -/
def handedOut (t : Turn Host HostEvent) : Option Ready :=
  match t.event, t.before.ready with
  | .ready, none => t.after.ready
  | _, _ => none

/-- The messages in it. -/
def handedMsgs (t : Turn Host HostEvent) : List Message := ((handedOut t).map (·.messages)).getD []

/-- The reads in it. -/
def handedReads (t : Turn Host HostEvent) : List ReadState := ((handedOut t).map (·.readStates)).getD []

end Host

/-- The node advances past a `Ready` with reads, and another read has become ready since. -/
def HostEvent.ClearsReads (h : Host) : HostEvent → Prop
  | .advance => ∃ rd ∈ h.ready, rd.readStates ≠ [] ∧ h.node.raft.readStates ≠ rd.readStates
  | _ => False

instance (h : Host) (e : HostEvent) : Decidable (e.ClearsReads h) :=
  match e with
  | .advance =>
    match hr : h.ready with
    | some rd =>
      if hc : rd.readStates ≠ [] ∧ h.node.raft.readStates ≠ rd.readStates then
        .isTrue ⟨rd, hr, hc⟩
      else .isFalse fun ⟨rd', hr', hc'⟩ => hc (by rw [hr] at hr'; cases hr'; exact hc')
    | none => .isFalse fun ⟨_, hr', _⟩ => by rw [hr] at hr'; cases hr'
  | .step _ | .call _ | .tick | .applyConfChange _ | .ready | .persist | .createSnapshot _ _ _
  | .compact _ => .isFalse id

namespace Host

/-- The reads that a step clears without having handed them out. -/
def lostReads (t : Turn Host HostEvent) : List ReadState :=
  match t.event, t.before.ready with
  | .advance, some rd => if rd.readStates ≠ [] then t.before.waitingReads else []
  | _, _ => []

variable {h h' : Host} {e : HostEvent}

/-- A step takes the messages that it hands out from the front, and queues at the end. -/
theorem msgs_balance (hh : h.handle e = .ok h') :
    h.waitingMsgs ++ queuedMsgs ⟨h, e, h'⟩ = handedMsgs ⟨h, e, h'⟩ ++ h'.waitingMsgs := by
  unfold waitingMsgs queuedMsgs handedMsgs handedOut
  dsimp only
  cases handled hh with
  | moved hc hmoves =>
    rw [List.prefix_iff_eq_append.mp hmoves.queues.1]
    cases e <;> cases hc <;> rfl
  | nothing he =>
    rcases he with ⟨rfl, hne⟩ | ⟨rfl | rfl, -⟩
    · cases hr : h.ready with
      | none => exact absurd hr hne
      | some rd => simp
    · simp
    · simp
  | ready hnone hn =>
    obtain ⟨hmsgs, -, -, -, -, size, rfl⟩ := RawNode.ready_eq hn
    simp [hnone, hmsgs]
  | persist hsome hs => simp [RawNode.setStorage]
  | advance hsome => simp [RawNode.advance]
  | createSnapshot hs => simp [RawNode.setStorage]
  | compact hs => simp [RawNode.setStorage]

/-- Nothing is handed out while a `Ready` is outstanding, nor on any other event. -/
theorem handedOut_eq_none (hready : ¬(e = .ready ∧ h.ready = none)) : handedOut ⟨h, e, h'⟩ = none := by
  unfold handedOut
  cases e with
  | ready =>
    cases hr : h.ready with
    | none => exact absurd ⟨rfl, hr⟩ hready
    | some rd => rfl
  | _ => rfl

/-- What a step hands out was queued before it. -/
theorem handedMsgs_subset (hh : h.handle e = .ok h') :
    handedMsgs ⟨h, e, h'⟩ ⊆ h.node.raft.msgs := by
  by_cases hready : e = .ready ∧ h.ready = none
  · obtain ⟨rfl, hnone⟩ := hready
    unfold handedMsgs handedOut
    dsimp only
    cases handled hh with
    | moved hc _ => cases hc
    | nothing _ => simp [hnone]
    | ready _ hn =>
      obtain ⟨hmsgs, -⟩ := RawNode.ready_eq hn
      simp [hnone, hmsgs]
  · unfold handedMsgs
    rw [handedOut_eq_none hready]
    exact List.nil_subset _

/-- The reads of the outstanding `Ready` stay until the node advances. -/
theorem readsKept_handle (hh : h.handle e = .ok h') (hkept : h.ReadsKept) : h'.ReadsKept := by
  unfold ReadsKept at hkept ⊢
  cases handled hh with
  | moved hc hmoves => exact fun rd hrd => (hkept rd hrd).trans hmoves.queues.2
  | nothing he => exact hkept
  | ready hnone hn =>
    obtain ⟨-, hreads, -, -, -, size, rfl⟩ := RawNode.ready_eq hn
    rintro _ ⟨⟩
    rw [hreads]
  | persist hsome hs => exact hkept
  | advance hsome => exact nofun
  | createSnapshot hs => exact hkept
  | compact hs => exact hkept

/-- A step takes the reads that it hands out, and those that it loses, from the front, and makes
others ready at the end. -/
theorem reads_balance (hh : h.handle e = .ok h') (hkept : h.ReadsKept) :
    h.waitingReads ++ queuedReads ⟨h, e, h'⟩ =
      handedReads ⟨h, e, h'⟩ ++ lostReads ⟨h, e, h'⟩ ++ h'.waitingReads := by
  unfold queuedReads handedReads handedOut lostReads
  dsimp only
  cases handled hh with
  | moved hc hmoves =>
    have hpre := hmoves.queues.2
    have hlen : (h.ready.map (·.readStates.length)).getD 0 ≤ h.node.raft.readStates.length := by
      cases hr : h.ready with
      | none => exact Nat.zero_le _
      | some rd => exact (hkept rd hr).length_le
    rename_i c n
    have hwait : h.waitingReads ++ n.raft.readStates.drop h.node.raft.readStates.length =
        n.raft.readStates.drop ((h.ready.map (·.readStates.length)).getD 0) := by
      conv_rhs => rw [← List.prefix_iff_eq_append.mp hpre, List.drop_append_of_le_length hlen]
      rfl
    rw [hwait]
    cases e <;> cases hc <;> rfl
  | nothing he =>
    rcases he with ⟨rfl, hne⟩ | ⟨rfl | rfl, hnone⟩
    · cases hr : h.ready with
      | none => exact absurd hr hne
      | some rd => simp
    · simp
    · simp [hnone]
  | ready hnone hn =>
    obtain ⟨-, hreads, -, -, -, size, rfl⟩ := RawNode.ready_eq hn
    simp [hnone, hreads, waitingReads]
  | persist hsome hs => simp [RawNode.setStorage, waitingReads]
  | advance hsome =>
    rename_i rd
    by_cases hne : rd.readStates = []
    · simp [hsome, hne, waitingReads, RawNode.advance]
    · simp [hsome, hne, waitingReads, RawNode.advance]
  | createSnapshot hs => simp [RawNode.setStorage, waitingReads]
  | compact hs => simp [RawNode.setStorage, waitingReads]

/-- A step loses reads exactly if the node advances past a `Ready` with reads after another read has
become ready. -/
theorem lostReads_eq_nil_iff (hkept : h.ReadsKept) :
    lostReads ⟨h, e, h'⟩ = [] ↔ ¬e.ClearsReads h := by
  unfold lostReads HostEvent.ClearsReads
  cases e with
  | advance =>
    cases hr : h.ready with
    | none => simp
    | some rd =>
      obtain ⟨zs, hzs⟩ := hkept rd hr
      simp [waitingReads, hr, ← hzs]
  | _ => simp

/-- What a run from a node without an outstanding `Ready` hands out: every queued message and every read
that has become ready, in order, once, but for those that still wait. -/
structure HandsOut (h₀ : Host) (ts : List (Turn Host HostEvent)) (h : Host) : Prop where
  /-- The messages. -/
  msgs : h₀.waitingMsgs ++ ts.flatMap queuedMsgs = ts.flatMap handedMsgs ++ h.waitingMsgs
  /-- The reads. -/
  reads : h₀.waitingReads ++ ts.flatMap queuedReads = ts.flatMap handedReads ++ h.waitingReads

end Host

/-- Nothing is lost between `ready` and `advance`, exactly if the node never advances past a `Ready` with
reads after another read has become ready. -/
theorem hands_out_iff {n : RawNode} {h : Host} {ts : List (Turn Host HostEvent)}
    (hrun : Host.Run { node := n } ts h) :
    Host.HandsOut { node := n } ts h ↔ ∀ t ∈ ts, ¬t.event.ClearsReads t.before := by
  have hkept := (hrun.invariant (P := Host.ReadsKept) (Q := fun _ => True)
    (fun t ht _ hk => Host.readsKept_handle ht hk) (fun _ _ => trivial) nofun).1
  have hmsgs := hrun.balance fun t ht => Host.msgs_balance (hrun.step_mem ht)
  have hreads := hrun.balance_iff fun t ht => Host.reads_balance (hrun.step_mem ht) (hkept t ht)
  have hlost : (∀ t ∈ ts, Host.lostReads t = []) ↔ ∀ t ∈ ts, ¬t.event.ClearsReads t.before :=
    forall₂_congr fun t ht => Host.lostReads_eq_nil_iff (hkept t ht)
  rw [← hlost, ← hreads]
  exact ⟨fun hall => hall.reads, fun hr => ⟨hmsgs, hr⟩⟩

/-- A read request with a context. -/
def readIndexMsg (ctx : Bytes) : Message :=
  { type := .msgReadIndex, fromId := 1, toId := 1, entries := [{ data := ctx }] }

/-- A voter that is alone is elected, and serves a read. -/
def servedOne : List (Turn Host HostEvent) × Host :=
  Trace.run Host.handle { node := (Host.started soloConfig).node }
    [.tick, .tick, .ready, .persist, .advance, .step (readIndexMsg [1]), .ready, .persist, .advance]

/-- The read is handed out. -/
theorem hands_out_servedOne : Host.HandsOut { node := (Host.started soloConfig).node } servedOne.1
    servedOne.2 :=
  (hands_out_iff (Trace.of_run _ _ _)).mpr (by decide +kernel)

/-- The voter is asked for another read while it hands out the first one. -/
def servedTwo : List (Turn Host HostEvent) × Host :=
  Trace.run Host.handle (Host.started soloConfig)
    [.tick, .tick, .ready, .advance, .step (readIndexMsg [1]), .ready, .step (readIndexMsg [2]),
      .advance, .ready]

/-- The second read is never handed out. -/
theorem second_read_lost : ¬ ∀ (c : Config) (h₀ h : Host) (ts : List (Turn Host HostEvent)),
    Host.boot c = .ok h₀ → Host.Run h₀ ts h →
    (∀ t ∈ ts, t.event.IsPeerOrTick ∨ t.event = .ready ∨ t.event = .advance) →
    Host.HandsOut h₀ ts h := by
  intro hall
  have hout := hall soloConfig _ servedTwo.2 servedTwo.1 (Host.boot_started (by decide +kernel))
    (Trace.of_run _ _ _) (by decide +kernel)
  exact absurd hout.reads (by decide +kernel)

end RaftCpp
