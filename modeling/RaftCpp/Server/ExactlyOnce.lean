import Mathlib.Data.List.TakeWhile
import RaftCpp.Server.Formats
import RaftCpp.Server.Restart

/-!
# Runs of a server's node

What the thread of a node hands on for application, over a run from its start: the committed entries, in
order and each once, as long as none of them removes the node itself from the cluster.
-/

namespace RaftCpp

open Outcome

namespace RaftNode

variable {F : Formats} {n n₀ : RaftNode} {ts : List (Turn RaftNode RaftNodeEvent)}

/-- The entries that a step hands on for application. -/
def handedOn (t : Turn RaftNode RaftNodeEvent) : List Entry := t.after.calls.filterMap Call.handedOn

/-- What a turn of the loop takes in a step, if it takes something. -/
def takes (t : Turn RaftNode RaftNodeEvent) : Option Ready := t.before.taken t.event

/-- The configuration changes of what a step takes can be read. -/
def WellFormedStep (F : Formats) (t : Turn RaftNode RaftNodeEvent) : Prop :=
  ∀ rd ∈ takes t, ∀ e ∈ rd.committedEntries, WellFormed F e

/-- None of the entries that a step takes removes the node itself. -/
def Remains (F : Formats) (t : Turn RaftNode RaftNodeEvent) : Prop :=
  ∀ rd ∈ takes t, ∀ e ∈ rd.committedEntries, ¬Removes F t.before.id e

instance (t : Turn RaftNode RaftNodeEvent) : Decidable (WellFormedStep F t) :=
  inferInstanceAs (Decidable (∀ rd ∈ takes t, ∀ e ∈ rd.committedEntries, WellFormed F e))

instance (t : Turn RaftNode RaftNodeEvent) : Decidable (Remains F t) :=
  inferInstanceAs (Decidable (∀ rd ∈ takes t, ∀ e ∈ rd.committedEntries, ¬Removes F t.before.id e))

/-- The committed entries are applied exactly once in a run. -/
structure AppliesOnce (F : Formats) (n₀ : RaftNode) (ts : List (Turn RaftNode RaftNodeEvent))
    (n : RaftNode) : Prop where
  /-- The entries that the run takes follow the starting index, in order and without a gap. -/
  delivers : Delivers n₀.appliedIndex (ts.filterMap takes)
  /-- They are those of the log, and committed. -/
  committed : ∀ t ∈ ts, ∀ rd ∈ takes t, ∀ e ∈ rd.committedEntries,
    t.before.node.raft.raftLog.entryAt e.index = some e ∧ e.index ≤ t.before.node.raft.raftLog.committed
  /-- Those that are not empty are handed on, in this order and once. -/
  handedOn : ts.flatMap handedOn =
    (ts.filterMap takes).flatMap fun rd => rd.committedEntries.filter fun e => ¬e.IsBlank
  /-- The two cursors agree. -/
  cursors : (∀ t ∈ ts, t.before.appliedIndex = t.before.settled.raft.raftLog.applied) ∧
    n.appliedIndex = n.settled.raft.raftLog.applied
  /-- `entries_to_apply` does not stop at what comes next. -/
  proceeds : ∀ e : RaftNodeEvent, e.Consecutive → (∀ rd ∈ n.taken e, ∀ e ∈ rd.committedEntries,
    WellFormed F e) → ∀ first applied, n.handle F e ≠ .error (.committedGap first applied)

/-- Without a removal the cursors agree after the step, and all entries are handed on. -/
theorem Handled.remains {e : RaftNodeEvent} {n' : RaftNode} (h : Handled F n e n')
    (hremains : Remains F ⟨n, e, n'⟩) :
    n'.Sound ∧ handedOn ⟨n, e, n'⟩ = ((n.taken e).elim [] fun rd =>
      rd.committedEntries.filter fun e => ¬e.IsBlank) := by
  cases htaken : n.taken e with
  | none =>
    obtain ⟨hindex, happlied, hcalls⟩ := h.none htaken
    exact ⟨⟨h.host, hindex.trans happlied.symm⟩, hcalls⟩
  | some rd =>
    obtain ⟨happlied, hindex, hcalls⟩ := h.some rd htaken
    have hno : ∀ e ∈ rd.committedEntries, ¬Removes F n.id e := hremains rd htaken
    have hall : (rd.committedEntries.takeWhile fun e => ¬Removes F n.id e) = rd.committedEntries :=
      List.takeWhile_eq_self_iff.mpr fun e he => decide_eq_true (hno e he)
    rw [hall] at hindex
    exact ⟨⟨h.host, hindex.trans happlied.symm⟩, hcalls hno⟩

/-- Where the cursors agree after the step, nothing that it took removes the node. -/
theorem Handled.remains_of_sound {e : RaftNodeEvent} {n' : RaftNode} (h : Handled F n e n')
    (hagree : n'.appliedIndex = n'.settled.raft.raftLog.applied) : Remains F ⟨n, e, n'⟩ := by
  intro rd hrd
  obtain ⟨happlied, hindex, -⟩ := h.some rd hrd
  have hlen : (rd.committedEntries.takeWhile fun e => ¬Removes F n.id e).length =
      rd.committedEntries.length := by
    rw [hindex, happlied] at hagree
    exact Nat.add_left_cancel hagree
  have hall := (List.takeWhile_prefix fun e => decide ¬Removes F n.id e).eq_of_length hlen
  intro e he
  exact of_decide_eq_true (List.takeWhile_eq_self_iff.mp hall e he)

/-- What is taken follows what was applied before, and the cursor moves behind it. -/
theorem Sound.takes_follows (hn : n.Sound) {e : RaftNodeEvent} {rd : Ready} (htaken : n.taken e = some rd) :
    n.appliedIndex ≤ rd.base n.appliedIndex ∧
      IndexedFrom (rd.base n.appliedIndex + 1) rd.committedEntries ∧
      ∀ e ∈ rd.committedEntries,
        n.node.raft.raftLog.entryAt e.index = some e ∧ e.index ≤ n.node.raft.raftLog.committed := by
  obtain ⟨-, hready, node, hnode⟩ := ready_of_taken htaken
  have hhost := hn.host
  have happ := hn.applied
  rw [settled_of_none hready] at hhost happ
  obtain ⟨hle, hidx, -, hmem⟩ := hhost.ready_follows hnode
  rw [happ]
  exact ⟨hle, hidx, hmem⟩

/-- A run whose states are all sound delivers the committed entries from where it began. -/
theorem delivers_of_run (hrun : Run F n₀ ts n) (hsound : ∀ t ∈ ts, t.before.Sound)
    (hhandled : ∀ t ∈ ts, Handled F t.before t.event t.after) (hremains : ∀ t ∈ ts, Remains F t) :
    Delivers n₀.appliedIndex (ts.filterMap takes) := by
  induction hrun with
  | nil n => exact trivial
  | @cons n n' n'' e ts hstep _ ih =>
    have ih := ih (fun t ht => hsound t (List.mem_cons_of_mem _ ht))
      (fun t ht => hhandled t (List.mem_cons_of_mem _ ht)) fun t ht => hremains t (List.mem_cons_of_mem _ ht)
    have hn := hsound ⟨n, e, n'⟩ List.mem_cons_self
    have hh := hhandled ⟨n, e, n'⟩ List.mem_cons_self
    have hagree := (hh.remains (hremains _ List.mem_cons_self)).1.applied
    cases htaken : takes ⟨n, e, n'⟩ with
    | none =>
      have hindex : n'.appliedIndex = n.appliedIndex := (hh.none htaken).1
      rw [List.filterMap_cons_none htaken, ← hindex]
      exact ih
    | some rd =>
      obtain ⟨hle, hidx, -⟩ := hn.takes_follows htaken
      have hindex : n'.appliedIndex = rd.base n.appliedIndex + rd.committedEntries.length :=
        hagree.trans (hh.some rd htaken).1
      rw [List.filterMap_cons_some htaken]
      refine ⟨hle, hidx, ?_⟩
      rw [← hindex]
      exact ih

/-- The steps of a run that hand on what they take do so as a whole. -/
theorem handedOn_of_steps (h : ∀ t ∈ ts, handedOn t = ((takes t).elim [] fun rd =>
      rd.committedEntries.filter fun e => ¬e.IsBlank)) :
    ts.flatMap handedOn =
      (ts.filterMap takes).flatMap fun rd => rd.committedEntries.filter fun e => ¬e.IsBlank := by
  induction ts with
  | nil => rfl
  | cons t ts ih =>
    have ih := ih fun t ht => h t (List.mem_cons_of_mem _ ht)
    have ht := h t List.mem_cons_self
    rw [List.flatMap_cons, ih, ht]
    cases htaken : takes t with
    | none =>
      rw [List.filterMap_cons_none htaken]
      rfl
    | some rd =>
      rw [List.filterMap_cons_some htaken, List.flatMap_cons]
      rfl

/-- A sound node does not stop in `entries_to_apply`. -/
theorem Sound.not_committedGap (hn : n.Sound) {e : RaftNodeEvent} (hcons : e.Consecutive)
    (hwell : ∀ rd ∈ n.taken e, ∀ e ∈ rd.committedEntries, WellFormed F e) (first applied : ℕ) :
    n.handle F e ≠ .error (.committedGap first applied) := by
  intro herr
  exact (hn.handle hcons hwell).avoids _ herr trivial

end RaftNode

/-! ## Runs from the start -/

section Runs

variable {F : Formats} {id peers : ℕ} {device : RandomDevice} {disk : Disk} {n₀ n : RaftNode} {data : Bytes}
  {ts : List (Turn RaftNode RaftNodeEvent)}

/-- A node applies the committed entries exactly once in a run from its start if and only if none of those
that it takes removes the node itself. -/
theorem applies_once_iff (hstart : RaftNode.start F id peers device disk = .ok (n₀, data))
    (hrun : RaftNode.Run F n₀ ts n) (hcons : ∀ t ∈ ts, t.event.Consecutive)
    (hwell : ∀ t ∈ ts, RaftNode.WellFormedStep F t) :
    RaftNode.AppliesOnce F n₀ ts n ↔ ∀ t ∈ ts, RaftNode.Remains F t := by
  have hsound₀ : n₀.Sound := (RaftNode.start_spec hstart).sound
  -- A step from a sound node.
  have hstep : ∀ t : Turn RaftNode RaftNodeEvent, t.before.handle F t.event = .ok t.after →
      t.event.Consecutive → RaftNode.WellFormedStep F t → t.before.Sound →
        RaftNode.Handled F t.before t.event t.after := by
    intro t ht hc hw hs
    exact (hs.handle hc hw).ensures _ ht
  constructor
  · intro honce
    -- The cursors agree throughout, so that the node is sound throughout.
    have hagree : ∀ t ∈ ts, t.after.appliedIndex = t.after.settled.raft.raftLog.applied :=
      hrun.after (P := fun n => n.appliedIndex = n.settled.raft.raftLog.applied)
        honce.cursors.1 honce.cursors.2
    have hinv := hrun.invariant (P := RaftNode.Sound)
      (Q := fun t => (t.event.Consecutive ∧ RaftNode.WellFormedStep F t) ∧
        t.after.appliedIndex = t.after.settled.raft.raftLog.applied)
      (fun t ht hq hs => ⟨(hstep t ht hq.1.1 hq.1.2 hs).host, hq.2⟩)
      (fun t ht => ⟨⟨hcons t ht, hwell t ht⟩, hagree t ht⟩) hsound₀
    intro t ht
    have hh := hstep t (hrun.step_mem ht) (hcons t ht) (hwell t ht) (hinv.1 t ht)
    exact hh.remains_of_sound (hagree t ht)
  · intro hremains
    have hinv := hrun.invariant (P := RaftNode.Sound)
      (Q := fun t => (t.event.Consecutive ∧ RaftNode.WellFormedStep F t) ∧ RaftNode.Remains F t)
      (fun t ht hq hs => ((hstep t ht hq.1.1 hq.1.2 hs).remains hq.2).1)
      (fun t ht => ⟨⟨hcons t ht, hwell t ht⟩, hremains t ht⟩) hsound₀
    have hhandled : ∀ t ∈ ts, RaftNode.Handled F t.before t.event t.after := fun t ht =>
      hstep t (hrun.step_mem ht) (hcons t ht) (hwell t ht) (hinv.1 t ht)
    constructor
    · exact RaftNode.delivers_of_run hrun hinv.1 hhandled hremains
    · intro t ht rd hrd
      exact ((hinv.1 t ht).takes_follows hrd).2.2
    · refine RaftNode.handedOn_of_steps fun t ht => ?_
      exact ((hhandled t ht).remains (hremains t ht)).2
    · exact ⟨fun t ht => (hinv.1 t ht).applied, hinv.2.applied⟩
    · exact fun e hc hw => hinv.2.not_committedGap hc hw

end Runs

/-! ## The removal of the node itself -/

/-- The start of the first of three nodes, without files. -/
def firstStart : ServerResult (RaftNode × Bytes) :=
  RaftNode.start msgpackFormats 1 3 { draws := fun _ => 0 } {}

/-- The run through a list of events. -/
def runsThrough (n : RaftNode) (es : List RaftNodeEvent) : List (Turn RaftNode RaftNodeEvent) × RaftNode :=
  Trace.run (RaftNode.handle msgpackFormats) n es

/-- Entries of the second node, the leader of term 1, behind those of the start, all of them committed. -/
def appendFromSecond (es : List Entry) : RaftNodeEvent :=
  .process { type := .msgApp, toId := 1, fromId := 2, term := 1, index := 3, logTerm := 1, entries := es
             commit := 3 + es.length }

/-- The peers are added, and a command is appended. -/
def followsLeader : List RaftNodeEvent :=
  [.pull, appendFromSecond [{ term := 1, index := 4, data := [1] }], .pull]

/-- The peers are added, and then the first node is removed, before another command. -/
def removesFirst : List RaftNodeEvent :=
  let removal : ConfChange := { confChangeType := confChangeRemoveNode, nodeId := 1 }
  [.pull, appendFromSecond [
    { type := .entryConfChange, term := 1, index := 4, data := msgpackFormats.confChange.pack removal },
    { term := 1, index := 5, data := [1] }], .pull]

/-- A command of the leader is applied once. -/
theorem applies_once_iff_followsLeader : Outcome.Returns firstStart fun p =>
    (RaftNode.AppliesOnce msgpackFormats p.1 (runsThrough p.1 followsLeader).1
      (runsThrough p.1 followsLeader).2 ↔
        ∀ t ∈ (runsThrough p.1 followsLeader).1, RaftNode.Remains msgpackFormats t) := by
  have hmeets : Outcome.Returns firstStart fun p =>
      (∀ t ∈ (runsThrough p.1 followsLeader).1, t.event.Consecutive) ∧
        ∀ t ∈ (runsThrough p.1 followsLeader).1, RaftNode.WellFormedStep msgpackFormats t := by
    decide +kernel
  obtain ⟨p, hp, hcons, hwell⟩ := hmeets
  exact ⟨p, hp, applies_once_iff hp (Trace.of_run _ _ _) hcons hwell⟩

/-- After its removal, the first node passes over the next command. -/
theorem command_lost : ¬∀ (F : Formats) (id peers : ℕ) (device : RandomDevice) (disk : Disk)
    (n₀ n : RaftNode) (data : Bytes) (ts : List (Turn RaftNode RaftNodeEvent)),
      RaftNode.start F id peers device disk = .ok (n₀, data) → RaftNode.Run F n₀ ts n →
        (∀ t ∈ ts, t.event.Consecutive) → (∀ t ∈ ts, RaftNode.WellFormedStep F t) →
          RaftNode.AppliesOnce F n₀ ts n := by
  intro hall
  have hmeets : Outcome.Returns firstStart fun p =>
      (∀ t ∈ (runsThrough p.1 removesFirst).1, t.event.Consecutive) ∧
        (∀ t ∈ (runsThrough p.1 removesFirst).1, RaftNode.WellFormedStep msgpackFormats t) ∧
          (runsThrough p.1 removesFirst).2.appliedIndex = 3 ∧
            (runsThrough p.1 removesFirst).2.settled.raft.raftLog.applied = 5 := by
    decide +kernel
  obtain ⟨p, hp, hcons, hwell, hindex, happlied⟩ := hmeets
  have honce := hall _ _ _ _ _ _ _ _ _ hp (Trace.of_run _ _ _) hcons hwell
  have hagree : 3 = 5 := hindex.symm.trans (honce.cursors.2.trans happlied)
  cases hagree

end RaftCpp
