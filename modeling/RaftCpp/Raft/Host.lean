import RaftCpp.Library.Trace
import RaftCpp.Raft.Handlers

/-!
# A node and its application

The application around a node hands it messages and ticks, and goes through rounds: it takes what is
ready, writes the snapshot and the entries of it to the storage, and lets the node advance. In between
it may hand the node more messages, apply configuration changes, and compact the storage.
-/

namespace RaftCpp

open Outcome

/-- The application's part of a round that writes to the storage: `apply_snapshot` if there is a
snapshot, and `append`. -/
def Ready.persist (rd : Ready) (s : MemoryStorage) : Result MemoryStorage :=
  let s := if rd.snapshot.isEmpty then s else (s.applySnapshot rd.snapshot).2
  s.append rd.entries

/-- A node, and the application's place in its round. -/
structure Host where
  /-- The node. Its storage is part of it. -/
  node : RawNode
  /-- What was taken as ready and is not advanced yet. -/
  ready : Option Ready := none
  /-- Whether that is written to the storage. -/
  persisted : Bool := false

/-- What the application does. -/
inductive HostEvent
  /-- It hands over a message of a peer. -/
  | step (m : Message)
  /-- It asks the node for something: a campaign, a proposal, a read, or a transfer of the leadership,
  each of which the node steps into itself as a message. -/
  | call (m : Message)
  /-- The clock ticks. -/
  | tick
  /-- It applies a configuration change. -/
  | applyConfChange (cc : ConfChange)
  /-- It takes what is ready. -/
  | ready
  /-- It writes that to the storage. -/
  | persist
  /-- It lets the node advance. -/
  | advance
  /-- It puts a snapshot of its state into the storage. -/
  | createSnapshot (index : ℕ) (cs : Option ConfState) (data : Bytes)
  /-- It compacts the storage. -/
  | compact (index : ℕ)
deriving DecidableEq

namespace RawNode

/-- The node with another storage. -/
def setStorage (n : RawNode) (s : MemoryStorage) : RawNode :=
  { n with raft := { n.raft with raftLog := { n.raft.raftLog with storage := s } } }

/-- The node's storage. -/
def storage (n : RawNode) : MemoryStorage := n.raft.raftLog.storage

end RawNode

namespace Host

/-- What happens on an event. A round is begun after the last one was ended, and nothing is advanced
that was not taken: otherwise nothing happens. -/
def handle (h : Host) : HostEvent → Result Host
  | .step m => do
    let (_, n) ← h.node.step m
    return { h with node := n }
  | .call m => do
    let (_, n) ← h.node.stepRaft m
    return { h with node := n }
  | .tick => do
    let n ← h.node.tick
    return { h with node := n }
  | .applyConfChange cc => do
    let (_, n) ← h.node.applyConfChange cc
    return { h with node := n }
  | .ready =>
    match h.ready with
    | some _ => return h
    | none => do
      let (rd, n) ← h.node.ready
      return { node := n, ready := some rd }
  | .persist =>
    match h.ready with
    | none => return h
    | some rd => do
      let s ← rd.persist h.node.storage
      return { h with node := h.node.setStorage s, persisted := true }
  | .advance =>
    match h.ready with
    | none => return h
    | some rd => return { node := h.node.advance rd }
  | .createSnapshot index cs data => do
    let (_, _, s) ← h.node.storage.createSnapshot index cs data
    return { h with node := h.node.setStorage s }
  | .compact index => do
    let (_, s) ← h.node.storage.compact index
    return { h with node := h.node.setStorage s }

/-- The runs of an application. -/
abbrev Run : Host → List (Turn Host HostEvent) → Host → Prop := Trace handle

/-- The node after an event that it can handle. -/
def next (h : Host) (e : HostEvent) : Host :=
  match h.handle e with
  | .ok h' => h'
  | .error _ => h

/-- Whether it can handle the event can be evaluated. -/
theorem handle_next {h : Host} {e : HostEvent} (hok : (h.handle e).isOk = true) :
    h.handle e = .ok (h.next e) := by
  unfold next
  cases hh : h.handle e with
  | ok _ => rfl
  | error _ => rw [hh] at hok; cases hok

/-- The start of a node over a storage, from a configuration that has to be valid. -/
def boot (c : Config) : Result Host :=
  match c.validate with
  | (.ok, c) => do
    let n ← RawNode.restartNode c
    return { node := n }
  | _ => .error .assertion

/-- A node that was started from a configuration that allows it. -/
def started (c : Config) : Host :=
  match boot c with
  | .ok h => h
  | .error _ => { node := RawNode.ofRaft (Raft.blank c) 0 }

/-- Whether a configuration allows it can be evaluated. -/
theorem boot_started {c : Config} (h : (boot c).isOk = true) : boot c = .ok (started c) := by
  unfold started
  cases hb : boot c with
  | ok _ => rfl
  | error _ => rw [hb] at h; cases h

end Host

/-- The parameters of one of three voters. -/
def voterConfig : Config :=
  { id := 1, peers := [1, 2, 3], electionTick := 2, heartbeatTick := 1, maxSizePerMsg := 1024
    maxInflightMsgs := 8 }

/-- The parameters of a voter that is alone. -/
def soloConfig : Config :=
  { id := 1, peers := [1], electionTick := 2, heartbeatTick := 1, maxSizePerMsg := 1024
    maxInflightMsgs := 8 }

/-! ## What the events do to the node -/

/-- What makes the node act on an event that is handed to it. -/
def HostEvent.cause : HostEvent → Option Cause
  | .step m | .call m => some (.step m)
  | .tick => some .tick
  | .applyConfChange _ => some .confChange
  | _ => none

/-- The message that an event hands to the node. -/
def HostEvent.message : HostEvent → Option Message
  | .step m | .call m => some m
  | _ => none

/-- What hands over a message makes the node act on it. -/
theorem HostEvent.message_of_cause {e : HostEvent} {m : Message} (h : e.cause = some (.step m)) :
    e.message = some m := by
  cases e <;> cases h <;> rfl

/-- The events that do not come from the application: messages of the peers, and ticks. -/
def HostEvent.IsPeerOrTick : HostEvent → Prop
  | .step _ | .tick => True
  | _ => False

instance (e : HostEvent) : Decidable e.IsPeerOrTick :=
  match e with
  | .step _ | .tick => .isTrue trivial
  | .call _ | .applyConfChange _ | .ready | .persist | .advance | .createSnapshot _ _ _
  | .compact _ => .isFalse id

namespace Host

/-- An event that is handed to the node makes it move, and leaves the round alone. -/
theorem moves_handle {h h' : Host} {e : HostEvent} {c : Cause} (hc : e.cause = some c)
    (hh : h.handle e = .ok h') :
    ∃ n, h' = { h with node := n } ∧ Course c h.node.raft n.raft := by
  unfold handle at hh
  cases e with
  | step m =>
    cases hc
    obtain ⟨p, hp, hh⟩ := bind_eq_ok.mp hh
    cases hh
    exact ⟨_, rfl, (RawNode.moves_step h.node m p hp).1⟩
  | call m =>
    cases hc
    obtain ⟨p, hp, hh⟩ := bind_eq_ok.mp hh
    cases hh
    unfold RawNode.stepRaft at hp
    obtain ⟨q, hq, hp⟩ := bind_eq_ok.mp hp
    cases hp
    exact ⟨_, rfl, Raft.moves_step rfl q hq⟩
  | tick =>
    cases hc
    obtain ⟨n, hn, hh⟩ := bind_eq_ok.mp hh
    cases hh
    exact ⟨_, rfl, (RawNode.moves_tick h.node n hn).1⟩
  | applyConfChange cc =>
    cases hc
    obtain ⟨p, hp, hh⟩ := bind_eq_ok.mp hh
    cases hh
    exact ⟨_, rfl, (RawNode.steady_applyConfChange h.node cc p hp).1.moves⟩
  | _ => cases hc

/-- What can happen on an event. -/
inductive Handled (h : Host) : HostEvent → Host → Prop
  /-- The node moves. -/
  | moved {e : HostEvent} {c : Cause} {n : RawNode} (hc : e.cause = some c)
      (hmoves : Course c h.node.raft n.raft) : Handled h e { h with node := n }
  /-- The application is not at the right place of its round for the event. -/
  | nothing {e : HostEvent}
      (he : e = .ready ∧ h.ready ≠ none ∨ (e = .persist ∨ e = .advance) ∧ h.ready = none) :
      Handled h e h
  /-- What is ready is taken. -/
  | ready {rd : Ready} {n : RawNode} (hnone : h.ready = none) (hn : h.node.ready = .ok (rd, n)) :
      Handled h .ready { node := n, ready := some rd }
  /-- What was taken is written to the storage. -/
  | persist {rd : Ready} {s : MemoryStorage} (hsome : h.ready = some rd)
      (hs : rd.persist h.node.storage = .ok s) :
      Handled h .persist { h with node := h.node.setStorage s, persisted := true }
  /-- The node advances. -/
  | advance {rd : Ready} (hsome : h.ready = some rd) :
      Handled h .advance { node := h.node.advance rd }
  /-- The storage gets a snapshot. -/
  | createSnapshot {index : ℕ} {cs : Option ConfState} {data : Bytes} {st : Status} {snap : Snapshot}
      {s : MemoryStorage} (hs : h.node.storage.createSnapshot index cs data = .ok (st, snap, s)) :
      Handled h (.createSnapshot index cs data) { h with node := h.node.setStorage s }
  /-- The storage is compacted. -/
  | compact {index : ℕ} {st : Status} {s : MemoryStorage}
      (hs : h.node.storage.compact index = .ok (st, s)) :
      Handled h (.compact index) { h with node := h.node.setStorage s }

/-- Nothing else happens. -/
theorem handled {h h' : Host} {e : HostEvent} (hh : h.handle e = .ok h') : Handled h e h' := by
  cases e with
  | step m | call m | tick | applyConfChange cc =>
    obtain ⟨n, rfl, hmoves⟩ := moves_handle rfl hh
    exact Handled.moved rfl hmoves
  | ready =>
    unfold handle at hh
    cases hr : h.ready with
    | some rd =>
      simp only [hr] at hh
      cases hh
      exact Handled.nothing (Or.inl ⟨rfl, by simp [hr]⟩)
    | none =>
      simp only [hr] at hh
      obtain ⟨p, hp, hh⟩ := bind_eq_ok.mp hh
      cases hh
      exact Handled.ready hr hp
  | persist =>
    unfold handle at hh
    cases hr : h.ready with
    | none =>
      simp only [hr] at hh
      cases hh
      exact Handled.nothing (Or.inr ⟨Or.inl rfl, hr⟩)
    | some rd =>
      simp only [hr] at hh
      obtain ⟨s, hs, hh⟩ := bind_eq_ok.mp hh
      cases hh
      rw [← hr]
      exact Handled.persist hr hs
  | advance =>
    unfold handle at hh
    cases hr : h.ready with
    | none =>
      simp only [hr] at hh
      cases hh
      exact Handled.nothing (Or.inr ⟨Or.inr rfl, hr⟩)
    | some rd =>
      simp only [hr] at hh
      cases hh
      exact Handled.advance hr
  | createSnapshot index cs data =>
    obtain ⟨p, hp, hh⟩ := bind_eq_ok.mp hh
    cases hh
    exact Handled.createSnapshot hp
  | compact index =>
    obtain ⟨p, hp, hh⟩ := bind_eq_ok.mp hh
    cases hh
    exact Handled.compact hp

end Host

/-- `ready` hands out the messages and the reads. It takes the messages from the node, whose estimate
of the uncommitted entries it lowers, and changes nothing else. -/
theorem RawNode.ready_eq {n n' : RawNode} {rd : Ready} (h : n.ready = .ok (rd, n')) :
    rd.messages = n.raft.msgs ∧ rd.readStates = n.raft.readStates ∧
      rd.entries = n.raft.raftLog.unstable.entries ∧
      rd.snapshot = n.raft.raftLog.unstable.snapshot.getD {} ∧
      n.raft.raftLog.nextEntries = .ok rd.committedEntries ∧
      ∃ size, n' = { n with raft := { n.raft with msgs := [], uncommittedSize := size } } := by
  unfold ready at h
  obtain ⟨rd', hrd, h⟩ := bind_eq_ok.mp h
  cases h
  unfold Ready.new at hrd
  obtain ⟨es, hes, hrd⟩ := bind_eq_ok.mp hrd
  cases hrd
  obtain ⟨size, hsize⟩ := Raft.reduceUncommittedSize_eq { n.raft with msgs := [] } es
  exact ⟨rfl, rfl, rfl, rfl, hes, size, by rw [hsize]⟩

/-- What the application does for itself changes the log, but not what is committed, takes the messages
and the reads or leaves them, and lowers the estimate of the uncommitted entries. -/
theorem Host.Handled.frame {h h' : Host} {e : HostEvent} (hd : Host.Handled h e h')
    (hc : e.cause = none) : ∃ l msgs readStates size,
      h'.node.raft = { h.node.raft with
        raftLog := l, msgs := msgs, readStates := readStates, uncommittedSize := size } ∧
      l.committed = h.node.raft.raftLog.committed ∧ (msgs = h.node.raft.msgs ∨ msgs = []) ∧
      (readStates = h.node.raft.readStates ∨ readStates = []) := by
  cases hd with
  | moved hc' _ => rw [hc] at hc'; cases hc'
  | ready hnone hn =>
    obtain ⟨-, -, -, -, -, size, rfl⟩ := RawNode.ready_eq hn
    exact ⟨_, _, _, size, rfl, rfl, Or.inr rfl, Or.inl rfl⟩
  | @advance rd hsome =>
    refine ⟨(h.node.advance rd).raft.raftLog, _, _, _, rfl, ?_, Or.inl rfl, ?_⟩
    · unfold RawNode.advance RaftLog.appliedTo RaftLog.stableTo RaftLog.stableSnapTo
      cases rd.entries.getLast? <;> dsimp only <;> split_ifs <;> rfl
    · split_ifs
      · exact Or.inr rfl
      · exact Or.inl rfl
  | _ => exact ⟨_, _, _, _, rfl, rfl, Or.inl rfl, Or.inl rfl⟩

/-- What the application does for itself leaves the node's role alone. -/
theorem Host.Handled.state_eq {h h' : Host} {e : HostEvent} (hd : Host.Handled h e h')
    (hc : e.cause = none) : h'.node.raft.state = h.node.raft.state := by
  obtain ⟨l, msgs, readStates, size, heq, -⟩ := hd.frame hc
  rw [heq]

end RaftCpp
