import Mathlib.Data.Finset.Basic
import RaftCpp.Raft.Booting
import RaftCpp.Raft.Handout

/-!
# A fleet of nodes

Several nodes, each with its application, and the messages that were handed out to be sent. A message
stays in the network, so that it can be delivered late, more than once, or never. A node can be stopped at
any time and started again, over any storage that is left.
-/

namespace RaftCpp

open Outcome

/-- The message types that the application steps into its node. -/
def HostEvent.isCallType (t : MessageType) : Bool :=
  t == .msgHup || t == .msgProp || t == .msgUnreachable || t == .msgSnapStatus ||
    t == .msgTransferLeader || t == .msgReadIndex

/-- The nodes with their applications, and the messages that were sent. -/
structure Fleet where
  /-- The nodes. -/
  hosts : ℕ → Host
  /-- The messages sent so far. -/
  net : List Message := []

/-- What can happen in a fleet. -/
inductive FleetEvent
  /-- The application of a node does something by itself. -/
  | act (i : ℕ) (e : HostEvent)
  /-- A message is delivered. -/
  | deliver (m : Message)
  /-- A node is started again. -/
  | restart (i : ℕ) (h : Host)

namespace FleetEvent

/-- The node that an event happens at. -/
def node : FleetEvent → ℕ
  | act i _ | restart i _ => i
  | deliver m => m.toId

/-- What an event is to the application of its node. -/
def atNode : FleetEvent → Option HostEvent
  | act _ e => some e
  | deliver m => some (.step m)
  | restart _ _ => none

end FleetEvent

namespace Fleet

/-- The fleet after an event at a node. What the node hands out is sent. -/
def handleAt (F : Fleet) (i : ℕ) (e : HostEvent) : Result Fleet := do
  let h ← (F.hosts i).handle e
  return {
    hosts := Function.update F.hosts i h
    net := F.net ++ Host.handedMsgs ⟨F.hosts i, e, h⟩ }

/-- The fleet after an event. -/
def handle (F : Fleet) : FleetEvent → Result Fleet
  | .act i e => F.handleAt i e
  | .deliver m => F.handleAt m.toId (.step m)
  | .restart i h => return { F with hosts := Function.update F.hosts i h }

/-- The events that a node's application brings about by itself: it steps in no message of a peer. -/
def IsOwn : HostEvent → Prop
  | .step _ => False
  | .call m => m.term = 0 ∧ HostEvent.isCallType m.type = true
  | _ => True

instance (e : HostEvent) : Decidable (IsOwn e) :=
  match e with
  | .step _ => .isFalse fun h => h
  | .call m => inferInstanceAs (Decidable (m.term = 0 ∧ _))
  | .tick | .applyConfChange _ | .ready | .persist | .advance | .createSnapshot _ _ _ | .compact _ =>
    .isTrue trivial

/-- When an event can happen, among the given members, whose configurations are known. -/
def Enabled (members : Finset ℕ) (config : ℕ → Config → Prop) (F : Fleet) : FleetEvent → Prop
  | .act i e => i ∈ members ∧ IsOwn e
  | .deliver m => m.toId ∈ members ∧ m ∈ F.net
  | .restart i h => i ∈ members ∧ ∃ c, config i c ∧ Host.Built c h

/-- A fleet whose members have just started. -/
structure Started (members : Finset ℕ) (config : ℕ → Config → Prop) (F : Fleet) : Prop where
  /-- Nothing was sent. -/
  net : F.net = []
  /-- Every member has just started. -/
  hosts : ∀ i ∈ members, ∃ c, config i c ∧ Host.Built c (F.hosts i)

/-- A run of a fleet. -/
structure Run (members : Finset ℕ) (config : ℕ → Config → Prop) (F₀ : Fleet)
    (ts : List (Turn Fleet FleetEvent)) (F : Fleet) : Prop where
  /-- The steps. -/
  trace : Trace handle F₀ ts F
  /-- Every event can happen. -/
  enabled : ∀ t ∈ ts, Enabled members config t.before t.event

/-- The node of a member. -/
def raft (F : Fleet) (i : ℕ) : Raft := (F.hosts i).node.raft

/-- The members agree on the voters, and those that are no learners are voters. -/
def HasVoters (members V : Finset ℕ) (F : Fleet) : Prop :=
  ∀ i ∈ members, (F.raft i).prs.keys.toFinset = V ∧ ((F.raft i).isLearner = false → i ∈ V)

instance (members V : Finset ℕ) (F : Fleet) : Decidable (F.HasVoters members V) :=
  inferInstanceAs (Decidable (∀ i ∈ members, _ ∧ (_ → _)))

/-- What an event does: the application of its node handles it, or the node is replaced. -/
theorem handle_cases {F F' : Fleet} {e : FleetEvent} (h : F.handle e = .ok F') :
    (∃ e' h', e.atNode = some e' ∧ (F.hosts e.node).handle e' = .ok h' ∧
      F' = { hosts := Function.update F.hosts e.node h'
             net := F.net ++ Host.handedMsgs ⟨F.hosts e.node, e', h'⟩ }) ∨
    ∃ i h', e = .restart i h' ∧ F' = { F with hosts := Function.update F.hosts i h' } := by
  have hat : ∀ i e', F.handleAt i e' = .ok F' → ∃ h', (F.hosts i).handle e' = .ok h' ∧
      F' = { hosts := Function.update F.hosts i h'
             net := F.net ++ Host.handedMsgs ⟨F.hosts i, e', h'⟩ } := fun i e' h => by
    obtain ⟨h', hh', hF⟩ := bind_eq_ok.mp h
    cases hF
    exact ⟨h', hh', rfl⟩
  cases e with
  | act i e' =>
    obtain ⟨h', hh', hF⟩ := hat i e' h
    exact Or.inl ⟨e', h', rfl, hh', hF⟩
  | deliver m =>
    obtain ⟨h', hh', hF⟩ := hat m.toId (.step m) h
    exact Or.inl ⟨.step m, h', rfl, hh', hF⟩
  | restart i h' =>
    cases h
    exact Or.inr ⟨i, h', rfl, rfl⟩

/-! ## Scripts -/

/-- The events of scripts: no node is started again. -/
def IsPlay (members : Finset ℕ) (F : Fleet) : FleetEvent → Prop
  | .act i e => i ∈ members ∧ IsOwn e
  | .deliver m => m.toId ∈ members ∧ m ∈ F.net
  | .restart _ _ => False

instance (members : Finset ℕ) (F : Fleet) (e : FleetEvent) : Decidable (IsPlay members F e) :=
  match e with
  | .act i e => inferInstanceAs (Decidable (i ∈ members ∧ IsOwn e))
  | .deliver m => inferInstanceAs (Decidable (m.toId ∈ members ∧ m ∈ F.net))
  | .restart _ _ => .isFalse fun h => h

/-- The events of a script that can happen. -/
theorem IsPlay.enabled {members : Finset ℕ} {config : ℕ → Config → Prop} {F : Fleet} {e : FleetEvent}
    (h : IsPlay members F e) : Enabled members config F e := by
  cases e with
  | act i e => exact h
  | deliver m => exact h
  | restart i h' => exact absurd h id

/-- A node is asked to campaign. -/
def asks (i : ℕ) (_ : Fleet) : FleetEvent := .act i (.call { type := .msgHup })

/-- A message of the network is delivered. -/
def delivers (k : ℕ) (F : Fleet) : FleetEvent := .deliver (F.net.getD k {})

/-- A round of the application of a node. -/
def round (i : ℕ) : List (Fleet → FleetEvent) :=
  [fun _ => .act i .ready, fun _ => .act i .persist, fun _ => .act i .advance]

end Fleet

end RaftCpp
