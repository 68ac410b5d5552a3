import Mathlib.Data.Finset.Max
import RaftCpp.Library.Replicas
import RaftCpp.Replication.Guarantees
import RaftCpp.Server.Requests
import RaftCpp.Service.Network
import RaftCpp.Service.Turns

/-!
# The servers are replicas of one state machine

The entries that the servers of a cluster have committed are one history, and the store of each server is in
the state that the commands of a first part of it lead to. So whatever the servers do, the history only grows,
the stores only go forward in it, and two stores that are as far have the same keys.
-/

namespace RaftCpp

open Consensus Outcome

variable {F : Formats} {G : Group} {s s' : History}

/-! ## A server and the log of its node -/

/-- A segment of a list, in two parts. -/
theorem segment_append {α : Type} (l : List α) {k a b : ℕ} (hk : k ≤ a) (ha : a ≤ b) :
    (l.take b).drop k = (l.take a).drop k ++ (l.take b).drop a := by
  have hfirst : ((l.take b).drop k).take (a - k) = (l.take a).drop k := by
    rw [← List.drop_take, List.take_take, Nat.min_eq_left ha]
  have hsecond : ((l.take b).drop k).drop (a - k) = (l.take b).drop a := by
    rw [List.drop_drop, Nat.add_sub_cancel' hk]
  rw [← hfirst, ← hsecond, List.take_append_drop]

/-- What an entry does to the map of a store, as a step of a replica. -/
def runEntry (F : Formats) (m : Contents) (e : Entry) : Contents := e.applyTo F m

/-- The map without keys. -/
def noKeys : Contents := fun _ => none

/-- Entries without commands do nothing. -/
theorem foldl_runEntry_of_not {es : List Entry} (h : ∀ e ∈ es, ¬e.IsCommand) (m : Contents) :
    es.foldl (runEntry F) m = m := by
  induction es with
  | nil => rfl
  | cons e es ih =>
    have he : runEntry F m e = m := if_neg (h e List.mem_cons_self)
    rw [List.foldl_cons, he]
    exact ih fun e' he' => h e' (List.mem_cons_of_mem _ he')

/-- The commands of entries are those of their tasks. -/
theorem entry_commandTasks (es : List Entry) :
    (commandTasks es).filterMap StoreTask.entry = es.filter fun e => e.IsCommand := by
  unfold commandTasks
  rw [List.filterMap_map]
  exact List.filterMap_some

namespace Server

variable {srv srv' : Server} {k k' : ℕ}

/-- A server of a service, whose store has come to a position of the log. -/
structure InService (F : Formats) (G : Group) (s : History) (k : ℕ) (srv : Server) : Prop where
  /-- The node. -/
  node : srv.node.Serving F G s
  /-- The messages that it has sent last are true of the history. -/
  sent : ∀ m ∈ srv.node.calls.flatMap Call.sent, MessageOK G s m ∧ ∀ e ∈ m.carried, e.AddsTo F G.voters
  /-- The position is not beyond what the node has applied. -/
  position_le : k ≤ srv.node.appliedIndex
  /-- The commands between the two wait for the store. -/
  tasks : srv.tasks.filterMap StoreTask.entry =
    ((srv.node.node.raft.raftLog.toList.take srv.node.appliedIndex).drop k).filter fun e => e.IsCommand
  /-- No other task changes a key. -/
  plain : ∀ t ∈ srv.tasks, t.entry = none → ∀ m, t.applyTo F m = m
  /-- The store has run the commands before it. -/
  map : contentsOf srv.store.keyValues =
    (srv.node.node.raft.raftLog.toList.take k).foldl (runEntry F) noKeys

/-- What a server in service becomes. -/
structure Goes (F : Formats) (G : Group) (s : History) (k : ℕ) (srv srv' : Server) (s' : History) (k' : ℕ) :
    Prop where
  /-- The history goes on by steps of the node. -/
  moves : Moves G.setting srv.node.node.raft.id s s'
  /-- The server stays in service. -/
  inService : srv'.InService F G s' k'
  /-- The identity stays. -/
  id : srv'.node.node.raft.id = srv.node.node.raft.id
  /-- Nothing that was committed is taken back. -/
  committed_le : srv.node.node.raft.raftLog.committed ≤ srv'.node.node.raft.raftLog.committed
  /-- The store goes forward. -/
  position_le : k ≤ k'

/-- A step in which neither the node nor the store of a server moves. -/
theorem InService.rests (h : srv.InService F G s k) (hnode : srv'.node = srv.node)
    (htasks : srv'.tasks = srv.tasks) (hstore : srv'.store.keyValues = srv.store.keyValues) :
    Goes F G s k srv srv' s k := by
  have hin : srv'.InService F G s k := by
    constructor
    · rw [hnode]
      exact h.node
    · rw [hnode]
      exact h.sent
    · rw [hnode]
      exact h.position_le
    · rw [hnode, htasks]
      exact h.tasks
    · rw [htasks]
      exact h.plain
    · rw [hnode, hstore]
      exact h.map
  exact ⟨Relation.ReflTransGen.refl, hin, by rw [hnode], by rw [hnode], Nat.le_refl _⟩

/-- What is posted beside the tasks of calls brings no command. -/
theorem entry_posted {post : Call → Option StoreTask} (htask : ∀ c t, c.task = some t → post c = some t)
    (hother : ∀ c t, c.task = none → post c = some t → t.entry = none) (calls : List Call) :
    (calls.filterMap post).filterMap StoreTask.entry =
      (calls.filterMap Call.task).filterMap StoreTask.entry := by
  induction calls with
  | nil => rfl
  | cons c calls ih =>
    cases hc : c.task with
    | some t =>
      rw [List.filterMap_cons_some hc, List.filterMap_cons_some (htask c t hc), List.filterMap_cons,
        List.filterMap_cons, ih]
    | none =>
      rw [List.filterMap_cons_none hc]
      cases hp : post c with
      | none =>
        rw [List.filterMap_cons_none hp]
        exact ih
      | some t =>
        rw [List.filterMap_cons_some hp, List.filterMap_cons_none (hother c t hc hp)]
        exact ih

/-- The callback of a proposal posts no command. -/
theorem entry_proposal (p : Proposal) {c : Call} {t : StoreTask} (hc : c.task = none)
    (hp : p.task c = some t) : t.entry = none := by
  cases c with
  | callback status =>
    cases hp
    unfold Proposal.proposed
    cases p.kind with
    | set => rfl
    | del => rfl
  | _ => cases hc.symm.trans hp

/-- The node handles an event, and what it does is posted. -/
theorem InService.onNode (h : srv.InService F G s k) {e : RaftNodeEvent}
    (he : RaftNode.Admits F G s srv.node e) {post : Call → Option StoreTask} (hpost : Faithful F post)
    (hother : ∀ c t, c.task = none → post c = some t → t.entry = none) :
    Ensures (srv.onNode F e post) fun srv' => ∃ s', Goes F G s k srv srv' s' k := by
  unfold Server.onNode
  refine Ensures.bind (h.node.handle he) ?_
  rintro n ⟨s', hmoves, hn⟩
  refine Ensures.pure ⟨s', hmoves, ?_, hn.id, hn.committed_le, Nat.le_refl _⟩
  -- The log has not changed up to what is applied.
  have hbefore : srv.node.node.raft.raftLog.toList.take srv.node.appliedIndex =
      n.node.raft.raftLog.toList.take srv.node.appliedIndex := by
    obtain ⟨hinv, hle⟩ := hmoves.inv h.node.sim.inv
    have hid := hn.id
    have hcommit : srv.node.appliedIndex ≤ s.commit srv.node.node.raft.id := by
      rw [h.node.sim.node.commit]
      exact h.node.applied_le
    have hcommit' : srv.node.appliedIndex ≤ s'.commit srv.node.node.raft.id := by
      rw [← hid, hn.serving.sim.node.commit]
      exact hn.applied_le.trans hn.serving.applied_le
    have htake := commit_agree h.node.sim.inv hinv hle _ _ hcommit hcommit'
    rw [h.node.sim.node.log, ← hid, hn.serving.sim.node.log] at htake
    exact htake
  have hposition := h.position_le
  have hsplit : (n.node.raft.raftLog.toList.take n.appliedIndex).drop k =
      (srv.node.node.raft.raftLog.toList.take srv.node.appliedIndex).drop k ++
        (n.node.raft.raftLog.toList.take n.appliedIndex).drop srv.node.appliedIndex := by
    rw [hbefore]
    exact segment_append _ hposition hn.applied_le
  constructor
  · exact hn.serving
  · exact hn.sent
  · exact hposition.trans hn.applied_le
  · show (srv.tasks ++ n.calls.filterMap post).filterMap StoreTask.entry = _
    rw [List.filterMap_append, h.tasks, entry_posted hpost.task hother, hn.tasks, entry_commandTasks,
      ← List.filter_append, ← hsplit]
  · intro t ht hnone
    obtain ht | ht := List.mem_append.mp ht
    · exact h.plain t ht hnone
    · obtain ⟨c, hc, hpc⟩ := List.mem_filterMap.mp ht
      cases htask : c.task with
      | none => exact (hpost.other c t htask hpc).2
      | some t' =>
        -- The node posts nothing but commands.
        obtain rfl : t' = t := Option.some.inj ((hpost.task c t' htask).symm.trans hpc)
        have hmem : t' ∈ n.calls.filterMap Call.task := List.mem_filterMap.mpr ⟨c, hc, htask⟩
        rw [hn.tasks] at hmem
        obtain ⟨e, -, rfl⟩ := List.mem_map.mp hmem
        cases hnone
  · have htake : n.node.raft.raftLog.toList.take k = srv.node.node.raft.raftLog.toList.take k := by
      have := congrArg (List.take k) hbefore
      rw [List.take_take, List.take_take, Nat.min_eq_left hposition] at this
      exact this.symm
    show contentsOf srv.store.keyValues = (n.node.raft.raftLog.toList.take k).foldl (runEntry F) noKeys
    rw [htake]
    exact h.map

/-- The store comes to the next task. -/
theorem InService.runTask (h : srv.InService F G s k) :
    Ensures (srv.runTask F) fun srv' => ∃ k', Goes F G s k srv srv' s k' := by
  unfold Server.runTask
  cases htasks : srv.tasks with
  | nil => exact Ensures.ok ⟨k, h.rests rfl rfl rfl⟩
  | cons t ts =>
    refine Ensures.bind (RedisStore.run_spec srv.node.id srv.store t) ?_
    rintro ⟨replies, data, store⟩ ⟨hkv, -⟩
    dsimp only at hkv
    have hplain : ∀ t' ∈ ts, t'.entry = none → ∀ m, t'.applyTo F m = m := fun t' ht' =>
      h.plain t' (by rw [htasks]; exact List.mem_cons_of_mem _ ht')
    have hwaiting := h.tasks
    rw [htasks] at hwaiting
    have hgoes : ∀ k', k ≤ k' → k' ≤ srv.node.appliedIndex →
        ts.filterMap StoreTask.entry = ((srv.node.node.raft.raftLog.toList.take
          srv.node.appliedIndex).drop k').filter (fun e => e.IsCommand) →
        contentsOf store.keyValues = (srv.node.node.raft.raftLog.toList.take k').foldl (runEntry F) noKeys →
        Goes F G s k srv { srv with store := store, tasks := ts, promise := data.or srv.promise,
                                    replies := replies } s k' :=
      fun k' hle hk' hts hmap =>
        ⟨Relation.ReflTransGen.refl, ⟨h.node, h.sent, hk', hts, hplain, hmap⟩, rfl, Nat.le_refl _, hle⟩
    cases hentry : t.entry with
    | none =>
      -- Another task leaves the keys.
      rw [List.filterMap_cons_none hentry] at hwaiting
      refine Ensures.pure ⟨k, hgoes k (Nat.le_refl _) h.position_le hwaiting ?_⟩
      rw [hkv, h.plain t (by rw [htasks]; exact List.mem_cons_self) hentry]
      exact h.map
    | some e =>
      -- The store runs the next command, and passes the entries without one before it.
      obtain rfl : t = .readCommit e := by
        cases t with
        | readCommit e' =>
          cases hentry
          rfl
        | _ => cases hentry
      rw [List.filterMap_cons_some hentry] at hwaiting
      obtain ⟨es, es', hes, hnot, hcommand, hrest⟩ := List.filter_eq_cons_iff.mp hwaiting.symm
      have hcommand' : e.IsCommand := of_decide_eq_true hcommand
      have hlen := congrArg List.length hes
      rw [List.length_drop, List.length_take, List.length_append, List.length_cons] at hlen
      have hle : k + (es.length + 1) ≤ srv.node.appliedIndex := by omega
      have hdrop : (srv.node.node.raft.raftLog.toList.take srv.node.appliedIndex).drop (k + (es.length + 1)) =
          es' := by
        rw [← List.drop_drop, hes, List.append_cons]
        exact List.drop_left' (by simp)
      have htake : srv.node.node.raft.raftLog.toList.take (k + (es.length + 1)) =
          srv.node.node.raft.raftLog.toList.take k ++ (es ++ [e]) := by
        rw [← Nat.min_eq_left hle, ← List.take_take, List.take_add, List.take_take, hes, List.append_cons,
          Nat.min_eq_left h.position_le]
        exact congrArg _ (List.take_left' (by simp))
      refine Ensures.pure ⟨k + (es.length + 1), hgoes _ (Nat.le_add_right _ _) hle ?_ ?_⟩
      · rw [hdrop, hrest]
      · have hrun : runEntry F (contentsOf srv.store.keyValues) e = (StoreTask.readCommit e).applyTo F _ :=
          if_pos hcommand'
        have hskip : ∀ m, es.foldl (runEntry F) m = m :=
          foldl_runEntry_of_not fun x hx => by simpa using hnot x hx
        rw [hkv, ← hrun, h.map, htake, List.foldl_append, List.foldl_append, hskip]
        rfl

/-- What has to be true of an event for a server to stay in service. -/
def Admits (F : Formats) (G : Group) (s : History) (srv : Server) : ServerEvent → Prop
  | .process m => RaftNode.Admits F G s srv.node (.process m)
  | .pull => RaftNode.Admits F G s srv.node .pull
  | _ => True

/-- A server in service handles an event. -/
theorem InService.handle (h : srv.InService F G s k) {e : ServerEvent} (he : Admits F G s srv e) :
    Ensures (srv.handle F e) fun srv' => ∃ s' k', Goes F G s k srv srv' s' k' := by
  have hnode : ∀ {srv₁ : Server} {e' : RaftNodeEvent} {post : Call → Option StoreTask},
      srv₁.node = srv.node → srv₁.tasks = srv.tasks → srv₁.store = srv.store →
      RaftNode.Admits F G s srv.node e' → Faithful F post →
      (∀ c t, c.task = none → post c = some t → t.entry = none) →
      Ensures (srv₁.onNode F e' post) fun srv' => ∃ s' k', Goes F G s k srv srv' s' k' := by
    intro srv₁ e' post hsame htasks hstore he' hpost hother
    have h₁ := (h.rests hsame htasks (by rw [hstore])).inService
    rw [← hsame] at he'
    refine (h₁.onNode he' hpost hother).mono ?_
    rintro srv' ⟨s', hgoes⟩
    obtain ⟨hmoves, hin, hid, hcommitted, hle⟩ := hgoes
    rw [hsame] at hmoves hid hcommitted
    exact ⟨s', k, hmoves, hin, hid, hcommitted, hle⟩
  have hcalls : ∀ c t, Call.task c = none → Call.task c = some t → t.entry = none := fun c t hc hp => by
    cases hc.symm.trans hp
  unfold Server.handle
  dsimp only
  cases e with
  | tick => exact hnode rfl rfl rfl trivial faithful_task hcalls
  | process m => exact hnode rfl rfl rfl he faithful_task hcalls
  | pull => exact hnode rfl rfl rfl he faithful_task hcalls
  | propose =>
    rw [h.node.ready]
    cases hp : srv.proposals with
    | nil => exact Ensures.ok ⟨s, k, h.rests rfl rfl rfl⟩
    | cons p ps =>
      exact hnode rfl rfl rfl trivial (faithful_proposal p) fun _ _ hc ht => entry_proposal p hc ht
  | resume =>
    cases hp : srv.promise with
    | none => exact Ensures.ok ⟨s, k, h.rests rfl rfl rfl⟩
    | some data => exact hnode rfl rfl rfl trivial faithful_task hcalls
  | set key value callback => exact Ensures.ok ⟨s, k, h.rests rfl rfl rfl⟩
  | del keys callback => exact Ensures.ok ⟨s, k, h.rests rfl rfl rfl⟩
  | task =>
    have hsilent : Goes F G s k srv { srv with replies := [] } s k := h.rests rfl rfl rfl
    refine hsilent.inService.runTask.mono ?_
    rintro srv' ⟨k', hgoes⟩
    exact ⟨s, k', hgoes.moves, hgoes.inService, hgoes.id, hgoes.committed_le, hgoes.position_le⟩

/-- A server stays in service while other servers go on. -/
theorem InService.mono (h : srv.InService F G s k) (hinv : Inv G.setting s')
    (hindexed : ∀ u L, s'.leaderLog u = some L → IndexedFrom 1 L) (hle : Le s s')
    (hsame : SameAt srv.node.node.raft.id s s') : srv.InService F G s' k := by
  have hsim : Sim G s' srv.node.node.raft := ⟨hinv, hindexed, h.node.sim.node.mono hle hsame⟩
  constructor
  · exact ⟨hsim, h.node.only, h.node.host, h.node.ready, h.node.applied, h.node.snapshotIndex,
      h.node.snapCount⟩
  · exact fun m hm => ⟨(h.sent m hm).1.mono hle, (h.sent m hm).2⟩
  · exact h.position_le
  · exact h.tasks
  · exact h.plain
  · exact h.map

end Server

/-! ## The service -/

namespace Service

variable {peers : ℕ} {device : ℕ → RandomDevice} {c c' c₀ c₁ c₂ : Service} {position : ℕ → ℕ}

/-- What the members of a service have in common. -/
abbrev group (F : Formats) (peers : ℕ) (device : ℕ → RandomDevice) : Group := (setup F peers device).group true

/-- The servers are in service, and what they have sent is true of the history. -/
structure Sound (F : Formats) (peers : ℕ) (device : ℕ → RandomDevice) (s : History) (position : ℕ → ℕ)
    (c : Service) : Prop where
  /-- The cluster of their nodes. -/
  cluster : ClusterSim (setup F peers device) (group F peers device) s c.cluster
  /-- The messages bring entries that only add voters. -/
  carried : ∀ m ∈ c.net, ∀ e ∈ m.carried, e.AddsTo F (group F peers device).voters
  /-- The servers. -/
  server : ∀ i, 1 ≤ i → i ≤ peers → (c.servers i).InService F (group F peers device) s (position i)
  /-- There are no others. -/
  outside : ∀ i, ¬(1 ≤ i ∧ i ≤ peers) → position i = 0

/-- What a service becomes. -/
structure Goes (F : Formats) (peers : ℕ) (device : ℕ → RandomDevice) (s : History) (position : ℕ → ℕ)
    (c c' : Service) (s' : History) (position' : ℕ → ℕ) : Prop where
  /-- The history is extended. -/
  le : Le s s'
  /-- The servers stay in service. -/
  sound : Sound F peers device s' position' c'
  /-- Nothing that was committed is taken back. -/
  committed_le : ∀ i, (c.raft i).raftLog.committed ≤ (c'.raft i).raftLog.committed
  /-- The stores go forward. -/
  position_le : ∀ i, position i ≤ position' i

/-- A service goes on where it has come to. -/
theorem Goes.trans {c'' : Service} {s'' : History} {position' position'' : ℕ → ℕ}
    (h : Goes F peers device s position c c' s' position')
    (h' : Goes F peers device s' position' c' c'' s'' position'') :
    Goes F peers device s position c c'' s'' position'' where
  le := h.le.trans h'.le
  sound := h'.sound
  committed_le i := (h.committed_le i).trans (h'.committed_le i)
  position_le i := (h.position_le i).trans (h'.position_le i)

/-- A proper event is one that the server where it happens admits. -/
theorem Sound.admits (h : Sound F peers device s position c) {e : ServiceEvent} (hen : Enabled peers c e)
    (hclean : Clean c e) : Server.Admits F (group F peers device) s (c.servers e.node) e.event := by
  obtain ⟨⟨hpos, hle⟩, henabled⟩ := hen
  have hid : (c.servers e.node).node.node.raft.id = e.node := h.cluster.id e.node (mem_members.mpr ⟨hpos, hle⟩)
  obtain ⟨i, e⟩ := e
  dsimp only at hid ⊢
  cases e with
  | process m =>
    obtain ⟨hm, hto⟩ := henabled
    exact ⟨h.cluster.net m hm, h.carried m hm, hto.trans hid.symm, hclean⟩
  | pull => exact hclean
  | _ => exact trivial

/-- An event of a service takes it along the history. -/
theorem Sound.exec (h : Sound F peers device s position c) {e : ServiceEvent} (hen : Enabled peers c e)
    (hclean : Clean c e) : Ensures (c.exec F e) fun c' =>
      ∃ s' position', Goes F peers device s position c c' s' position' := by
  obtain ⟨hpos, hle⟩ := hen.1
  have hadmits := h.admits hen hclean
  have hmember : e.node ∈ (setup F peers device).members := mem_members.mpr ⟨hpos, hle⟩
  unfold Service.exec
  refine Ensures.bind ((h.server e.node hpos hle).handle hadmits) ?_
  rintro srv ⟨s', k, hgoes⟩
  refine Ensures.pure ⟨s', Function.update position e.node k, ?_⟩
  have hid : (c.servers e.node).node.node.raft.id = e.node := h.cluster.id e.node hmember
  obtain ⟨hinv, hext⟩ := hgoes.moves.inv h.cluster.inv
  have hindexed := hgoes.inService.node.sim.indexed
  -- The other servers stay where they are.
  have hothers : ∀ i, 1 ≤ i → i ≤ peers → (Function.update c.servers e.node srv i).InService F
      (group F peers device) s' (Function.update position e.node k i) := by
    intro i hi hi'
    by_cases heq : i = e.node
    · subst heq
      rw [Function.update_self, Function.update_self]
      exact hgoes.inService
    · rw [Function.update_of_ne heq, Function.update_of_ne heq]
      refine (h.server i hi hi').mono hinv hindexed hext (hgoes.moves.sameAt ?_)
      rw [hid, show (c.servers i).node.node.raft.id = i from h.cluster.id i (mem_members.mpr ⟨hi, hi'⟩)]
      exact heq
  have hnet : ∀ m ∈ c.net ++ srv.node.calls.flatMap Call.sent, MessageOK (group F peers device) s' m ∧
      ∀ e ∈ m.carried, e.AddsTo F (group F peers device).voters := by
    intro m hm
    obtain hm | hm := List.mem_append.mp hm
    · exact ⟨(h.cluster.net m hm).mono hext, h.carried m hm⟩
    · exact hgoes.inService.sent m hm
  constructor
  · exact hext
  · refine ⟨⟨hinv, hindexed, fun i hi => ?_, fun i hi => ?_, fun m hm => (hnet m hm).1⟩,
      fun m hm => (hnet m hm).2, hothers, fun i hi => ?_⟩
    · show (Function.update c.servers e.node srv i).node.node.raft.id = i
      by_cases heq : i = e.node
      · subst heq
        rw [Function.update_self]
        exact hgoes.id.trans hid
      · rw [Function.update_of_ne heq]
        exact h.cluster.id i hi
    · obtain ⟨hi, hi'⟩ := mem_members.mp hi
      exact (hothers i hi hi').node.sim.node
    · have hne : i ≠ e.node := by
        rintro rfl
        exact hi ⟨hpos, hle⟩
      rw [Function.update_of_ne hne]
      exact h.outside i hi
  · intro i
    show _ ≤ (Function.update c.servers e.node srv i).node.node.raft.raftLog.committed
    by_cases heq : i = e.node
    · subst heq
      rw [Function.update_self]
      exact hgoes.committed_le
    · rw [Function.update_of_ne heq]
      exact Nat.le_refl _
  · intro i
    by_cases heq : i = e.node
    · subst heq
      rw [Function.update_self]
      exact hgoes.position_le
    · rw [Function.update_of_ne heq]

/-- A run of a service takes it along the history. -/
theorem Sound.run {ts : List (Turn Service ServiceEvent)} (h : Sound F peers device s position c)
    (hrun : Run F c ts c') (hproper : ∀ t ∈ ts, Proper peers t) :
    ∃ s' position', Goes F peers device s position c c' s' position' := by
  induction hrun generalizing s position with
  | nil c => exact ⟨s, position, Le.refl s, h, fun _ => Nat.le_refl _, fun _ => Nat.le_refl _⟩
  | @cons c c₁ c' e ts hstep _ ih =>
    obtain ⟨hen, hclean⟩ := hproper _ List.mem_cons_self
    obtain ⟨s₁, position₁, h₁⟩ := h.exec hen hclean c₁ hstep
    obtain ⟨s₂, position₂, h₂⟩ := ih h₁.sound fun t ht => hproper t (List.mem_cons_of_mem _ ht)
    exact ⟨s₂, position₂, h₁.trans h₂⟩

/-- The entries that the nodes start with add the voters. -/
theorem startLog_addsTo (hchange : F.confChange.Lawful) {e : Entry}
    (he : e ∈ (setup F peers device).startLog) : e.AddsTo F (group F peers device).voters := by
  have hboot : ∀ (ps : List (ℕ × Bytes)) (i : ℕ), (∀ p ∈ ps, p.1 ∈ (group F peers device).voters) →
      ∀ e ∈ RawNode.bootstrapEntries F.confChange.pack i ps, e.AddsTo F (group F peers device).voters := by
    intro ps
    induction ps with
    | nil => exact fun _ _ => nofun
    | cons p ps ih =>
      intro i hps e he
      obtain rfl | he := List.mem_cons.mp he
      · exact fun _ => ⟨_, hchange _, rfl, hps p List.mem_cons_self⟩
      · exact ih (i + 1) (fun p hp => hps p (List.mem_cons_of_mem _ hp)) e he
  refine hboot _ 0 (fun p hp => ?_) e he
  obtain ⟨v, hv, rfl⟩ := List.mem_map.mp hp
  exact List.mem_toFinset.mpr hv

/-- The services that have just started are sound, and no store has run anything. -/
theorem Fresh.sound (h : Fresh F peers device c) (hF : F.wal.Lawful)
    (hcreate : (WALRecord.snapshot {}).Fits F.wal) (hchange : F.confChange.Lawful) :
    ∃ s, Sound F peers device s (fun _ => 0) c := by
  have hfresh : c.cluster.Fresh (setup F peers device) := by
    refine ⟨h.net, fun i hi => ?_⟩
    obtain ⟨hpos, hle⟩ := mem_members.mp hi
    exact (start_boot hF hcreate (h.servers i hpos hle)).1
  have hcluster : ClusterSim (setup F peers device) (group F peers device) _ c.cluster :=
    ClusterSim.fresh hfresh fun _ _ _ => rfl
  refine ⟨_, hcluster, fun m hm => ?_, fun i hpos hle => ?_, fun _ _ => rfl⟩
  · rw [h.net] at hm
    cases hm
  · have hi : i ∈ (setup F peers device).members := mem_members.mpr ⟨hpos, hle⟩
    have hbooted := (setup F peers device).boot_spec hi _ (hfresh.nodes i hi)
    have hstart := h.servers i hpos hle
    have hsound : Server.Sound F (fun _ => {}) (c.servers i) := Server.start_sound hstart
    obtain ⟨-, hstorage⟩ := start_boot hF hcreate hstart
    obtain ⟨⟨n, data⟩, hn, hmade⟩ := bind_eq_ok.mp hstart
    obtain ⟨store, -, hmade⟩ := bind_eq_ok.mp hmade
    have htasks : (c.servers i).tasks = [] := by rw [← Except.ok.inj hmade]
    have hnode : (c.servers i).node = n := by rw [← Except.ok.inj hmade]
    have hstarted := RaftNode.start_spec hn
    rw [← hnode] at hstarted
    have happlied : (c.servers i).node.appliedIndex = 0 := hstarted.applied
    have hhost := hstarted.sound.host
    have hcursors := hstarted.sound.applied
    rw [RaftNode.settled_of_none hstarted.ready] at hhost hcursors
    have honly : (c.servers i).node.node.raft.Only
        (Entry.AddsTo F (group F peers device).voters) := by
      refine ⟨⟨fun e he => ?_, fun e he => ?_⟩, fun m hm => ?_⟩
      · -- What is not persisted are the first entries.
        have hmem : e ∈ (c.servers i).node.node.raft.raftLog.toList := List.mem_append_right _ he
        rw [show (c.servers i).node.node.raft.raftLog.toList = _ from hbooted.log] at hmem
        exact startLog_addsTo hchange hmem
      · rw [show (c.servers i).node.node.raft.raftLog.storage = _ from hstorage] at he
        obtain rfl := List.mem_singleton.mp he
        exact (Entry.placeless_addsTo _).blankAt _ _
      · rw [show (c.servers i).node.node.raft.msgs = [] from hbooted.msgs] at hm
        cases hm
    constructor
    · exact ⟨hcluster.sim hi, honly, hhost, hstarted.ready, hcursors, hstarted.snapshotIndex,
        hstarted.snapCount⟩
    · intro m hm
      rw [hnode, (RaftNode.start_silent hn).1] at hm
      cases hm
    · exact Nat.zero_le _
    · rw [htasks, happlied]
      rfl
    · rw [htasks]
      exact nofun
    · have hmap := hsound.map
      rw [htasks, happlied] at hmap
      exact hmap

/-- A service stands for replicas of a state machine whose commands are the entries of the log. -/
structure Represents (F : Formats) (peers : ℕ) (c : Service) (a : Replicas ℕ Entry) : Prop where
  /-- What a server has committed is a first part of the history. -/
  committed : ∀ i, 1 ≤ i → i ≤ peers → (c.raft i).raftLog.committed ≤ a.history.length ∧
    ∀ k < (c.raft i).raftLog.committed, (c.raft i).raftLog.entryAt (k + 1) = a.history[k]?
  /-- A server has committed all of it. -/
  history : 1 ≤ peers → ∃ i, 1 ≤ i ∧ i ≤ peers ∧ (c.raft i).raftLog.committed = a.history.length
  /-- A store is not beyond what its node has applied, and the node not beyond what it has committed. -/
  position : ∀ i, 1 ≤ i → i ≤ peers → a.position i ≤ (c.servers i).node.appliedIndex ∧
    (c.servers i).node.appliedIndex ≤ (c.raft i).raftLog.committed
  /-- A store is in the state of the replica. -/
  store : ∀ i, 1 ≤ i → i ≤ peers →
    contentsOf (c.servers i).store.keyValues = a.state (runEntry F) noKeys i
  /-- The commands that it has yet to come to are the next ones. -/
  tasks : ∀ i, 1 ≤ i → i ≤ peers → (c.servers i).tasks.filterMap StoreTask.entry =
    ((a.history.take (c.servers i).node.appliedIndex).drop (a.position i)).filter fun e => e.IsCommand

/-- A sound service stands for the replicas that have come to the positions of its stores, where the history
begins with what every server has committed, and is committed by one. -/
theorem Sound.represents (h : Sound F peers device s position c) {history : List Entry}
    (hbegins : ∀ i, 1 ≤ i → i ≤ peers →
      (c.raft i).raftLog.toList.take (c.raft i).raftLog.committed = history.take (c.raft i).raftLog.committed ∧
        (c.raft i).raftLog.committed ≤ history.length)
    (hwhole : 1 ≤ peers → ∃ i, 1 ≤ i ∧ i ≤ peers ∧ (c.raft i).raftLog.committed = history.length) :
    Represents F peers c { history := history, position := position } := by
  have happlied : ∀ i, 1 ≤ i → i ≤ peers →
      (c.servers i).node.appliedIndex ≤ (c.raft i).raftLog.committed := fun i hpos hle =>
    (h.server i hpos hle).node.applied_le
  -- Up to what a server has committed, its log is the history.
  have hsame : ∀ i, 1 ≤ i → i ≤ peers → ∀ k ≤ (c.raft i).raftLog.committed,
      (c.raft i).raftLog.toList.take k = history.take k := by
    intro i hpos hle k hk
    have htake := congrArg (List.take k) (hbegins i hpos hle).1
    rwa [List.take_take, List.take_take, Nat.min_eq_left hk] at htake
  constructor
  · intro i hpos hle
    refine ⟨(hbegins i hpos hle).2, fun k hk => ?_⟩
    have huncompacted := (h.server i hpos hle).node.sim.node.uncompacted
    have hat : (c.raft i).raftLog.entryAt (k + 1) = (c.raft i).raftLog.toList[k]? :=
      huncompacted.entryAt_succ k
    have htake := congrArg (fun es => es[k]?) (hsame i hpos hle (k + 1) hk)
    simp only [List.getElem?_take, if_pos (Nat.lt_succ_self k)] at htake
    exact hat.trans htake
  · exact hwhole
  · intro i hpos hle
    exact ⟨(h.server i hpos hle).position_le, happlied i hpos hle⟩
  · intro i hpos hle
    have hposition := (h.server i hpos hle).position_le.trans (happlied i hpos hle)
    have hmap := (h.server i hpos hle).map
    rw [show (c.servers i).node.node.raft.raftLog.toList.take (position i) = history.take (position i) from
      hsame i hpos hle _ hposition] at hmap
    exact hmap
  · intro i hpos hle
    have htasks := (h.server i hpos hle).tasks
    rw [show (c.servers i).node.node.raft.raftLog.toList.take (c.servers i).node.appliedIndex =
      history.take (c.servers i).node.appliedIndex from hsame i hpos hle _ (happlied i hpos hle)] at htasks
    exact htasks

/-- The history of a sound service: what the server that has committed most has committed. -/
theorem Sound.exists_history (h : Sound F peers device s position c) : ∃ history : List Entry,
    (∀ i, 1 ≤ i → i ≤ peers → (c.raft i).raftLog.toList.take (c.raft i).raftLog.committed =
        history.take (c.raft i).raftLog.committed ∧ (c.raft i).raftLog.committed ≤ history.length) ∧
      (1 ≤ peers → ∃ i, 1 ≤ i ∧ i ≤ peers ∧ (c.raft i).raftLog.committed = history.length) ∧
      (history = [] ∨ ∃ i, 1 ≤ i ∧ i ≤ peers ∧
        history = (c.raft i).raftLog.toList.take (c.raft i).raftLog.committed) := by
  by_cases hpeers : 1 ≤ peers
  · obtain ⟨x, hx, hmax⟩ := (setup F peers device).members.exists_max_image
      (fun i => (c.raft i).raftLog.committed) ⟨1, mem_members.mpr ⟨Nat.le_refl 1, hpeers⟩⟩
    have hx' := mem_members.mp hx
    have hlen : ((c.raft x).raftLog.toList.take (c.raft x).raftLog.committed).length =
        (c.raft x).raftLog.committed := by
      have hle := h.cluster.inv.commits.commit_le x
      rw [h.cluster.log hx, h.cluster.commit hx] at hle
      exact List.length_take_of_le hle
    refine ⟨(c.raft x).raftLog.toList.take (c.raft x).raftLog.committed, fun i hpos hle => ?_, fun _ => ?_, ?_⟩
    · have hi : i ∈ (setup F peers device).members := mem_members.mpr ⟨hpos, hle⟩
      have hmost := hmax i hi
      rw [List.take_take, Nat.min_eq_left hmost, hlen]
      refine ⟨?_, hmost⟩
      have hagree := commit_agree h.cluster.inv h.cluster.inv (Le.refl s) i x (h.cluster.commit hi).ge
        (hmost.trans (h.cluster.commit hx).ge)
      rw [h.cluster.log hi, h.cluster.log hx] at hagree
      exact hagree
    · exact ⟨x, hx'.1, hx'.2, hlen.symm⟩
    · exact Or.inr ⟨x, hx'.1, hx'.2, rfl⟩
  · refine ⟨[], fun i hpos hle => ?_, fun h => absurd h hpeers, Or.inl rfl⟩
    exact absurd (hpos.trans hle) hpeers

end Service

open Service in
/-- A service refines replicas of a state machine: in every run, the entries that the servers commit are one
history, which only grows, and each store goes forward in it, one command after the other. -/
theorem servers_refine_replicas {peers : ℕ} {device : ℕ → RandomDevice} {c₀ c₁ c₂ : Service}
    {ts₁ ts₂ : List (Turn Service ServiceEvent)} (hF : F.wal.Lawful) (hchange : F.confChange.Lawful)
    (hcreate : (WALRecord.snapshot {}).Fits F.wal) (hfresh : Fresh F peers device c₀)
    (h₁ : Service.Run F c₀ ts₁ c₁) (h₂ : Service.Run F c₁ ts₂ c₂) (hproper₁ : ∀ t ∈ ts₁, Proper peers t)
    (hproper₂ : ∀ t ∈ ts₂, Proper peers t) : ∃ a₁ a₂, Replicas.Run {} a₁ ∧ Replicas.Run a₁ a₂ ∧
      Represents F peers c₁ a₁ ∧ Represents F peers c₂ a₂ := by
  obtain ⟨s₀, hs₀⟩ := hfresh.sound hF hcreate hchange
  obtain ⟨s₁, position₁, hgoes₁⟩ := hs₀.run h₁ hproper₁
  obtain ⟨s₂, position₂, hgoes₂⟩ := hgoes₁.sound.run h₂ hproper₂
  obtain ⟨history₁, hbegins₁, hwhole₁, hof₁⟩ := hgoes₁.sound.exists_history
  obtain ⟨history₂, hbegins₂, hwhole₂, -⟩ := hgoes₂.sound.exists_history
  have hgrows : history₁ <+: history₂ := by
    obtain rfl | ⟨x, hpos, hle, rfl⟩ := hof₁
    · exact List.nil_prefix
    · -- The server has committed this part at both times.
      have hx : x ∈ (setup F peers device).members := mem_members.mpr ⟨hpos, hle⟩
      have hmost := hgoes₂.committed_le x
      have hagree := commit_agree hgoes₁.sound.cluster.inv hgoes₂.sound.cluster.inv hgoes₂.le x x
        (hgoes₁.sound.cluster.commit hx).ge (hmost.trans (hgoes₂.sound.cluster.commit hx).ge)
      rw [hgoes₁.sound.cluster.log hx, hgoes₂.sound.cluster.log hx] at hagree
      have htake := congrArg (List.take (c₁.raft x).raftLog.committed) (hbegins₂ x hpos hle).1
      rw [List.take_take, List.take_take, Nat.min_eq_left hmost] at htake
      rw [show (c₁.raft x).raftLog.toList.take (c₁.raft x).raftLog.committed = _ from hagree.trans htake]
      exact List.take_prefix _ _
  have hvalid : ∀ {s : History} {position : ℕ → ℕ} {c : Service} {history : List Entry},
      Sound F peers device s position c → (∀ i, 1 ≤ i → i ≤ peers → (c.raft i).raftLog.toList.take
        (c.raft i).raftLog.committed = history.take (c.raft i).raftLog.committed ∧
          (c.raft i).raftLog.committed ≤ history.length) → ∀ i, position i ≤ history.length := by
    intro s position c history hs hbegins i
    by_cases hi : 1 ≤ i ∧ i ≤ peers
    · have hserver := hs.server i hi.1 hi.2
      exact (hserver.position_le.trans hserver.node.applied_le).trans (hbegins i hi.1 hi.2).2
    · rw [hs.outside i hi]
      exact Nat.zero_le _
  have hfixed : ∀ {s : History} {position : ℕ → ℕ} {c : Service}, Sound F peers device s position c →
      ∀ i ∉ (setup F peers device).members, position i = 0 := fun hs i hi =>
    hs.outside i fun hmem => hi (mem_members.mpr hmem)
  have hstays : ∀ i ∉ (setup F peers device).members, position₂ i = position₁ i := fun i hi =>
    (hfixed hgoes₂.sound i hi).trans (hfixed hgoes₁.sound i hi).symm
  refine ⟨⟨history₁, position₁⟩, ⟨history₂, position₂⟩, ?_, ?_, hgoes₁.sound.represents hbegins₁ hwhole₁,
    hgoes₂.sound.represents hbegins₂ hwhole₂⟩
  · exact Replicas.run_of_le (setup F peers device).members List.nil_prefix (fun _ => Nat.zero_le _)
      (hvalid hgoes₁.sound hbegins₁) (hfixed hgoes₁.sound)
  · exact Replicas.run_of_le (setup F peers device).members hgrows hgoes₂.position_le
      (hvalid hgoes₂.sound hbegins₂) hstays

open Service in
/-- Three servers elect a leader, which commits a command. -/
theorem servers_refine_replicas_trio : Outcome.Returns startedTrio fun c₀ =>
    let r₁ := Trace.play (Service.exec msgpackFormats) c₀ elects
    let r₂ := Trace.play (Service.exec msgpackFormats) r₁.2 commits
    r₂.1.length = 13 ∧ (r₂.2.servers 1).store.keyValues.lookup [107] = some [118] ∧
      ∃ a₁ a₂, Replicas.Run {} a₁ ∧ Replicas.Run a₁ a₂ ∧ Represents msgpackFormats 3 r₁.2 a₁ ∧
        Represents msgpackFormats 3 r₂.2 a₂ := by
  have hplayed : Outcome.Returns startedTrio fun c₀ =>
      let r₁ := Trace.play (Service.exec msgpackFormats) c₀ elects
      let r₂ := Trace.play (Service.exec msgpackFormats) r₁.2 commits
      (∀ t ∈ r₁.1, Proper 3 t) ∧ (∀ t ∈ r₂.1, Proper 3 t) ∧ r₂.1.length = 13 ∧
        (r₂.2.servers 1).store.keyValues.lookup [107] = some [118] := by
    decide +kernel
  have hcreate : (WALRecord.snapshot {}).Fits msgpackFormats.wal := by decide +kernel
  obtain ⟨c₀, hc₀, hproper₁, hproper₂, hlen, hkey⟩ := hplayed
  exact ⟨c₀, hc₀, hlen, hkey, servers_refine_replicas msgpackFormat_lawful
    (codec_lawful confChangeFormat_selfDelimiting) hcreate (startedTrio_fresh hc₀) (Trace.of_play _ _ _)
    (Trace.of_play _ _ _) hproper₁ hproper₂⟩

end RaftCpp
