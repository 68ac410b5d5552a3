import RaftCpp.Raft.Provenance
import RaftCpp.Replication.Hosting
import RaftCpp.Replication.Runs
import RaftCpp.Server.Snapshots

/-!
# What a turn of a server's node does

In a service, the thread of a node never comes to a snapshot, and the only changes of the membership that it
applies are those of its first entries, which add voters that the node has. So a turn of its loop takes the
node to one that is again related to the history of the cluster. It posts the commands of the committed entries
that are new to it, all of them, once and in their order, and it sends messages that the history supports.
-/

namespace RaftCpp

open Consensus Outcome

variable {F : Formats} {G : Group} {s s' : History}

/-! ## Entries -/

/-- An entry that changes the membership adds a voter. -/
def Entry.AddsTo (F : Formats) (voters : Finset ℕ) (e : Entry) : Prop :=
  e.type = .entryConfChange → ∃ cc, F.confChange.unpack e.data = some cc ∧ cc.AddsTo voters

/-- Where the entry stands does not matter. -/
theorem Entry.placeless_addsTo (voters : Finset ℕ) : Placeless (Entry.AddsTo F voters) where
  blank := nofun
  move _ _ _ h := h

/-- An entry whose data the store gets to read. -/
def Entry.IsCommand (e : Entry) : Prop := e.type = .entryNormal ∧ e.data ≠ []

instance (e : Entry) : Decidable e.IsCommand :=
  inferInstanceAs (Decidable (e.type = .entryNormal ∧ e.data ≠ []))

/-- The tasks of the commands among entries. -/
def commandTasks (es : List Entry) : List StoreTask :=
  (es.filter fun e => e.IsCommand).map StoreTask.readCommit

/-- The tasks of entries after entries. -/
@[simp] theorem commandTasks_append (es es' : List Entry) :
    commandTasks (es ++ es') = commandTasks es ++ commandTasks es' := by
  unfold commandTasks
  rw [List.filter_append, List.map_append]

/-- Entries with consecutive indices that the log holds are a segment of its list. -/
theorem RaftLog.Uncompacted.segment {l : RaftLog} (h : l.Uncompacted) {k : ℕ} {es : List Entry}
    (hidx : IndexedFrom (k + 1) es) (hmem : ∀ e ∈ es, l.entryAt e.index = some e) :
    es = (l.toList.take (k + es.length)).drop k := by
  refine List.ext_getElem? fun j => ?_
  rw [List.getElem?_drop, List.getElem?_take]
  by_cases hj : j < es.length
  · have he : es[j]? = some es[j] := List.getElem?_eq_getElem hj
    have hat := hmem es[j] (List.getElem_mem hj)
    rw [hidx j es[j] he, Nat.add_right_comm, h.entryAt_succ] at hat
    rw [if_pos (Nat.add_lt_add_left hj k), he, hat]
  · rw [if_neg (by omega), List.getElem?_eq_none (Nat.le_of_not_lt hj)]

namespace RaftNode

variable {n n' : RaftNode} {rd : Ready} {node : RawNode}

/-- `publish_entries`, where every change of the membership adds a voter: all entries count as applied, and the
commands among them are posted. -/
theorem publishEntries_adds {voters : Finset ℕ} {P : RawNode → Prop}
    (hP : ∀ nd cc, P nd → ConfChange.AddsTo voters cc → Ensures (nd.applyConfChange cc) fun p => P p.2)
    (es : List Entry) (n : RaftNode) (hadds : ∀ e ∈ es, e.AddsTo F voters)
    (hidx : IndexedFrom (n.appliedIndex + 1) es) (hn : P n.node) :
    Ensures (n.publishEntries F es) fun p => ∃ nd cs calls, P nd ∧
      p.2 = { n with
        node := nd
        confState := cs
        calls := n.calls ++ calls
        appliedIndex := n.appliedIndex + es.length } ∧
      calls.filterMap Call.task = commandTasks es ∧ calls.flatMap Call.sent = [] := by
  induction es generalizing n with
  | nil =>
    refine Ensures.ok ⟨n.node, n.confState, [], hn, ?_, rfl, rfl⟩
    rw [List.append_nil]
    rfl
  | cons e es ih =>
    have he : e.index = n.appliedIndex + 1 := hidx.head
    have hrest : ∀ e' ∈ es, e'.AddsTo F voters := fun e' he' => hadds e' (List.mem_cons_of_mem _ he')
    have htail : IndexedFrom (e.index + 1) es := by
      rw [he]
      exact hidx.tail
    have hcount : e.index + es.length = n.appliedIndex + (e :: es).length := by
      rw [List.length_cons, he]
      omega
    unfold publishEntries
    cases ht : e.type with
    | entryNormal =>
      -- The entry is posted if it has data.
      dsimp only
      refine (ih _ hrest htail (by split_ifs <;> exact hn)).mono ?_
      rintro p ⟨nd, cs, calls, hnd, hp, htasks, hsent⟩
      by_cases hdata : e.data = []
      · have hnot : ¬e.IsCommand := fun h => h.2 hdata
        simp only [if_pos hdata] at hp
        refine ⟨nd, cs, calls, hnd, ?_, ?_, hsent⟩
        · rw [← hcount]
          exact hp
        · rw [htasks, commandTasks, commandTasks, List.filter_cons_of_neg (by simpa using hnot)]
      · have hcommand : e.IsCommand := ⟨ht, hdata⟩
        simp only [if_neg hdata] at hp
        refine ⟨nd, cs, .readCommit e :: calls, hnd, ?_, ?_, hsent⟩
        · rw [← hcount, List.append_cons]
          exact hp
        · rw [commandTasks, List.filter_cons_of_pos (by simpa using hcommand), List.map_cons]
          exact congrArg _ htasks
    | entryConfChange =>
      -- The change is applied, and it is not the removal of the node.
      obtain ⟨cc, hcc, haddsTo⟩ := hadds e List.mem_cons_self ht
      have hnot : ¬e.IsCommand := fun h => by
        rw [h.1] at ht
        cases ht
      have hstays : ¬(cc.confChangeType = confChangeRemoveNode ∧ cc.nodeId = n.id) := by
        rw [haddsTo.1]
        exact fun h => absurd h.1 (by decide)
      dsimp only
      rw [hcc]
      dsimp only
      refine Ensures.bind (P := fun p => P p.2) (fun p hp => ?_) ?_
      · exact hP n.node cc hn haddsTo p (ofRaft_eq_ok.mp hp)
      · rintro ⟨cs, nd⟩ hnd
        refine Ensures.ite (fun h => absurd h hstays) fun _ => ?_
        refine (ih _ hrest htail hnd).mono ?_
        rintro p ⟨nd', cs', calls, hnd', hp, htasks, hsent⟩
        refine ⟨nd', cs', .applyConfChange e :: calls, hnd', ?_, ?_, hsent⟩
        · rw [← hcount, List.append_cons]
          exact hp
        · rw [commandTasks, List.filter_cons_of_neg (by simpa using hnot)]
          exact htasks
    | other code => exact Ensures.error

/-! ## The node of a service -/

/-- The node of a service, between the turns of its loop. -/
structure Serving (F : Formats) (G : Group) (s : History) (n : RaftNode) : Prop where
  /-- The node is related to the history of the cluster. -/
  sim : Sim G s n.node.raft
  /-- The changes of the membership that it holds and sends add voters. -/
  only : n.node.raft.Only (Entry.AddsTo F G.voters)
  /-- Its log fits together. -/
  host : ({ node := n.node } : Host).Sound
  /-- The thread does not wait for the store. -/
  ready : n.ready = none
  /-- The cursors agree. -/
  applied : n.appliedIndex = n.node.raft.raftLog.applied
  /-- No snapshot was taken. -/
  snapshotIndex : n.snapshotIndex = 0
  /-- `snap_count_` is the default. -/
  snapCount : n.snapCount = defaultSnapCount

/-- What is applied is committed. -/
theorem Serving.applied_le (h : n.Serving F G s) : n.appliedIndex ≤ n.node.raft.raftLog.committed := by
  rw [h.applied]
  exact h.host.log.applied_le

/-- What a node of a service does on an event, and what is true of the history after it. -/
structure Served (F : Formats) (G : Group) (n n' : RaftNode) (s' : History) : Prop where
  /-- The node is one of the service. -/
  serving : n'.Serving F G s'
  /-- The identity stays. -/
  id : n'.node.raft.id = n.node.raft.id
  /-- Nothing that was committed is taken back. -/
  committed_le : n.node.raft.raftLog.committed ≤ n'.node.raft.raftLog.committed
  /-- Nothing that was applied is undone. -/
  applied_le : n.appliedIndex ≤ n'.appliedIndex
  /-- The messages that it sends are true of the history. -/
  sent : ∀ m ∈ n'.calls.flatMap Call.sent, MessageOK G s' m ∧ ∀ e ∈ m.carried, e.AddsTo F G.voters
  /-- It posts the commands of the entries that it applies. -/
  tasks : n'.calls.filterMap Call.task =
    commandTasks ((n'.node.raft.raftLog.toList.take n'.appliedIndex).drop n.appliedIndex)

/-- An event that neither sends nor posts anything. -/
theorem Served.quiet (h : n.Serving F G s) {calls : List Call} (hsim : Sim G s' node.raft)
    (honly : node.raft.Only (Entry.AddsTo F G.voters)) (hhost : ({ node := node } : Host).Sound)
    (hid : node.raft.id = n.node.raft.id) (happlied : node.raft.raftLog.applied = n.node.raft.raftLog.applied)
    (hcommitted : n.node.raft.raftLog.committed ≤ node.raft.raftLog.committed)
    (htasks : calls.filterMap Call.task = []) (hsent : calls.flatMap Call.sent = []) :
    Served F G n { n with node := node, calls := calls, ready := none } s' where
  serving := ⟨hsim, honly, hhost, rfl, h.applied.trans happlied.symm, h.snapshotIndex, h.snapCount⟩
  id := hid
  committed_le := hcommitted
  applied_le := Nat.le_refl _
  sent m hm := by
    dsimp only at hm
    rw [hsent] at hm
    cases hm
  tasks := by
    show calls.filterMap Call.task = commandTasks ((List.take n.appliedIndex _).drop n.appliedIndex)
    rw [htasks, List.drop_take, Nat.sub_self, List.take_zero]
    rfl

/-- A message or a tick moves the node along the history. -/
theorem Serving.moved (h : n.Serving F G s) {c : Cause} {calls : List Call}
    (hcourse : Course c n.node.raft node.raft) (hrefines : Refines G s n.node.raft.id node.raft)
    (hcons : ∀ m, c = .step m → m.Consecutive)
    (hcarried : ∀ m, c = .step m → ∀ e ∈ m.carried, e.AddsTo F G.voters)
    (htasks : calls.filterMap Call.task = []) (hsent : calls.flatMap Call.sent = []) :
    ∃ s', Moves G.setting n.node.raft.id s s' ∧
      Served F G n { n with node := node, calls := calls, ready := none } s' := by
  obtain ⟨hid, s', hmoves, hsim⟩ := hrefines
  have honly := hcourse.only (Entry.placeless_addsTo G.voters) h.only hcarried
  -- The log is edited, and its cursor stays.
  have hedits := hcourse.edits h.host.log hcons
  obtain ⟨-, happlied, -, hcommitted⟩ := hedits.frame
  have hhost : ({ node := node } : Host).Sound :=
    ⟨h.host.log.edits hedits, fun hnone => (h.host.idle hnone).edits h.host.log hedits, nofun⟩
  exact ⟨s', hmoves, Served.quiet h hsim honly hhost hid happlied hcommitted htasks hsent⟩

/-- The node in a turn of its loop, once what was taken is written to the storage. -/
structure Turning (F : Formats) (G : Group) (s : History) (n : RaftNode) (rd : Ready) (st : MemoryStorage)
    (nd : RawNode) : Prop where
  /-- The turn is under way. -/
  turn : n.node.InTurn rd st nd
  /-- The node is related to the history. -/
  sim : Sim G s nd.raft
  /-- Its entries only add voters. -/
  only : nd.raft.Only (Entry.AddsTo F G.voters)
  /-- Its log has the new storage. -/
  log : nd.raft.raftLog = { n.node.raft.raftLog with storage := st }
  /-- The identity stays. -/
  id : nd.raft.id = n.node.raft.id
  /-- The storage ends with what was taken. -/
  stored : rd.entries ≠ [] →
    st.entries = st.entries.take n.node.raft.raftLog.unstable.offset ++ rd.entries

/-- What is taken is written to the storage. -/
theorem Serving.turning (h : n.Serving F G s) (hrd : n.node.ready = .ok (rd, node)) {st : MemoryStorage}
    (hpersist : rd.persist node.storage = .ok st) : Turning F G s n rd st (node.setStorage st) := by
  obtain ⟨hsim, hlog, hid, hsnap⟩ := h.sim.ready hrd
  obtain ⟨-, -, hentries, -⟩ := RawNode.ready_eq hrd
  obtain ⟨honly, hes, -⟩ := RawNode.ready_only h.only hrd
  have happend : node.storage.append rd.entries = .ok st := by
    unfold Ready.persist at hpersist
    rwa [if_pos hsnap] at hpersist
  -- What is taken are the unstable entries.
  rw [hentries] at happend
  have hstored : node.storage.append node.raft.raftLog.unstable.entries = .ok st := by
    rw [hlog]
    exact happend
  have hwritten := hsim.node.uncompacted.stored hstored
  have hnew := MemoryStorage.append_only honly.log.storage (hentries ▸ hes) st happend
  constructor
  · exact h.host.inTurn hrd hpersist
  · exact hsim.stored hstored
  · exact RawNode.setStorage_only honly hnew
  · show { node.raft.raftLog with storage := st } = _
    rw [hlog]
  · exact hid
  · rw [hlog] at hwritten
    rw [hentries]
    exact hwritten.2.2

/-- A change of the membership that adds a voter keeps the turn under way. -/
theorem Turning.applyConfChange {st : MemoryStorage} {nd : RawNode} (h : Turning F G s n rd st nd)
    {cc : ConfChange} (hcc : cc.AddsTo G.voters) :
    Ensures (nd.applyConfChange cc) fun p => Turning F G s n rd st p.2 := by
  intro p hp
  obtain ⟨hsim, hlog, hid⟩ := h.sim.applyConfChange hcc p hp
  have honly := RawNode.applyConfChange_only (Entry.placeless_addsTo G.voters) h.only cc p hp
  exact ⟨h.turn.applyConfChange cc hp, hsim, honly, hlog.trans h.log, hid.trans h.id, h.stored⟩

/-- The node advances, and its log stands for the same list. -/
theorem Turning.advance {st : MemoryStorage} {nd : RawNode} (h : Turning F G s n rd st nd)
    (hn : n.Serving F G s) (hrd : n.node.ready = .ok (rd, node)) :
    Sim G s (nd.advance rd).raft ∧
      (nd.advance rd).raft.raftLog.toList = n.node.raft.raftLog.toList ∧
      (nd.advance rd).raft.raftLog.committed = n.node.raft.raftLog.committed ∧
      (nd.advance rd).raft.id = n.node.raft.id := by
  obtain ⟨-, -, -, hsnap⟩ := hn.sim.ready hrd
  obtain ⟨-, -, hentries, -⟩ := RawNode.ready_eq hrd
  have hunstable : nd.raft.raftLog.unstable = n.node.raft.raftLog.unstable := by rw [h.log]
  have hstorage : nd.storage = st := h.turn.storage
  have hstored : rd.entries ≠ [] → nd.storage.entries =
      nd.storage.entries.take nd.raft.raftLog.unstable.offset ++ rd.entries := by
    rw [hunstable, hstorage]
    exact h.stored
  obtain ⟨hsim, hlist, hcommitted, hid⟩ := h.sim.advanced (hentries.trans (by rw [hunstable])) hsnap hstored
  -- The list of the log has not changed when the storage was written.
  have hbefore : nd.raft.raftLog.toList = n.node.raft.raftLog.toList := by
    rw [← h.sim.node.log, ← hn.sim.node.log, h.id]
  exact ⟨hsim, hlist.trans hbefore, hcommitted.trans (by rw [h.log]), hid.trans h.id⟩

/-- The entries that a turn hands out are those that the log has committed behind what is applied. -/
theorem Serving.handsOut (h : n.Serving F G s) (hrd : n.node.ready = .ok (rd, node)) :
    IndexedFrom (n.appliedIndex + 1) rd.committedEntries ∧
      rd.committedEntries = (n.node.raft.raftLog.toList.take
        (n.appliedIndex + rd.committedEntries.length)).drop n.appliedIndex := by
  obtain ⟨-, -, -, hsnap⟩ := h.sim.ready hrd
  obtain ⟨-, hidx, -, hmem⟩ := h.host.ready_follows hrd
  have hbase : rd.base n.node.raft.raftLog.applied = n.appliedIndex := (if_pos hsnap).trans h.applied.symm
  have hidx' : IndexedFrom (n.appliedIndex + 1) rd.committedEntries := by
    rw [← hbase]
    exact hidx
  exact ⟨hidx', h.sim.node.uncompacted.segment hidx' fun e he => (hmem e he).1⟩

/-- A turn of the loop that takes something, where the log is too short for a snapshot. -/
theorem Serving.handleReady (h : n.Serving F G s) (hrd : n.node.ready = .ok (rd, node))
    (hlast : n.node.raft.raftLog.lastIndex ≤ defaultSnapCount) :
    Ensures ({ n with node := node, calls := [] }.handleReady F rd) fun n' => Served F G n n' s := by
  obtain ⟨-, -, -, hsnap⟩ := h.sim.ready hrd
  obtain ⟨hmessages, -⟩ := RawNode.ready_eq hrd
  obtain ⟨-, -, hcommands, hcarried⟩ := RawNode.ready_only h.only hrd
  obtain ⟨hidx, hes⟩ := h.handsOut hrd
  have hbase : ∀ k, rd.base k = k := fun k => if_pos hsnap
  unfold RaftNode.handleReady
  refine Ensures.bind (persistReady_spec _ rd).ensures ?_
  rintro n₁ ⟨st, hpersist, hnode₁, -, hcount₁, hready₁, happlied₁, hcalls₁, hindex₁, -⟩
  rw [hbase] at happlied₁ hindex₁
  have hturning := h.turning hrd hpersist
  -- The messages are handed to the transport, and nothing is posted yet.
  obtain ⟨n₂, hn₂, hnode₂, hcount₂, hready₂, happlied₂, hindex₂, htasks₂, hsent₂⟩ : ∃ n₂, n₂ =
      (if rd.messages = [] then n₁ else n₁.call (.send rd.messages)) ∧ n₂.node = node.setStorage st ∧
        n₂.snapCount = n.snapCount ∧ n₂.ready = none ∧ n₂.appliedIndex = n.appliedIndex ∧
        n₂.snapshotIndex = n.snapshotIndex ∧ n₂.calls.filterMap Call.task = [] ∧
        n₂.calls.flatMap Call.sent = rd.messages := by
    have hpersisted : persistCalls rd = [.save rd.hardState rd.entries] := by
      unfold persistCalls
      rw [if_pos hsnap]
    refine ⟨_, rfl, ?_⟩
    split_ifs with hnil
    · refine ⟨hnode₁, hcount₁, hready₁.trans h.ready, happlied₁, hindex₁, ?_, ?_⟩
      · rw [hcalls₁, hpersisted]
        rfl
      · rw [hcalls₁, hpersisted, hnil]
        rfl
    · refine ⟨hnode₁, hcount₁, hready₁.trans h.ready, happlied₁, hindex₁, ?_, ?_⟩
      · rw [call, hcalls₁, hpersisted]
        rfl
      · rw [call, hcalls₁, hpersisted]
        exact List.append_nil _
  dsimp only
  rw [← hn₂]
  rw [← happlied₂] at hidx
  rw [entriesToApply_eq hidx]
  refine Ensures.bind (P := fun es => es = rd.committedEntries) (Ensures.ok rfl) ?_
  rintro _ rfl
  refine Ensures.bind (publishEntries_adds (P := Turning F G s n rd st)
    (fun nd cc hnd hcc => hnd.applyConfChange hcc) _ n₂ hcommands hidx ?_) ?_
  · rw [hnode₂]
    exact hturning
  rintro ⟨done, n₃⟩ ⟨nd, cs, calls, hnd, rfl, htasks, hsent⟩
  dsimp only
  obtain ⟨hsim, hlist, hcommitted, hid⟩ := hnd.advance h hrd
  obtain ⟨hhost, hcursor, -⟩ := hnd.turn.advance h.host hrd
  rw [← h.applied, hbase] at hcursor
  -- No snapshot is due, since there are not that many entries.
  have hfew : n.appliedIndex + rd.committedEntries.length ≤ defaultSnapCount := by
    have hlog := hhost.log
    have hle : (nd.advance rd).raft.raftLog.applied ≤ (nd.advance rd).raft.raftLog.lastIndex :=
      hlog.applied_le.trans hlog.committed_le
    rw [hsim.node.uncompacted.lastIndex_eq, hlist, ← h.sim.node.uncompacted.lastIndex_eq, hcursor] at hle
    exact hle.trans hlast
  have hnotDue : sub64 (n₂.appliedIndex + rd.committedEntries.length) n₂.snapshotIndex ≤ n₂.snapCount := by
    rw [happlied₂, hindex₂, h.snapshotIndex, sub64_of_le (Nat.zero_le _), Nat.sub_zero, hcount₂, h.snapCount]
    exact hfew
  refine Ensures.pure ?_
  unfold maybeTriggerSnapshot
  rw [if_pos hnotDue]
  constructor
  · have hagree : n₂.appliedIndex + rd.committedEntries.length = (nd.advance rd).raft.raftLog.applied := by
      rw [hcursor, happlied₂]
    exact ⟨hsim, RawNode.advance_only hnd.only rd, hhost, rfl, hagree, hindex₂.trans h.snapshotIndex,
      hcount₂.trans h.snapCount⟩
  · exact hid
  · exact hcommitted.ge
  · show n.appliedIndex ≤ n₂.appliedIndex + rd.committedEntries.length
    rw [happlied₂]
    exact Nat.le_add_right _ _
  · intro m hm
    replace hm : m ∈ (n₂.calls ++ calls).flatMap Call.sent := hm
    rw [List.flatMap_append, hsent₂, hsent, List.append_nil] at hm
    exact ⟨h.sim.node.msgs m (hmessages ▸ hm), hcarried m hm⟩
  · show (n₂.calls ++ calls).filterMap Call.task = commandTasks (((nd.advance rd).raft.raftLog.toList.take
      (n₂.appliedIndex + rd.committedEntries.length)).drop n.appliedIndex)
    rw [List.filterMap_append, htasks₂, List.nil_append, htasks, hlist, happlied₂, ← hes]

/-- What an event must be for the node to stay in the service: a message is one of the history, for this node,
and no answer to a poll that would count as a vote; and what is handed out is not too long for a snapshot. -/
def Admits (F : Formats) (G : Group) (s : History) (n : RaftNode) : RaftNodeEvent → Prop
  | .process m => MessageOK G s m ∧ (∀ e ∈ m.carried, e.AddsTo F G.voters) ∧ m.toId = n.node.raft.id ∧
      ¬n.node.raft.strayPreVote m
  | .pull => n.node.raft.raftLog.lastIndex ≤ defaultSnapCount
  | _ => True

/-- The entries of a message of the history have consecutive indices. -/
theorem consecutive_of_messageOK {r : Raft} (h : Sim G s r) {m : Message} (hm : MessageOK G s m) :
    m.Consecutive := by
  intro htype
  unfold MessageOK at hm
  simp only [htype] at hm
  obtain ⟨-, L, hL, -, -, ⟨t, hes⟩, -⟩ := hm
  intro j e he
  have hdrop : (L.drop m.index)[j]? = some e := by
    rw [← hes, List.getElem?_append_left (List.getElem?_eq_some_iff.mp he).1]
    exact he
  rw [List.getElem?_drop] at hdrop
  have hindex := h.indexed m.term L hL (m.index + j) e hdrop
  omega

/-- A node of the service handles an event. -/
theorem Serving.handle (h : n.Serving F G s) {e : RaftNodeEvent} (he : Admits F G s n e) :
    Ensures (n.handle F e) fun n' =>
      ∃ s', Moves G.setting n.node.raft.id s s' ∧ Served F G n n' s' := by
  have hstay : ∀ node : RawNode, Sim G s node.raft → node.raft.Only (Entry.AddsTo F G.voters) →
      node.raft.raftLog = n.node.raft.raftLog → node.raft.id = n.node.raft.id →
      ∃ s', Moves G.setting n.node.raft.id s s' ∧
        Served F G n { n with node := node, calls := [], ready := none } s' := by
    intro node hsim honly hlog hid
    have happlied : node.raft.raftLog.applied = n.node.raft.raftLog.applied := congrArg RaftLog.applied hlog
    have hcommitted : n.node.raft.raftLog.committed ≤ node.raft.raftLog.committed :=
      (congrArg RaftLog.committed hlog).ge
    exact ⟨s, Relation.ReflTransGen.refl,
      Served.quiet h hsim honly (h.host.of_raftLog hlog) hid happlied hcommitted rfl rfl⟩
  unfold RaftNode.handle
  dsimp only
  rw [h.ready]
  cases e with
  | tick =>
    refine Ensures.bindEq fun node hnode => Ensures.pure ?_
    replace hnode := ofRaft_eq_ok.mp hnode
    obtain ⟨hcourse, -⟩ := RawNode.moves_tick n.node node hnode
    obtain ⟨r, hr, heq⟩ := bind_eq_ok.mp hnode
    cases heq
    refine h.moved hcourse (h.sim.tick.ensures r hr) ?_ ?_ rfl rfl
    · rintro m ⟨⟩
    · rintro m ⟨⟩
  | propose data =>
    refine Ensures.bindEq ?_
    rintro ⟨status, node⟩ hnode
    refine Ensures.pure ?_
    obtain ⟨⟨status', r⟩, hstep, heq⟩ := bind_eq_ok.mp (ofRaft_eq_ok.mp hnode)
    cases heq
    -- A proposal brings an entry without a type of its own: a normal one.
    refine h.moved (Raft.moves_step rfl _ hstep) ?_ ?_ ?_ rfl rfl
    · exact (h.sim.stepLocal (.of_input rfl) (isInputType_ne rfl)).ensures _ hstep
    · rintro _ ⟨⟩ htype
      cases htype
    · rintro _ ⟨⟩ e hmem
      rw [Message.carried, if_pos (Or.inr rfl)] at hmem
      obtain rfl := List.mem_singleton.mp hmem
      intro htype
      cases htype
  | process m =>
    refine Ensures.bindEq ?_
    rintro ⟨status, node⟩ hnode
    refine Ensures.pure ?_
    obtain ⟨hm, hcarried, hto, hstray⟩ := he
    obtain ⟨hcourse, -⟩ := RawNode.moves_step n.node m _ (ofRaft_eq_ok.mp hnode)
    have hrefines : Ensures (n.node.step m) fun p => Refines G s n.node.raft.id p.2.raft := by
      unfold RawNode.step
      refine Ensures.ite (fun _ => Ensures.ok h.sim.refines) fun _ => ?_
      refine Ensures.ite (fun _ => ?_) fun _ => Ensures.ok h.sim.refines
      exact Ensures.bind (h.sim.stepRaft hm (fun _ => hto) hstray).ensures fun p hp => Ensures.pure hp
    refine h.moved hcourse (hrefines _ (ofRaft_eq_ok.mp hnode)) ?_ ?_ rfl rfl
    · rintro _ ⟨⟩
      exact consecutive_of_messageOK h.sim hm
    · rintro _ ⟨⟩
      exact hcarried
  | pull =>
    unfold pullReadyEvents
    dsimp only
    refine Ensures.ite (fun _ => Ensures.pure (hstay n.node h.sim h.only rfl rfl)) fun _ => ?_
    refine Ensures.bindEq ?_
    rintro ⟨rd, node⟩ hrd
    replace hrd := ofRaft_eq_ok.mp hrd
    apply Ensures.ite
    · -- What is ready is nothing that has to be handled.
      intro _
      obtain ⟨hsim, hlog, hid, -⟩ := h.sim.ready hrd
      obtain ⟨honly, -⟩ := RawNode.ready_only h.only hrd
      exact Ensures.pure (hstay node hsim honly hlog hid)
    · intro _
      have hhandled := h.handleReady hrd he
      rw [h.ready] at hhandled
      exact hhandled.mono fun n' hn' => ⟨s, Relation.ReflTransGen.refl, hn'⟩
  | snapshotData data => exact Ensures.ok (hstay n.node h.sim h.only rfl rfl)

end RaftNode

end RaftCpp
