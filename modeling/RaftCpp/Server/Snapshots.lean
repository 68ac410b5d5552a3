import RaftCpp.Raft.Persisting
import RaftCpp.Server.Contents
import RaftCpp.Server.Formats
import RaftCpp.Server.Restart
import RaftCpp.Server.Threads

/-!
# The snapshots that a server takes

A server takes a snapshot of its store when more entries are applied than it counts up to. The node's
cursors and the store's map are in different threads: the map that the store has once it comes to the task
of the snapshot is that of the entries which the node has applied, because all tasks before it have run.
-/

namespace RaftCpp

open Outcome

/-! ## The storage -/

namespace MemoryStorage

variable {s : MemoryStorage} {index i : ℕ}

/-- The list has entries above the placeholder, up to the last index. -/
theorem plain_get?_isSome : (s.plain.get? i).isSome ↔ s.dummy.index < i ∧ i ≤ s.lastIndex := by
  have hlast := RaftLog.storage_lastIndex_succ s
  have hpos := List.length_pos_iff.mpr s.entries_ne_nil
  rw [BasedLog.get?_isSome]
  unfold BasedLog.firstIndex BasedLog.lastIndex plain
  rw [List.length_tail]
  dsimp only
  omega

/-- A snapshot of an index that is newer than the last one, and has an entry, succeeds. -/
theorem createSnapshot_ok (hnew : s.snapshot.metadata.index < index) {e : Entry}
    (he : s.plain.get? index = some e) (cs : Option ConfState) (data : Bytes) :
    ∃ snap : Snapshot, s.createSnapshot index cs data = .ok (.ok, snap, { s with snapshot := snap }) ∧
      snap.data = data ∧ snap.metadata.index = index ∧ snap.metadata.term = e.term := by
  obtain ⟨hgt, hle⟩ := plain_get?_isSome.mp (Option.isSome_of_mem he)
  rw [plain_get? hgt] at he
  unfold createSnapshot
  rw [if_neg (Nat.not_le.mpr hnew), if_neg (Nat.not_lt.mpr hle), sub64_of_le (Nat.le_of_lt hgt)]
  unfold elemAt
  rw [he]
  exact ⟨_, rfl, rfl, rfl, rfl⟩

/-- A compaction to an index that has an entry succeeds, and keeps what is above it. -/
theorem compact_ok (hgt : s.dummy.index < index) (hle : index ≤ s.lastIndex)
    (hs : IndexedFrom s.dummy.index s.entries) :
    ∃ s', s.compact index = .ok (.ok, s') ∧ s'.snapshot = s.snapshot ∧ s'.dummy.index = index ∧
      ∀ i, index < i → s'.plain.get? i = s.plain.get? i := by
  obtain ⟨e, he⟩ := Option.isSome_iff_exists.mp (plain_get?_isSome.mpr ⟨hgt, hle⟩)
  rw [plain_get? hgt] at he
  have hindex : e.index = index := by
    rw [hs _ _ he]
    omega
  unfold compact
  rw [if_neg (Nat.not_le.mpr hgt), if_neg (Nat.not_lt.mpr hle)]
  unfold elemAt
  rw [he]
  refine ⟨_, rfl, rfl, hindex, fun i hi => ?_⟩
  rw [plain_get? (Nat.lt_trans hgt hi), plain_get? (show e.index < i by rwa [hindex])]
  show ({ s.dummy with index := e.index, term := e.term } ::
    s.entries.drop (index - s.dummy.index + 1))[i - e.index]? = _
  obtain ⟨k, hk⟩ := Nat.exists_eq_add_of_lt hi
  rw [show i - e.index = k + 1 by omega, List.getElem?_cons_succ, List.getElem?_drop]
  congr 1
  omega

end MemoryStorage

/-- A committed entry that is taken is in the storage once what was taken is written. -/
theorem RaftLog.InRound.stored {l : RaftLog} {rd : Ready} {s : MemoryStorage} {e : Entry}
    (hr : l.InRound rd false l.unstable.offset) (hs : rd.persist l.storage = .ok s)
    (hentries : rd.entries = l.unstable.entries) (he : l.entryAt e.index = some e)
    (hbase : rd.snapshot.isEmpty = false → rd.snapshot.metadata.index < e.index) :
    s.plain.get? e.index = some e := by
  obtain ⟨s', hs', hempty, hfull, hwritten⟩ := hr.persist_ok
  obtain rfl : s = s' := Except.ok.inj (hs.symm.trans hs')
  unfold entryAt at he
  split_ifs at he with hdummy hoff
  · -- Below the offset, nothing was written.
    have hnone : rd.snapshot.isEmpty = true := by
      by_contra hne
      have hfalse := Bool.eq_false_iff.mpr hne
      have ha := (hr.snapshot_gt hfalse).2
      have hlow := hbase hfalse
      omega
    rw [(hempty hnone).2 e.index hoff, MemoryStorage.plain_get? (Nat.lt_of_not_le hdummy)]
    exact he
  · have hne : rd.entries ≠ [] := by
      rintro hnil
      rw [← hentries, hnil] at he
      cases he
    have hlow : s.dummy.index < e.index := by
      cases hsnap : rd.snapshot.isEmpty with
      | true =>
        rw [(hempty hsnap).1]
        exact Nat.lt_of_not_le hdummy
      | false =>
        rw [(hfull hsnap).1]
        exact hbase hsnap
    rw [hwritten hne e.index (Nat.le_of_not_lt hoff) hlow, hentries]
    exact he

/-! ## The tasks -/

section Tasks

variable {F : Formats}

/-- What a task does to the map of the store. -/
def StoreTask.applyTo (F : Formats) (t : StoreTask) (m : Contents) : Contents :=
  match t with
  | .readCommit e => applyCommandIn F e.data m
  | .recoverFromSnapshot data =>
    match F.keyValues.unpack data with
    | some kv => contentsOf kv
    | none => m
  | .getSnapshot | .setProposed _ _ | .delProposed _ _ => m

/-- The data of a snapshot take the place of the map. -/
theorem StoreTask.applyTo_recoverFromSnapshot {data : Bytes} {kv : KeyValues}
    (h : F.keyValues.unpack data = some kv) (m : Contents) :
    (StoreTask.recoverFromSnapshot data).applyTo F m = contentsOf kv := by
  show (match F.keyValues.unpack data with | some kv => contentsOf kv | none => m) = _
  rw [h]

/-- What the tasks that are posted do to the map of the store, one after the other. -/
def drain (F : Formats) (ts : List StoreTask) (m : Contents) : Contents :=
  ts.foldl (fun m t => t.applyTo F m) m

/-- What is posted runs after what was posted before. -/
@[simp] theorem drain_append (ts ts' : List StoreTask) (m : Contents) :
    drain F (ts ++ ts') m = drain F ts' (drain F ts m) := List.foldl_append

/-- What a store does in a task. -/
theorem RedisStore.run_spec (nodeId : ℕ) (s : RedisStore) (t : StoreTask) :
    Ensures (s.run F nodeId t) fun p =>
      contentsOf p.2.2.keyValues = t.applyTo F (contentsOf s.keyValues) ∧
        p.2.1 = if t = .getSnapshot then some (F.keyValues.pack s.keyValues) else none := by
  have hanswer : ∀ commitId status,
      contentsOf (s.answer commitId status).2.keyValues = contentsOf s.keyValues := fun commitId status => by
    rw [keyValues_answer]
  cases t with
  | readCommit e =>
    refine Ensures.bind (readCommit_spec F s nodeId e) fun p hp => ?_
    exact Ensures.pure ⟨hp, rfl⟩
  | recoverFromSnapshot data =>
    unfold run recoverFromSnapshot
    refine Ensures.bind (P := fun s' : RedisStore => ∃ kv, F.keyValues.unpack data = some kv ∧
      s'.keyValues = kv) ?_ ?_
    · refine Ensures.ite (fun _ => Ensures.error) fun _ => ?_
      cases F.keyValues.unpack data with
      | none => exact Ensures.error
      | some kv => exact Ensures.ok ⟨kv, rfl, rfl⟩
    · rintro s' ⟨kv, hkv, rfl⟩
      exact Ensures.pure ⟨(StoreTask.applyTo_recoverFromSnapshot hkv _).symm, rfl⟩
  | getSnapshot => exact Ensures.ok ⟨rfl, rfl⟩
  | setProposed commitId status =>
    refine Ensures.ok ⟨?_, rfl⟩
    show contentsOf (s.setProposed commitId status).2.keyValues = contentsOf s.keyValues
    unfold setProposed
    split_ifs
    · rfl
    · exact hanswer commitId status
  | delProposed commitId status => exact Ensures.ok ⟨hanswer commitId status, rfl⟩

/-- The tasks that calls post lead from one map to another, and none of them takes a snapshot. -/
structure Posts (F : Formats) (calls : List Call) (m m' : Contents) : Prop where
  /-- No snapshot is taken. -/
  noSnapshot : StoreTask.getSnapshot ∉ calls.filterMap Call.task
  /-- The map after them. -/
  drain : drain F (calls.filterMap Call.task) m = m'

variable {calls calls' : List Call} {m m' m'' : Contents}

/-- Nothing is posted. -/
theorem Posts.none (h : calls.filterMap Call.task = []) : Posts F calls m m where
  noSnapshot := by
    rw [h]
    exact List.not_mem_nil
  drain := by
    rw [h]
    rfl

/-- Calls after calls. -/
theorem Posts.append (h : Posts F calls m m') (h' : Posts F calls' m' m'') :
    Posts F (calls ++ calls') m m'' where
  noSnapshot := by
    rw [List.filterMap_append, List.mem_append]
    exact fun hmem => hmem.elim h.noSnapshot h'.noSnapshot
  drain := by
    rw [List.filterMap_append, drain_append, h.drain, h'.drain]

end Tasks

/-! ## The cursors of the node -/

/-- A snapshot of the cluster: its data are the map that the entries up to its index make. -/
def Snapshot.IsOf (F : Formats) (committed : ℕ → Entry) (s : Snapshot) : Prop :=
  ∃ kv, F.keyValues.unpack s.data = some kv ∧ contentsOf kv = contents F committed s.metadata.index

namespace RaftNode

variable {F : Formats} {committed : ℕ → Entry} {n n' : RaftNode} {rd : Ready}

/-- The cursors of the node and of its storage fit together. What is applied may be behind the log's own
cursor: after the removal of the node itself, or a configuration change that cannot be read. -/
structure Placed (F : Formats) (committed : ℕ → Entry) (n : RaftNode) : Prop where
  /-- The log fits together. -/
  host : ({ node := n.settled } : Host).Sound
  /-- A snapshot to install is one of the cluster. -/
  pending : ∀ s ∈ n.settled.raft.raftLog.unstable.snapshot, s.IsOf F committed
  /-- What is applied is applied in the log. -/
  applied_le : n.appliedIndex ≤ n.settled.raft.raftLog.applied
  /-- `snap_count_` is the default. -/
  snapCount : n.snapCount = defaultSnapCount
  /-- The storage has the last snapshot. -/
  snapshot : n.node.storage.snapshot.metadata.index = n.snapshotIndex
  /-- It is not compacted above it. -/
  dummy_le : n.node.storage.dummy.index ≤ n.snapshotIndex
  /-- The last snapshot is of applied entries. -/
  snapshot_le : n.snapshotIndex ≤ n.appliedIndex
  /-- Between the turns of the loop, no snapshot is due. -/
  idle : n.ready = none → n.appliedIndex ≤ n.snapshotIndex + defaultSnapCount
  /-- During the wait for the store, one is, and the storage has the entry that was applied last. -/
  waiting : n.ready ≠ none → n.snapshotIndex + defaultSnapCount < n.appliedIndex ∧
    n.node.storage.plain.get? n.appliedIndex = some (committed n.appliedIndex)

/-- The entries to apply are all that are handed out, or the node stops. -/
theorem entriesToApply_spec {k : ℕ} {es : List Entry} (hidx : IndexedFrom (k + 1) es)
    (hle : n.appliedIndex ≤ k) : Ensures (n.entriesToApply es) fun ents =>
      ents = es ∧ IndexedFrom (n.appliedIndex + 1) es := by
  cases es with
  | nil => exact Ensures.ok ⟨rfl, nofun⟩
  | cons e es =>
    have he : e.index = k + 1 := hidx.head
    by_cases hgap : n.appliedIndex = k
    · rw [← hgap] at hidx
      rw [entriesToApply_eq hidx]
      exact Ensures.ok ⟨rfl, hidx⟩
    · have hahead : e.index > n.appliedIndex + 1 := by omega
      rw [entriesToApply, if_pos hahead]
      exact Ensures.error

/-- `publish_entries` posts the commands of the entries up to the last one that it counts as applied. -/
theorem publishEntries_posts {P : RawNode → Prop}
    (hP : ∀ node cc p, P node → node.applyConfChange cc = .ok p → P p.2) (es : List Entry) (n : RaftNode)
    (k : ℕ) (hidx : IndexedFrom (k + 1) es) (hle : n.appliedIndex ≤ k)
    (hsame : contents F committed n.appliedIndex = contents F committed k)
    (hcom : ∀ e ∈ es, committed e.index = e) (hn : P n.node) :
    Ensures (n.publishEntries F es) fun p => ∃ node cs calls applied,
      P node ∧ p.2 = { n with
        node := node
        confState := cs
        calls := n.calls ++ calls
        appliedIndex := applied } ∧
      n.appliedIndex ≤ applied ∧ applied ≤ k + es.length ∧
      (applied = n.appliedIndex ∨ ∃ e ∈ es, e.index = applied) ∧
      Posts F calls (contents F committed n.appliedIndex) (contents F committed applied) := by
  induction es generalizing n k with
  | nil =>
    refine Ensures.ok ⟨n.node, n.confState, [], n.appliedIndex, hn, ?_, Nat.le_refl _, hle, Or.inl rfl,
      Posts.none rfl⟩
    rw [List.append_nil]
  | cons e es ih =>
    have he : e.index = k + 1 := hidx.head
    have hcom' : ∀ e' ∈ es, committed e'.index = e' := fun e' h => hcom e' (List.mem_cons_of_mem _ h)
    have htail : IndexedFrom (k + 1 + 1) es := hidx.tail
    have hfollows : n.appliedIndex ≤ e.index := by omega
    -- The map behind the entry.
    have hstep : contents F committed (k + 1) = e.applyTo F (contents F committed n.appliedIndex) := by
      rw [hsame, ← hcom e List.mem_cons_self, he]
      rfl
    unfold publishEntries
    cases ht : e.type with
    | entryNormal =>
      dsimp only
      obtain ⟨call, hcall⟩ : ∃ call, call = if e.data = [] then [] else [Call.readCommit e] := ⟨_, rfl⟩
      have hposts : Posts F call (contents F committed n.appliedIndex) (contents F committed e.index) := by
        rw [hcall, he, hstep]
        unfold Entry.applyTo
        by_cases hdata : e.data = []
        · rw [if_pos hdata, if_neg fun h => h.2 hdata]
          exact Posts.none rfl
        · rw [if_neg hdata, if_pos ⟨ht, hdata⟩]
          exact ⟨by simp [Call.task], rfl⟩
      have hafter : (if e.data = [] then n else n.call (.readCommit e)) =
          { n with calls := n.calls ++ call } := by
        rw [hcall]
        split_ifs
        · rw [List.append_nil]
        · rfl
      rw [hafter]
      refine (ih { n with calls := n.calls ++ call, appliedIndex := e.index } (k + 1) htail
        (Nat.le_of_eq he) (by rw [he]) hcom' hn).mono ?_
      rintro p ⟨node, cs, calls, applied, hnode, hp, hge, happlied, hlast, hrest⟩
      refine ⟨node, cs, call ++ calls, applied, hnode, ?_, ?_, ?_, ?_, hposts.append hrest⟩
      · rw [← List.append_assoc]
        exact hp
      · exact Nat.le_trans hfollows hge
      · rw [List.length_cons]
        omega
      · obtain heq | ⟨e', he', heq⟩ := hlast
        · exact Or.inr ⟨e, List.mem_cons_self, heq.symm⟩
        · exact Or.inr ⟨e', List.mem_cons_of_mem _ he', heq⟩
    | entryConfChange =>
      -- A configuration change leaves the map as it is.
      have hkeep : contents F committed (k + 1) = contents F committed n.appliedIndex := by
        rw [hstep]
        unfold Entry.applyTo
        rw [if_neg fun h => by rw [ht] at h; cases h.1]
      dsimp only
      cases F.confChange.unpack e.data with
      | none =>
        refine (ih n (k + 1) htail (by omega) hkeep.symm hcom' hn).mono ?_
        rintro p ⟨node, cs, calls, applied, hnode, hp, hge, happlied, hlast, hrest⟩
        refine ⟨node, cs, calls, applied, hnode, hp, hge, ?_, ?_, hrest⟩
        · rw [List.length_cons]
          omega
        · obtain heq | ⟨e', he', heq⟩ := hlast
          · exact Or.inl heq
          · exact Or.inr ⟨e', List.mem_cons_of_mem _ he', heq⟩
      | some cc =>
        refine Ensures.bind (P := fun p => P p.2) (fun p hp => hP _ _ p hn (ofRaft_eq_ok.mp hp)) ?_
        rintro ⟨cs, node⟩ hnode
        have hposts : Posts F [Call.applyConfChange e] (contents F committed n.appliedIndex)
            (contents F committed e.index) := by
          rw [he, hkeep]
          exact Posts.none rfl
        apply Ensures.ite
        · intro _
          refine Ensures.ok ⟨node, cs, [.applyConfChange e], n.appliedIndex, hnode, rfl, Nat.le_refl _, ?_,
            Or.inl rfl, Posts.none rfl⟩
          exact Nat.le_add_right_of_le hle
        · intro _
          refine (ih _ (k + 1) htail (Nat.le_of_eq he) (by rw [he]) hcom' hnode).mono ?_
          rintro p ⟨node', cs', calls, applied, hnode', hp, hge, happlied, hlast, hrest⟩
          refine ⟨node', cs', .applyConfChange e :: calls, applied, hnode', ?_, ?_, ?_, ?_,
            hposts.append hrest⟩
          · rw [List.append_cons]
            exact hp
          · exact Nat.le_trans hfollows hge
          · rw [List.length_cons]
            omega
          · obtain heq | ⟨e', he', heq⟩ := hlast
            · exact Or.inr ⟨e, List.mem_cons_self, heq.symm⟩
            · exact Or.inr ⟨e', List.mem_cons_of_mem _ he', heq⟩
    | other code => exact Ensures.error

/-- What is written posts the data of a snapshot, if there is one. -/
theorem persistCalls_posts (hof : rd.snapshot.isEmpty = false → rd.snapshot.IsOf F committed) (k : ℕ) :
    Posts F (persistCalls rd) (contents F committed k) (contents F committed (rd.base k)) := by
  unfold persistCalls Ready.base
  cases hsnap : rd.snapshot.isEmpty with
  | true => exact Posts.none rfl
  | false =>
    obtain ⟨kv, hkv, heq⟩ := hof hsnap
    constructor
    · simp [Call.task]
    · show (StoreTask.recoverFromSnapshot rd.snapshot.data).applyTo F (contents F committed k) = _
      rw [StoreTask.applyTo_recoverFromSnapshot hkv, heq]
      rfl

/-- What a turn of the loop leaves of the cursors, and what it posts: the task of the snapshot comes last. -/
structure Turned (F : Formats) (committed : ℕ → Entry) (n n' : RaftNode) : Prop where
  /-- The cursors still fit together. -/
  placed : n'.Placed F committed
  /-- The identity stays. -/
  id : n'.id = n.id
  /-- What is posted. -/
  posts : ∃ calls, n'.calls = calls ++ (if n'.ready.isSome then [.getSnapshot] else []) ∧
    Posts F calls (contents F committed n.appliedIndex) (contents F committed n'.appliedIndex)

/-- The end of the turn's part before a wait for the store. -/
theorem turned_maybeTriggerSnapshot {node₀ node₁ : RawNode} {s : MemoryStorage}
    (hs : ({ node := node₀ } : Host).Sound) (hrd : node₀.ready = .ok (rd, node₁))
    (hturn : node₀.InTurn rd s n.node) (hid : n.id = n'.id) (hcount : n.snapCount = defaultSnapCount)
    (happlied : n.appliedIndex ≤ rd.base node₀.raft.raftLog.applied + rd.committedEntries.length)
    (hsnap : s.snapshot.metadata.index = n.snapshotIndex) (hdummy : s.dummy.index ≤ n.snapshotIndex)
    (hle : n.snapshotIndex ≤ n.appliedIndex)
    (hentry : n.snapshotIndex + defaultSnapCount < n.appliedIndex →
      s.plain.get? n.appliedIndex = some (committed n.appliedIndex))
    (hposts : Posts F n.calls (contents F committed n'.appliedIndex) (contents F committed n.appliedIndex)) :
    Turned F committed n' (n.maybeTriggerSnapshot rd) := by
  obtain ⟨hsound, hcursor, hnone⟩ := hturn.advance hs hrd
  have hstorage := hturn.storage
  have hadvanced : (n.node.advance rd).storage = s := by rw [RawNode.advance_storage, hstorage]
  have hpending : ∀ s ∈ (n.node.advance rd).raft.raftLog.unstable.snapshot, s.IsOf F committed := by
    rw [hnone]
    exact nofun
  have hlog : n.appliedIndex ≤ (n.node.advance rd).raft.raftLog.applied := by
    rw [hcursor]
    exact happlied
  have hsub : sub64 n.appliedIndex n.snapshotIndex = n.appliedIndex - n.snapshotIndex := sub64_of_le hle
  unfold maybeTriggerSnapshot
  by_cases hdue : sub64 n.appliedIndex n.snapshotIndex ≤ n.snapCount
  · rw [if_pos hdue]
    rw [hsub, hcount] at hdue
    refine ⟨⟨hsound, hpending, hlog, hcount, ?_, ?_, hle, fun _ => ?_, fun h => absurd rfl h⟩, hid, n.calls,
      (List.append_nil _).symm, hposts⟩
    · show (n.node.advance rd).storage.snapshot.metadata.index = _
      rw [hadvanced]
      exact hsnap
    · show (n.node.advance rd).storage.dummy.index ≤ _
      rw [hadvanced]
      exact hdummy
    · exact Nat.sub_le_iff_le_add'.mp hdue
  · rw [if_neg hdue]
    rw [hsub, hcount] at hdue
    have hdue' : n.snapshotIndex + defaultSnapCount < n.appliedIndex := by omega
    refine ⟨⟨hsound, hpending, hlog, hcount, ?_, ?_, hle, nofun, fun _ => ⟨hdue', ?_⟩⟩, hid, n.calls, rfl,
      hposts⟩
    · show n.node.storage.snapshot.metadata.index = _
      rw [hstorage]
      exact hsnap
    · show n.node.storage.dummy.index ≤ _
      rw [hstorage]
      exact hdummy
    · show n.node.storage.plain.get? _ = _
      rw [hstorage]
      exact hentry hdue'

/-- A turn of the loop that takes something. -/
theorem Placed.handleReady (hn : n.Placed F committed) (hready : n.ready = none) {node : RawNode}
    (hrd : n.node.ready = .ok (rd, node)) (hcom : ∀ e ∈ rd.committedEntries, committed e.index = e) :
    Ensures ({ n with node := node, calls := [] }.handleReady F rd) (Turned F committed n) := by
  have hhost := hn.host
  have hpending := hn.pending
  have happ := hn.applied_le
  rw [settled_of_none hready] at hhost hpending happ
  obtain ⟨hbase, hidx, -, hmem⟩ := hhost.ready_follows hrd
  obtain ⟨-, -, hentries, hsnap, hnext, size, hnode⟩ := RawNode.ready_eq hrd
  have hround := hhost.log.ready (hhost.idle rfl) hentries hsnap hnext
  have hstorage : node.storage = n.node.storage := by rw [hnode]; rfl
  -- A snapshot that is taken is one of the cluster.
  have hof : rd.snapshot.isEmpty = false → rd.snapshot.IsOf F committed := by
    intro hne
    cases hp : n.node.raft.raftLog.unstable.snapshot with
    | none =>
      rw [hp] at hsnap
      rw [hsnap] at hne
      cases hne
    | some t =>
      rw [hp] at hsnap
      rw [hsnap]
      exact hpending t hp
  unfold RaftNode.handleReady
  refine Ensures.bind (persistReady_spec _ rd).ensures ?_
  rintro n₁ ⟨s, hpersist, hnode₁, hid, hcount, -, happlied, hcalls, hindex, hahead⟩
  have hturn := hhost.inTurn hrd hpersist
  rw [show ({ n with node := node, calls := [] } : RaftNode).node.storage = n.node.storage from hstorage]
    at hpersist
  obtain ⟨-, -, -, hempty, hfull⟩ := hround.persist_spec hhost.log.storage_indexed s hpersist
  -- The cursors after the writing.
  obtain ⟨hsnapS, hdummyS, hleS, hidleS, hbaseS⟩ :
      s.snapshot.metadata.index = n₁.snapshotIndex ∧ s.dummy.index ≤ n₁.snapshotIndex ∧
        n₁.snapshotIndex ≤ n₁.appliedIndex ∧ n₁.appliedIndex ≤ n₁.snapshotIndex + defaultSnapCount ∧
        n₁.appliedIndex ≤ rd.base n.node.raft.raftLog.applied := by
    rw [happlied, hindex]
    unfold Ready.base
    cases he : rd.snapshot.isEmpty with
    | true =>
      obtain ⟨hd, hs⟩ := hempty he
      rw [hd, hs]
      exact ⟨hn.snapshot, hn.dummy_le, hn.snapshot_le, hn.idle hready, happ⟩
    | false =>
      obtain ⟨hd, hs⟩ := hfull he
      rw [hd, hs]
      exact ⟨rfl, Nat.le_refl _, Nat.le_refl _, Nat.le_add_right _ _, Nat.le_refl _⟩
  obtain ⟨n₂, hn₂⟩ : ∃ n₂, n₂ = { n₁ with
    calls := n₁.calls ++ if rd.messages = [] then [] else [Call.send rd.messages] } := ⟨_, rfl⟩
  have hsend : (if rd.messages = [] then n₁ else n₁.call (.send rd.messages)) = n₂ := by
    rw [hn₂]
    split_ifs
    · rw [List.append_nil]
    · rfl
  have hposts₂ : Posts F n₂.calls (contents F committed n.appliedIndex)
      (contents F committed n₁.appliedIndex) := by
    have hwritten := persistCalls_posts hof n.appliedIndex
    rw [hn₂, hcalls, happlied]
    refine Posts.append hwritten (Posts.none ?_)
    split_ifs <;> rfl
  dsimp only
  rw [hsend]
  have happlied₂ : n₂.appliedIndex = n₁.appliedIndex := by rw [hn₂]
  refine Ensures.bind (entriesToApply_spec hidx (by rw [happlied₂]; exact hbaseS)) ?_
  rintro _ ⟨rfl, hidx₂⟩
  refine Ensures.bind (publishEntries_posts (P := n.node.InTurn rd s)
    (fun _ cc _ h hp => h.applyConfChange cc hp) _ n₂ n₂.appliedIndex hidx₂ (Nat.le_refl _) rfl hcom ?_) ?_
  · rw [hn₂]
    show n.node.InTurn rd s n₁.node
    rw [hnode₁]
    exact hturn
  rintro ⟨done, n₃⟩ ⟨nd, cs, calls, applied, hnd, rfl, hge, hle, hlast, hposts⟩
  have hindex₂ : n₂.snapshotIndex = n₁.snapshotIndex := by rw [hn₂]
  refine Ensures.pure (turned_maybeTriggerSnapshot hhost hrd hnd ?_ ?_ ?_ ?_ ?_ ?_ ?_ ?_)
  · show n₂.id = n.id
    rw [hn₂]
    exact hid
  · show n₂.snapCount = defaultSnapCount
    rw [hn₂]
    exact hcount.trans hn.snapCount
  · show applied ≤ _
    rw [happlied₂] at hle
    exact Nat.le_trans hle (Nat.add_le_add_right hbaseS _)
  · rw [hindex₂]
    exact hsnapS
  · rw [hindex₂]
    exact hdummyS
  · show n₂.snapshotIndex ≤ applied
    rw [hindex₂]
    rw [happlied₂] at hge
    exact Nat.le_trans hleS hge
  · -- The last applied entry is one of those that were taken.
    show n₂.snapshotIndex + defaultSnapCount < applied → s.plain.get? applied = some (committed applied)
    intro hdue
    obtain rfl | ⟨e, he, rfl⟩ := hlast
    · rw [hindex₂, happlied₂] at hdue
      exact absurd hidleS (Nat.not_le.mpr hdue)
    · rw [hcom e he]
      refine hround.stored hpersist hentries (hmem e he).1 fun hne => ?_
      obtain ⟨i, hi, hie⟩ := List.getElem_of_mem he
      have hpos := hidx i e (by rw [List.getElem?_eq_getElem hi, hie])
      have hbaseIndex : rd.base n.node.raft.raftLog.applied = rd.snapshot.metadata.index :=
        if_neg (by rw [hne]; exact Bool.false_ne_true)
      rw [show Host.log { node := n.node } = n.node.raft.raftLog from rfl, hbaseIndex] at hpos
      omega
  · show Posts F (n₂.calls ++ calls) _ _
    rw [happlied₂] at hposts
    exact hposts₂.append hposts

/-- A step that leaves the log as it is, and posts nothing. -/
theorem Placed.sameLog (hn : n.Placed F committed) (hr : n.ready = none) {node : RawNode} {calls : List Call}
    (hlog : node.raft.raftLog = n.node.raft.raftLog) (hcalls : calls.filterMap Call.task = []) :
    Turned F committed n { n with node := node, calls := calls, ready := none } := by
  have hset := settled_of_none hr
  have hhost := hn.host
  have hpending := hn.pending
  have happ := hn.applied_le
  rw [hset] at hhost hpending happ
  have hstorage : node.storage = n.node.storage := congrArg RaftLog.storage hlog
  refine ⟨⟨hhost.of_raftLog hlog, ?_, ?_, hn.snapCount, ?_, ?_, hn.snapshot_le, fun _ => hn.idle hr,
    fun h => absurd rfl h⟩, rfl, calls, (List.append_nil _).symm, Posts.none hcalls⟩
  · show ∀ s ∈ node.raft.raftLog.unstable.snapshot, s.IsOf F committed
    rw [hlog]
    exact hpending
  · show n.appliedIndex ≤ node.raft.raftLog.applied
    rw [hlog]
    exact happ
  · show node.storage.snapshot.metadata.index = _
    rw [hstorage]
    exact hn.snapshot
  · show node.storage.dummy.index ≤ _
    rw [hstorage]
    exact hn.dummy_le

/-- A step in which the node moves. -/
theorem Placed.moved (hn : n.Placed F committed) (hr : n.ready = none) {node : RawNode} {c : Cause}
    {calls : List Call} (hmoves : Course c n.node.raft node.raft)
    (hcons : ∀ m, c = .step m → m.Consecutive)
    (hof : ∀ m, c = .step m → m.type = .msgSnap → m.snapshot.IsOf F committed)
    (hcalls : calls.filterMap Call.task = []) :
    Turned F committed n { n with node := node, calls := calls, ready := none } := by
  have hset := settled_of_none hr
  have hhost := hn.host
  have hpending := hn.pending
  have happ := hn.applied_le
  rw [hset] at hhost hpending happ
  have hedits := hmoves.edits hhost.log hcons
  obtain ⟨hstorage, happlied, -⟩ := hedits.frame
  have hsound : ({ node := node } : Host).Sound :=
    ⟨hhost.log.edits hedits, fun hnone => (hhost.idle hnone).edits hhost.log hedits, nofun⟩
  refine ⟨⟨hsound, ?_, ?_, hn.snapCount, ?_, ?_, hn.snapshot_le, fun _ => hn.idle hr,
    fun h => absurd rfl h⟩, rfl, calls, (List.append_nil _).symm, Posts.none hcalls⟩
  · show ∀ s ∈ node.raft.raftLog.unstable.snapshot, s.IsOf F committed
    obtain heq | ⟨m, hm, htype, heq⟩ := hmoves.snapshot_cases
    · rw [heq]
      exact hpending
    · rw [heq]
      rintro s ⟨⟩
      exact hof m hm htype
  · show n.appliedIndex ≤ node.raft.raftLog.applied
    rw [happlied]
    exact happ
  · show node.raft.raftLog.storage.snapshot.metadata.index = _
    rw [hstorage]
    exact hn.snapshot
  · show node.raft.raftLog.storage.dummy.index ≤ _
    rw [hstorage]
    exact hn.dummy_le

/-- A step between the turns of the loop. -/
theorem Placed.handle_idle (hn : n.Placed F committed) (hr : n.ready = none) {e : RaftNodeEvent}
    (hcons : e.Consecutive)
    (hof : ∀ m, e = .process m → m.type = .msgSnap → m.snapshot.IsOf F committed)
    (hcom : ∀ rd ∈ n.taken e, ∀ e ∈ rd.committedEntries, committed e.index = e) :
    Ensures (n.handle F e) (Turned F committed n) := by
  unfold RaftNode.handle
  dsimp only
  rw [hr]
  cases e with
  | tick =>
    refine Ensures.bindEq fun node hnode => Ensures.pure ?_
    have hmoves := (RawNode.moves_tick n.node).mono fun _ h => h.1
    exact hn.moved hr (hmoves node (ofRaft_eq_ok.mp hnode)) nofun nofun rfl
  | propose data =>
    refine Ensures.bindEq ?_
    rintro ⟨status, node⟩ hnode
    refine Ensures.pure ?_
    obtain ⟨⟨status', r⟩, hstep, heq⟩ := bind_eq_ok.mp (ofRaft_eq_ok.mp hnode)
    cases heq
    refine hn.moved hr (Raft.moves_step rfl _ hstep) ?_ ?_ rfl
    · rintro _ ⟨⟩ h
      cases h
    · rintro _ ⟨⟩ h
      cases h
  | process m =>
    refine Ensures.bindEq ?_
    rintro ⟨status, node⟩ hnode
    refine Ensures.pure ?_
    have hmoves := (RawNode.moves_step n.node m).mono fun _ h => h.1
    refine hn.moved hr (hmoves _ (ofRaft_eq_ok.mp hnode)) ?_ ?_ rfl
    · rintro _ ⟨⟩
      exact hcons
    · rintro _ ⟨⟩
      exact hof m rfl
  | pull =>
    unfold pullReadyEvents
    dsimp only
    apply Ensures.ite
    · exact fun _ => Ensures.pure (hn.sameLog hr rfl rfl)
    intro hhas
    refine Ensures.bindEq ?_
    rintro ⟨rd, node⟩ hrd
    have hrd := ofRaft_eq_ok.mp hrd
    apply Ensures.ite
    · intro _
      refine Ensures.pure (hn.sameLog hr ?_ rfl)
      obtain ⟨-, -, -, -, -, size, hnode⟩ := RawNode.ready_eq hrd
      rw [hnode]
    · intro hupdates
      have htaken : n.taken .pull = some rd := by
        unfold taken
        rw [hr, hrd]
        exact if_pos ⟨not_not.mp hhas, not_not.mp hupdates⟩
      have hturned := hn.handleReady hr hrd (hcom rd htaken)
      rw [hr] at hturned
      exact hturned
  | snapshotData data => exact Ensures.ok (hn.sameLog hr rfl rfl)

/-- What a node has stored of a snapshot of the store's data: the position of the last applied entry, and
everything above it as it was. -/
structure Stored (committed : ℕ → Entry) (data : Bytes) (n n' : RaftNode) : Prop where
  /-- The index. -/
  index : n'.node.storage.snapshot.metadata.index = n.appliedIndex
  /-- The term. -/
  term : n'.node.storage.snapshot.metadata.term = (committed n.appliedIndex).term
  /-- The data. -/
  data : n'.node.storage.snapshot.data = data
  /-- It is written to a file, too. -/
  saved : .saveSnap n'.node.storage.snapshot ∈ n'.calls
  /-- Nothing above what is applied is discarded. -/
  keeps : ∀ i, n.appliedIndex < i → n'.node.storage.plain.get? i = n.node.storage.plain.get? i

/-- With the data of the store, the node stores a snapshot. -/
theorem Placed.handle_snapshotData (hn : n.Placed F committed) (hr : n.ready = some rd) (data : Bytes) :
    ∃ n', n.handle F (.snapshotData data) = .ok n' ∧ n'.Placed F committed ∧ n'.ready = none ∧
      n'.id = n.id ∧ n'.appliedIndex = n.appliedIndex ∧ n'.calls.filterMap Call.task = [] ∧
      Stored committed data n n' := by
  have hset : n.settled = n.node.advance rd := by
    unfold settled
    rw [hr]
  have hhost := hn.host
  have hpending := hn.pending
  have happ := hn.applied_le
  rw [hset] at hhost hpending happ
  obtain ⟨hdue, hentry⟩ := hn.waiting (by rw [hr]; exact Option.some_ne_none rd)
  have hidx : IndexedFrom n.node.storage.dummy.index n.node.storage.entries := by
    have h := hhost.log.storage_indexed
    rwa [show ({ node := n.node.advance rd } : Host).log.storage = n.node.storage from
      n.node.advance_storage rd] at h
  have hnew : n.node.storage.snapshot.metadata.index < n.appliedIndex := by
    rw [hn.snapshot]
    omega
  obtain ⟨snap, hcreate, hdata, hindex, hterm⟩ :=
    MemoryStorage.createSnapshot_ok hnew hentry (some n.confState) data
  -- The index to compact to is above the last snapshot.
  have hcompact : n.compactIndex = n.appliedIndex - snapshotCatchUpEntriesN := by
    unfold compactIndex
    rw [if_pos]
    exact Nat.lt_of_le_of_lt (Nat.le_add_left _ _) hdue
  have habove : n.node.storage.dummy.index < n.compactIndex := by
    have hdummy := hn.dummy_le
    have hcounts : snapshotCatchUpEntriesN = defaultSnapCount := rfl
    omega
  have hbelow : n.compactIndex ≤ n.appliedIndex := by
    rw [hcompact]
    exact Nat.sub_le _ _
  have hlast := (MemoryStorage.plain_get?_isSome.mp (Option.isSome_of_mem hentry)).2
  obtain ⟨s', hcompacted, hsnap', hdummy', hkeeps⟩ := MemoryStorage.compact_ok
    (s := { n.node.storage with snapshot := snap }) habove (Nat.le_trans hbelow hlast) hidx
  obtain ⟨n₁, hn₁⟩ : ∃ n₁, n₁ =
      ({ n with calls := [] }.setStorage { n.node.storage with snapshot := snap }).saveSnap F snap := ⟨_, rfl⟩
  have htrigger : { n with calls := [] }.triggerSnapshot F data =
      .ok { n₁.setStorage s' with snapshotIndex := n.appliedIndex } := by
    have hcreate' : ofRaft (({ n with calls := [] } : RaftNode).node.storage.createSnapshot n.appliedIndex
        (some n.confState) data) = .ok (.ok, snap, { n.node.storage with snapshot := snap }) :=
      ofRaft_eq_ok.mpr hcreate
    have hcompacted' : ofRaft (n₁.node.storage.compact n₁.compactIndex) = .ok (.ok, s') := by
      rw [hn₁]
      exact ofRaft_eq_ok.mpr hcompacted
    have hindex₁ : n₁.appliedIndex = n.appliedIndex := by rw [hn₁]; rfl
    unfold triggerSnapshot
    rw [hcreate']
    show (ofRaft ((({ n with calls := [] }.setStorage { n.node.storage with
      snapshot := snap }).saveSnap F snap).node.storage.compact _) >>= _) = _
    rw [← hn₁, hcompacted']
    rw [← hindex₁]
    rfl
  have hspec :=
    (triggerSnapshot_spec (F := F) (n := { n with calls := [] }) data hhost happ).ensures _ htrigger
  obtain ⟨hid, -, hsound, hcursor, -⟩ := hspec
  obtain ⟨n₂, hn₂⟩ : ∃ n₂, n₂ = { n₁.setStorage s' with snapshotIndex := n.appliedIndex } := ⟨_, rfl⟩
  rw [← hn₂] at htrigger hid hsound hcursor
  have hhandle : n.handle F (.snapshotData data) = .ok (n₂.advance rd) := by
    unfold RaftNode.handle
    dsimp only
    rw [hr]
    dsimp only
    rw [← hr, htrigger]
    rfl
  -- What is left as it was.
  have hnode : n₂.node = (n.node.setStorage { n.node.storage with snapshot := snap }).setStorage s' := by
    rw [hn₂, hn₁]
    rfl
  have hstorage : (n₂.advance rd).node.storage = s' := by
    show (n₂.node.advance rd).storage = s'
    rw [RawNode.advance_storage, hnode]
    rfl
  have happlied₂ : n₂.appliedIndex = n.appliedIndex := by
    rw [hn₂, hn₁]
    rfl
  have hsnapshot : s'.snapshot = snap := hsnap'
  refine ⟨_, hhandle, ⟨hsound, ?_, ?_, ?_, ?_, ?_, ?_, fun _ => ?_, fun h => absurd rfl h⟩, rfl, hid,
    happlied₂, ?_, ?_, ?_, ?_, ?_, fun i hi => ?_⟩
  · show ∀ s ∈ (n₂.node.advance rd).raft.raftLog.unstable.snapshot, s.IsOf F committed
    rw [hnode, RawNode.setStorage_advance, RawNode.setStorage_advance]
    exact hpending
  · show n₂.appliedIndex ≤ (n₂.node.advance rd).raft.raftLog.applied
    rw [happlied₂, hcursor]
    exact happ
  · show n₂.snapCount = _
    rw [hn₂, hn₁]
    exact hn.snapCount
  · rw [hstorage, hsnapshot, hindex, hn₂]
    rfl
  · rw [hstorage, hdummy', hn₂]
    exact hbelow
  · show n₂.snapshotIndex ≤ n₂.appliedIndex
    rw [happlied₂, hn₂]
  · show n₂.appliedIndex ≤ n₂.snapshotIndex + _
    rw [happlied₂, hn₂]
    exact Nat.le_add_right _ _
  · show n₂.calls.filterMap Call.task = []
    rw [hn₂, hn₁]
    rfl
  · rw [hstorage, hsnapshot]
    exact hindex
  · rw [hstorage, hsnapshot]
    exact hterm
  · rw [hstorage, hsnapshot]
    exact hdata
  · rw [hstorage, hsnapshot]
    show Call.saveSnap snap ∈ n₂.calls
    rw [hn₂, hn₁]
    exact List.mem_cons_of_mem _ List.mem_cons_self
  · rw [hstorage]
    exact hkeeps i (Nat.lt_of_le_of_lt hbelow hi)

/-- The cursors do not depend on what the thread did last. -/
theorem Placed.of_calls (hn : n.Placed F committed) (calls : List Call) :
    ({ n with calls := calls } : RaftNode).Placed F committed :=
  ⟨hn.host, hn.pending, hn.applied_le, hn.snapCount, hn.snapshot, hn.dummy_le, hn.snapshot_le, hn.idle,
    hn.waiting⟩

/-- A node that was just started. -/
theorem Started.placed {disk : Disk} {id : ℕ} {data : Bytes} (h : Started F disk id n data) :
    n.Placed F committed := by
  have hset := settled_of_none h.ready
  refine ⟨h.sound.host, ?_, Nat.le_of_eq h.sound.applied, h.snapCount, ?_, ?_, ?_, fun _ => ?_,
    fun hne => absurd h.ready hne⟩
  · rw [hset, h.pending]
    exact nofun
  · rw [h.snapshot, h.snapshotIndex]
  · rw [h.dummy, h.snapshotIndex]
  · rw [h.snapshotIndex, h.applied]
  · rw [h.snapshotIndex, h.applied]
    exact Nat.le_add_right _ _

end RaftNode

/-! ## The server -/

/-- The contract of the peers: the entries of an append message follow its index. -/
def ServerEvent.Consecutive : ServerEvent → Prop
  | .process m => m.Consecutive
  | _ => True

instance (e : ServerEvent) : Decidable e.Consecutive :=
  match e with
  | .process m => inferInstanceAs (Decidable m.Consecutive)
  | .tick | .pull | .propose | .resume | .set _ _ _ | .del _ _ | .task => .isTrue trivial

/-- The snapshot that a message brings. -/
def ServerEvent.received : ServerEvent → Option Snapshot
  | .process m => if m.type = .msgSnap then some m.snapshot else none
  | _ => none

namespace Server

variable {F : Formats} {committed : ℕ → Entry} {s s' : Server} {e : ServerEvent}

/-- What the node learns in a step is of the log that the cluster has committed: the entries that are handed
out, and the snapshots of other nodes. -/
structure Agrees (F : Formats) (committed : ℕ → Entry) (t : Turn Server ServerEvent) : Prop where
  /-- The entries. -/
  entries : t.event = .pull → ∀ rd ∈ t.before.node.taken .pull, ∀ e ∈ rd.committedEntries,
    committed e.index = e
  /-- The snapshots. -/
  snapshots : ∀ snap ∈ t.event.received, snap.IsOf F committed

/-- The parts of a server fit together. -/
structure Sound (F : Formats) (committed : ℕ → Entry) (s : Server) : Prop where
  /-- The node. -/
  node : s.node.Placed F committed
  /-- Once the tasks have run, the store has the map of what the node has applied. -/
  map : drain F s.tasks (contentsOf s.store.keyValues) = contents F committed s.node.appliedIndex
  /-- As long as the node does not wait, no snapshot is asked for. -/
  idle : s.node.ready = none → StoreTask.getSnapshot ∉ s.tasks ∧ s.promise = none
  /-- Otherwise the task of the snapshot is the last one, or it has run, and nothing was posted since. -/
  waiting : s.node.ready ≠ none →
    (∃ ts, s.tasks = ts ++ [.getSnapshot] ∧ StoreTask.getSnapshot ∉ ts ∧ s.promise = none) ∨
      (s.tasks = [] ∧ ∃ kv, s.promise = some (F.keyValues.pack kv) ∧
        contentsOf kv = contents F committed s.node.appliedIndex)

/-- Calls are posted as their tasks. A proposal's callback posts a task that changes no key. -/
structure Faithful (F : Formats) (post : Call → Option StoreTask) : Prop where
  /-- A call that has a task posts it. -/
  task : ∀ c t, c.task = some t → post c = some t
  /-- Another one posts nothing that matters. -/
  other : ∀ c t, c.task = none → post c = some t → t ≠ .getSnapshot ∧ ∀ m, t.applyTo F m = m

/-- The tasks of the calls themselves. -/
theorem faithful_task : Faithful F Call.task where
  task _ _ h := h
  other c t h h' := by
    rw [h] at h'
    cases h'

/-- The tasks of the calls for a proposal. -/
theorem faithful_proposal (p : Proposal) : Faithful F p.task where
  task c t h := by
    cases c with
    | callback status => cases h
    | _ => exact h
  other c t h h' := by
    cases c with
    | callback status =>
      cases h'
      unfold Proposal.proposed
      cases p.kind with
      | set => exact ⟨nofun, fun _ => rfl⟩
      | del => exact ⟨nofun, fun _ => rfl⟩
    | readCommit _ | recoverFromSnapshot _ | getSnapshot => cases h
    | save _ _ | saveSnapshot _ | saveSnap _ | send _ | applyConfChange _ => cases h'

/-- What is posted does what the tasks do. -/
theorem Faithful.drain {post : Call → Option StoreTask} (h : Faithful F post) (calls : List Call)
    (m : Contents) : drain F (calls.filterMap post) m = drain F (calls.filterMap Call.task) m := by
  induction calls generalizing m with
  | nil => rfl
  | cons c calls ih =>
    cases hc : c.task with
    | some t =>
      rw [List.filterMap_cons_some hc, List.filterMap_cons_some (h.task c t hc)]
      exact ih _
    | none =>
      rw [List.filterMap_cons_none hc]
      cases hpost : post c with
      | none =>
        rw [List.filterMap_cons_none hpost]
        exact ih m
      | some t =>
        rw [List.filterMap_cons_some hpost, ← ih m]
        show RaftCpp.drain F _ (t.applyTo F m) = _
        rw [(h.other c t hc hpost).2 m]

/-- It asks for a snapshot only where a call does. -/
theorem Faithful.mem {post : Call → Option StoreTask} (h : Faithful F post) {calls : List Call}
    (hnot : StoreTask.getSnapshot ∉ calls.filterMap Call.task) :
    StoreTask.getSnapshot ∉ calls.filterMap post := by
  intro hmem
  obtain ⟨c, hc, hpost⟩ := List.mem_filterMap.mp hmem
  cases htask : c.task with
  | some t =>
    have heq := h.task c t htask
    rw [hpost] at heq
    cases heq
    exact hnot (List.mem_filterMap.mpr ⟨c, hc, htask⟩)
  | none => exact (h.other c _ htask hpost).1 rfl

/-- A step of the node's thread between the turns of the loop. -/
theorem Sound.turned (hs : s.Sound F committed) (hready : s.node.ready = none) {n : RaftNode}
    (hn : RaftNode.Turned F committed s.node n) {post : Call → Option StoreTask} (hpost : Faithful F post)
    (hgetSnapshot : post .getSnapshot = some .getSnapshot) :
    ({ s with node := n, tasks := s.tasks ++ n.calls.filterMap post } : Server).Sound F committed := by
  obtain ⟨hnot, hpromise⟩ := hs.idle hready
  obtain ⟨calls, hcalls, hposts⟩ := hn.posts
  have hmap : drain F (s.tasks ++ calls.filterMap post) (contentsOf s.store.keyValues) =
      contents F committed n.appliedIndex := by
    rw [drain_append, hs.map, hpost.drain, hposts.drain]
  have hfree : StoreTask.getSnapshot ∉ s.tasks ++ calls.filterMap post := by
    rw [List.mem_append]
    exact fun hmem => hmem.elim hnot (hpost.mem hposts.noSnapshot)
  refine ⟨hn.placed, ?_, fun hnone => ⟨?_, hpromise⟩, fun hne => Or.inl ⟨s.tasks ++ calls.filterMap post, ?_,
    hfree, hpromise⟩⟩
  · show drain F (s.tasks ++ n.calls.filterMap post) _ = _
    rw [hcalls, List.filterMap_append, ← List.append_assoc, drain_append, hmap]
    split_ifs
    · rw [List.filterMap_cons_some hgetSnapshot]
      rfl
    · rfl
  · show StoreTask.getSnapshot ∉ s.tasks ++ n.calls.filterMap post
    rw [hcalls, show n.ready = none from hnone]
    simpa using hfree
  · show s.tasks ++ n.calls.filterMap post = _
    have hsome : n.ready.isSome = true := Option.isSome_iff_ne_none.mpr hne
    rw [hcalls, if_pos hsome, List.filterMap_append, List.filterMap_cons_some hgetSnapshot, List.append_assoc]
    rfl

/-- A step of the node's thread for which it does not stop waiting. -/
theorem Sound.onNode (hs : s.Sound F committed) {e : RaftNodeEvent} {post : Call → Option StoreTask}
    (hcons : e.Consecutive) (hpost : Faithful F post)
    (hgetSnapshot : post .getSnapshot = some .getSnapshot)
    (hof : ∀ m, e = .process m → m.type = .msgSnap → m.snapshot.IsOf F committed)
    (hcom : ∀ rd ∈ s.node.taken e, ∀ e ∈ rd.committedEntries, committed e.index = e)
    (hdata : ∀ data, e ≠ .snapshotData data) :
    Ensures (s.onNode F e post) (Sound F committed) := by
  unfold Server.onNode
  cases hr : s.node.ready with
  | none =>
    refine Ensures.bind (hs.node.handle_idle hr hcons hof hcom) fun n hn => Ensures.pure ?_
    exact hs.turned hr hn hpost hgetSnapshot
  | some rd =>
    -- The node waits, and nothing happens.
    have hsame : s.node.handle F e = .ok { s.node with calls := [] } := by
      unfold RaftNode.handle
      dsimp only
      rw [hr]
      cases e with
      | snapshotData data => exact absurd rfl (hdata data)
      | _ => rfl
    rw [hsame]
    refine Ensures.pure ⟨hs.node.of_calls [], ?_, ?_, ?_⟩
    · show RaftCpp.drain F (s.tasks ++ []) _ = _
      rw [List.append_nil]
      exact hs.map
    · intro hnone
      rw [show s.node.ready = none from hnone] at hr
      cases hr
    · intro hne
      show (∃ ts, s.tasks ++ [] = _ ∧ _) ∨ s.tasks ++ [] = [] ∧ _
      rw [List.append_nil]
      exact hs.waiting hne

/-- The store comes to the next task. -/
theorem Sound.runTask (hs : s.Sound F committed) : Ensures (s.runTask F) (Sound F committed) := by
  unfold Server.runTask
  cases htasks : s.tasks with
  | nil => exact Ensures.ok hs
  | cons t ts =>
    refine Ensures.bind (RedisStore.run_spec s.node.id s.store t) ?_
    rintro ⟨replies, data, store⟩ ⟨hkv, hdata⟩
    dsimp only at hkv hdata
    have hmap : drain F ts (contentsOf store.keyValues) = contents F committed s.node.appliedIndex := by
      rw [hkv, ← hs.map, htasks]
      rfl
    refine Ensures.pure ⟨hs.node, hmap, ?_, ?_⟩
    · intro hnone
      obtain ⟨hnot, hpromise⟩ := hs.idle hnone
      rw [htasks, List.mem_cons, not_or] at hnot
      refine ⟨hnot.2, ?_⟩
      show data.or s.promise = none
      rw [hdata, if_neg (Ne.symm hnot.1), hpromise]
      rfl
    · intro hne
      obtain ⟨us, hus, hnot, hpromise⟩ | ⟨hnil, -⟩ := hs.waiting hne
      · rw [htasks] at hus
        cases us with
        | nil =>
          -- The task is the one of the snapshot, and the store has run all others.
          cases hus
          have hall := hs.map
          rw [htasks] at hall
          refine Or.inr ⟨rfl, s.store.keyValues, ?_, hall⟩
          show data.or s.promise = _
          rw [hdata, if_pos rfl]
          rfl
        | cons u us =>
          obtain ⟨rfl, rfl⟩ := List.cons.inj hus
          rw [List.mem_cons, not_or] at hnot
          refine Or.inl ⟨us, rfl, hnot.2, ?_⟩
          show data.or s.promise = none
          rw [hdata, if_neg (Ne.symm hnot.1), hpromise]
          rfl
      · rw [htasks] at hnil
        cases hnil

/-- The node goes on with the promised data: they are the map of what it has applied, and it stores them. -/
theorem Sound.resume (hs : s.Sound F committed) {data : Bytes} (hp : s.promise = some data) :
    (∃ kv, data = F.keyValues.pack kv ∧ contentsOf kv = contents F committed s.node.appliedIndex) ∧
      ∃ s', s.handle F .resume = .ok s' ∧ s'.Sound F committed ∧
        RaftNode.Stored committed data s.node s'.node := by
  cases hr : s.node.ready with
  | none =>
    rw [(hs.idle hr).2] at hp
    cases hp
  | some rd =>
    obtain ⟨us, -, -, hpromise⟩ | ⟨hnil, kv, hkv, hmap⟩ := hs.waiting (by rw [hr]; exact nofun)
    · rw [hpromise] at hp
      cases hp
    obtain rfl : F.keyValues.pack kv = data := Option.some.inj (hkv.symm.trans hp)
    obtain ⟨n, hn, hplaced, hready, -, happlied, hcalls, hstored⟩ :=
      hs.node.handle_snapshotData hr (F.keyValues.pack kv)
    refine ⟨⟨kv, rfl, hmap⟩, ⟨n, s.store, s.tasks ++ n.calls.filterMap Call.task, s.proposals, none, []⟩, ?_,
      ⟨hplaced, ?_, fun _ => ⟨?_, rfl⟩, fun hne => absurd hready hne⟩, hstored⟩
    · unfold Server.handle
      dsimp only
      rw [hp]
      dsimp only
      unfold Server.onNode
      rw [hn]
      rfl
    · show drain F (s.tasks ++ n.calls.filterMap Call.task) _ = contents F committed n.appliedIndex
      rw [hcalls, List.append_nil, happlied]
      exact hs.map
    · show _ ∉ s.tasks ++ n.calls.filterMap Call.task
      rw [hcalls, hnil]
      exact List.not_mem_nil

/-- A step of a server in which the parts fit together. -/
theorem Sound.handle (hs : s.Sound F committed) (hcons : e.Consecutive)
    (hagrees : Agrees F committed ⟨s, e, s'⟩) :
    Ensures (s.handle F e) (Sound F committed) := by
  have hfrom : Sound F committed { s with replies := [] } := ⟨hs.node, hs.map, hs.idle, hs.waiting⟩
  have hnone : ∀ e' : RaftNodeEvent, e' ≠ .pull → ∀ rd ∈ s.node.taken e', ∀ e ∈ rd.committedEntries,
      committed e.index = e := by
    intro e' hne rd hrd
    exact absurd (RaftNode.ready_of_taken hrd).1 hne
  unfold Server.handle
  dsimp only
  cases e with
  | tick =>
    exact hfrom.onNode trivial faithful_task rfl nofun (hnone _ nofun) nofun
  | process m =>
    refine hfrom.onNode hcons faithful_task rfl ?_ (hnone _ nofun) nofun
    rintro _ ⟨⟩ htype
    exact hagrees.snapshots _ (if_pos htype)
  | pull => exact hfrom.onNode trivial faithful_task rfl nofun (hagrees.entries rfl) nofun
  | propose =>
    cases hr : s.node.ready with
    | some rd => exact Ensures.ok hfrom
    | none =>
      cases hp : s.proposals with
      | nil =>
        rw [hp] at hfrom
        exact Ensures.ok hfrom
      | cons p ps =>
        have hleft : Sound F committed { s with proposals := ps, replies := [] } :=
          ⟨hs.node, hs.map, hs.idle, hs.waiting⟩
        exact hleft.onNode trivial (faithful_proposal p) rfl nofun (hnone _ nofun) nofun
  | resume =>
    intro s₁ hs₁
    cases hp : s.promise with
    | none =>
      rw [hp] at hs₁ hfrom
      cases hs₁
      exact hfrom
    | some data =>
      obtain ⟨-, s₂, hs₂, hsound, -⟩ := hs.resume hp
      cases hs₂.symm.trans hs₁
      exact hsound
  | set key value callback => exact Ensures.ok ⟨hs.node, hs.map, hs.idle, hs.waiting⟩
  | del keys callback => exact Ensures.ok ⟨hs.node, hs.map, hs.idle, hs.waiting⟩
  | task => exact hfrom.runTask

/-- A server that was just started without files. -/
theorem start_sound {id peers : ℕ} {device : RandomDevice} (h : start F id peers device {} = .ok s) :
    s.Sound F committed := by
  unfold start at h
  obtain ⟨⟨n, data⟩, hn, h⟩ := bind_eq_ok.mp h
  obtain ⟨store, hstore, h⟩ := bind_eq_ok.mp h
  cases h
  have hstarted := RaftNode.start_spec hn
  have hempty : RaftNode.loadedSnapshot F {} = {} := rfl
  -- There are no data to start from.
  have hdata : data = [] := hstarted.data.elim (fun h => h.trans (by rw [hempty])) fun h => h
  subst hdata
  cases hstore
  refine ⟨hstarted.placed, ?_, fun _ => ⟨List.not_mem_nil, rfl⟩, fun hne => absurd hstarted.ready hne⟩
  show contentsOf ∅ = contents F committed n.appliedIndex
  rw [hstarted.applied, hempty]
  rfl

end Server

/-! ## Runs from the start -/

section Runs

variable {F : Formats} {committed : ℕ → Entry} {id peers : ℕ} {device : RandomDevice} {s₀ s : Server}
  {ts : List (Turn Server ServerEvent)}

/-- The snapshots that a server takes in a run are those of what it has applied, and none of them fails. -/
structure SnapshotsExact (F : Formats) (committed : ℕ → Entry) (ts : List (Turn Server ServerEvent))
    (s : Server) : Prop where
  /-- What the node stores once it has the data. -/
  stored : ∀ t ∈ ts, t.event = .resume → ∀ data ∈ t.before.promise,
    RaftNode.Stored committed data t.before.node t.after.node
  /-- The data are those of the map that the entries up to the index of the snapshot make. -/
  data : ∀ t ∈ ts, t.event = .resume → ∀ data ∈ t.before.promise, ∃ kv, data = F.keyValues.pack kv ∧
    contentsOf kv = contents F committed t.before.node.appliedIndex
  /-- The node does not stop at the data that it waits for. -/
  proceeds : ∀ data ∈ s.promise, ∃ s', s.handle F .resume = .ok s'

/-- The entry that a run hands out at an index. -/
def handedOutAt (ts : List (Turn Server ServerEvent)) (i : ℕ) : Entry :=
  ((ts.flatMap fun t => (t.before.node.taken .pull).elim [] Ready.committedEntries).find? fun e =>
    e.index = i).getD {}

/-- A command of the leader, and then a request of a client. -/
def commandThenRequest : List ServerEvent :=
  let command : RaftCommit :=
    { nodeId := 2, commitId := 0, redisData := { type := kCommitSet, strs := [[107], [118]] } }
  [.pull, .process { type := .msgApp, toId := 1, fromId := 2, term := 1, index := 3, logTerm := 1, entries :=
    [{ term := 1, index := 4, data := msgpackFormats.commit.pack command }], commit := 4 }, .pull, .task,
    .del [[107]] 7, .propose, .task, .tick]

end Runs

end RaftCpp
