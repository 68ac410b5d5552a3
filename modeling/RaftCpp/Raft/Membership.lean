import RaftCpp.Raft.Booting
import RaftCpp.Raft.PlainLog

/-!
# The members of a node

What a node knows of the voters and of the learners after it installed a snapshot, and what it tells its
application of them.
-/

namespace RaftCpp

open Outcome

namespace Raft

variable {r r' : Raft} {nodes : List ℕ} {b : Bool} {node : ℕ} {s : Snapshot}

/-! ## Installing a snapshot -/

/-- The progress that `restore_node` gives to a member: the node itself matches its log. -/
def restoredProgress (r : Raft) (b : Bool) (y : ℕ) : Progress :=
  { Progress.new r.maxInflight with
    next := r.raftLog.lastIndex + 1
    matched := if y = r.id then r.raftLog.lastIndex else 0
    isLearner := b }

/-- What `restore_node` does to the members of a node. -/
structure Restored (r : Raft) (nodes : List ℕ) (b : Bool) (r' : Raft) : Prop where
  /-- The identity stays. -/
  id : r'.id = r.id
  /-- The log stays. -/
  raftLog : r'.raftLog = r.raftLog
  /-- The size of the windows stays. -/
  maxInflight : r'.maxInflight = r.maxInflight
  /-- The voters. -/
  prs : ∀ y, r'.prs.lookup y =
    if b = false ∧ y ∈ nodes then some (r.restoredProgress false y) else r.prs.lookup y
  /-- The learners. -/
  learnerPrs : ∀ y, r'.learnerPrs.lookup y =
    if y ∈ nodes then (if b then some (r.restoredProgress true y) else none)
    else r.learnerPrs.lookup y

/-- One round of `restore_node`, up to its log line. -/
theorem restored_one (hb : b = true → node ∉ r.prs) : ∃ r',
    (if node = r.id then { r with isLearner := b } else r).setProgress node
      (if node = r.id then r.raftLog.lastIndex + 1 - 1 else 0) (r.raftLog.lastIndex + 1) b = .ok r' ∧
      r.Restored [node] b r' := by
  generalize hr : (if node = r.id then { r with isLearner := b } else r) = r₀
  have hframe : r₀.id = r.id ∧ r₀.raftLog = r.raftLog ∧ r₀.maxInflight = r.maxInflight ∧
      r₀.prs = r.prs ∧ r₀.learnerPrs = r.learnerPrs := by
    rw [← hr]
    split_ifs
    · exact ⟨rfl, rfl, rfl, rfl, rfl⟩
    · exact ⟨rfl, rfl, rfl, rfl, rfl⟩
  obtain ⟨hid, hlog, hmax, hprs, hlearnerPrs⟩ := hframe
  unfold setProgress
  cases b with
  | false =>
    rw [if_pos (by simp)]
    refine ⟨_, rfl, hid, hlog, hmax, fun y => ?_, fun y => ?_⟩
    · dsimp only
      rw [AList.lookup_insert_eq, hprs, hmax]
      by_cases hy : y = node
      · rw [if_pos hy, if_pos (show false = false ∧ y ∈ [node] from ⟨rfl, List.mem_singleton.mpr hy⟩), hy]
        rfl
      · rw [if_neg hy, if_neg fun h => hy (List.mem_singleton.mp h.2)]
    · dsimp only
      rw [hlearnerPrs]
      by_cases hy : y = node
      · rw [if_pos (List.mem_singleton.mpr hy), if_neg (by simp), hy, AList.lookup_erase]
      · rw [if_neg fun h => hy (List.mem_singleton.mp h), AList.lookup_erase_ne hy]
  | true =>
    rw [if_neg (by simp), hprs, if_neg (hb rfl)]
    refine ⟨_, rfl, hid, hlog, hmax, fun y => ?_, fun y => ?_⟩
    · exact (if_neg fun h => Bool.noConfusion h.1).symm
    · dsimp only
      rw [AList.lookup_insert_eq, hlearnerPrs, hmax]
      by_cases hy : y = node
      · rw [if_pos hy, if_pos (List.mem_singleton.mpr hy), if_pos rfl, hy]
        rfl
      · rw [if_neg hy, if_neg fun h => hy (List.mem_singleton.mp h)]

/-- Rounds of `restore_node` one after the other. -/
theorem Restored.cons {r₁ : Raft} (h : r.Restored [node] b r₁) (h' : r₁.Restored nodes b r') :
    r.Restored (node :: nodes) b r' := by
  have hprogress : ∀ b, r₁.restoredProgress b = r.restoredProgress b := by
    intro b
    unfold restoredProgress
    rw [h.id, h.raftLog, h.maxInflight]
  constructor
  · exact h'.id.trans h.id
  · exact h'.raftLog.trans h.raftLog
  · exact h'.maxInflight.trans h.maxInflight
  · intro y
    rw [h'.prs, h.prs, hprogress]
    by_cases hy : y ∈ nodes
    · cases b <;> simp [hy]
    · simp [hy]
  · intro y
    rw [h'.learnerPrs, h.learnerPrs, hprogress]
    by_cases hy : y ∈ nodes
    · simp only [hy, List.mem_cons, or_true, if_true]
    · simp [hy]

/-- Whether the node knows a progress of its own. -/
def KnowsItself (r : Raft) : Prop := r.id ∈ r.prs ∨ r.id ∈ r.learnerPrs

/-- A node knows its own progress if and only if `get_progress` finds it. -/
theorem peerProgress_self : (∃ p, r.peerProgress r.id = .ok p) ↔ r.KnowsItself := by
  unfold peerProgress getProgress KnowsItself
  rw [← AList.lookup_isSome, ← AList.lookup_isSome]
  cases r.prs.lookup r.id <;> cases r.learnerPrs.lookup r.id <;> simp

/-- A node that does not know itself reads through a null pointer. -/
theorem peerProgress_of_not (h : ¬r.KnowsItself) : r.peerProgress r.id = .error .nullPointer := by
  unfold KnowsItself at h
  unfold peerProgress getProgress
  rw [← AList.lookup_isSome, ← AList.lookup_isSome] at h
  cases hp : r.prs.lookup r.id <;> cases hl : r.learnerPrs.lookup r.id <;> simp_all

/-- What is a member after `restore_node`. -/
theorem Restored.knowsItself (h : r.Restored nodes b r') :
    r'.KnowsItself ↔ r.KnowsItself ∨ r.id ∈ nodes := by
  unfold KnowsItself
  rw [← AList.lookup_isSome, ← AList.lookup_isSome, ← AList.lookup_isSome, ← AList.lookup_isSome, h.id,
    h.prs, h.learnerPrs]
  by_cases hy : r.id ∈ nodes
  · cases b <;> simp [hy]
  · simp [hy]

/-- A round of `restore_node`, with its log line, and the rounds after it. -/
theorem restoreNode_cons {r₁ : Raft}
    (h : (if node = r.id then { r with isLearner := b } else r).setProgress node
      (if node = r.id then r.raftLog.lastIndex + 1 - 1 else 0) (r.raftLog.lastIndex + 1) b = .ok r₁) :
    r.restoreNode (node :: nodes) b = (do
      let _ ← r₁.peerProgress r₁.id
      r₁.restoreNode nodes b) := by
  unfold restoreNode
  rw [List.foldlM_cons]
  simp only [bind, Except.bind]
  rw [h]
  dsimp only
  cases r₁.peerProgress r₁.id with
  | ok p => rfl
  | error e => rfl

/-- `restore_node` restores the members, if the node knows itself from the first round on. -/
theorem restoreNode_ok (nodes : List ℕ) :
    ∀ {r : Raft}, (b = true → ∀ y ∈ nodes, y ∉ r.prs) →
      (r.KnowsItself ∨ ∀ y ∈ nodes.head?, y = r.id) →
        ∃ r', r.restoreNode nodes b = .ok r' ∧ r.Restored nodes b r' := by
  induction nodes with
  | nil =>
    intro r _ _
    exact ⟨r, rfl, rfl, rfl, rfl, fun y => by simp, fun y => by simp⟩
  | cons node nodes ih =>
    intro r hb hknows
    have hnode : b = true → node ∉ r.prs := fun h => hb h node List.mem_cons_self
    obtain ⟨r₁, hset, hone⟩ := restored_one hnode
    have hknows₁ : r₁.KnowsItself := by
      rw [hone.knowsItself, List.mem_singleton]
      obtain hknows | hhead := hknows
      · exact Or.inl hknows
      · exact Or.inr (hhead node rfl).symm
    obtain ⟨p, hp⟩ := peerProgress_self.mpr hknows₁
    have hb₁ : b = true → ∀ y ∈ nodes, y ∉ r₁.prs := by
      intro h y hy
      have hprs := hone.prs y
      rw [if_neg (by simp [h])] at hprs
      rw [← AList.lookup_isSome, hprs, AList.lookup_isSome]
      exact hb h y (List.mem_cons_of_mem _ hy)
    obtain ⟨r', hrest, hrestored⟩ := ih hb₁ (Or.inl hknows₁)
    refine ⟨r', ?_, hone.cons hrestored⟩
    rw [restoreNode_cons hset, hp]
    exact hrest

/-- Otherwise its first log line reads through a null pointer. -/
theorem restoreNode_error (hb : b = true → node ∉ r.prs) (hknows : ¬r.KnowsItself)
    (hnode : node ≠ r.id) : r.restoreNode (node :: nodes) b = .error .nullPointer := by
  obtain ⟨r₁, hset, hone⟩ := restored_one hb
  have hknows₁ : ¬r₁.KnowsItself := by
    rw [hone.knowsItself, List.mem_singleton]
    rintro (h | h)
    · exact hknows h
    · exact hnode h.symm
  rw [restoreNode_cons hset, peerProgress_of_not hknows₁]
  rfl

/-- What a node is after it installed a snapshot. -/
structure Installed (s : Snapshot) (r' : Raft) : Prop where
  /-- It has committed up to the snapshot. -/
  committed : r'.raftLog.committed = s.metadata.index
  /-- Its log ends there. -/
  lastIndex : r'.raftLog.lastIndex = s.metadata.index
  /-- It knows the term there. -/
  term : r'.raftLog.term s.metadata.index = .ok s.metadata.term
  /-- The voters are those of the snapshot. -/
  prs : ∀ y, y ∈ r'.prs ↔ y ∈ s.metadata.confState.nodes
  /-- The learners are those of the snapshot. -/
  learnerPrs : ∀ y, y ∈ r'.learnerPrs ↔ y ∈ s.metadata.confState.learners
  /-- Its own log matches up to the snapshot. -/
  own : ∀ p, r'.getProgress r'.id = some p → p.matched = s.metadata.index
  /-- Of the others it knows nothing yet. -/
  others : ∀ y p, y ≠ r'.id → r'.getProgress y = some p →
    p.matched = 0 ∧ p.next = s.metadata.index + 1

/-- The node that `restore` puts the members into. -/
def emptied (r : Raft) (s : Snapshot) : Raft :=
  { r with raftLog := r.raftLog.restore s, prs := ∅, learnerPrs := ∅ }

/-- The node with the members of the snapshot is one that has installed it. -/
theorem installed_of_restored {r₁ r₂ : Raft}
    (h₁ : (r.emptied s).Restored s.metadata.confState.nodes false r₁)
    (h₂ : r₁.Restored s.metadata.confState.learners true r₂) :
    r₂.id = r.id ∧ Installed s r₂ := by
  have hid : r₂.id = r.id := h₂.id.trans h₁.id
  have hlog : r₂.raftLog = r.raftLog.restore s := h₂.raftLog.trans h₁.raftLog
  have hprogress : ∀ b y,
      ((r.emptied s).restoredProgress b y).matched = (if y = r.id then s.metadata.index else 0) ∧
        ((r.emptied s).restoredProgress b y).next = s.metadata.index + 1 := fun _ _ => ⟨rfl, rfl⟩
  have hprogress₁ : ∀ b y, r₁.restoredProgress b y = (r.emptied s).restoredProgress b y := by
    intro b y
    unfold restoredProgress
    rw [h₁.id, h₁.raftLog, h₁.maxInflight]
  have hempty : ∀ y, (r.emptied s).prs.lookup y = none ∧ (r.emptied s).learnerPrs.lookup y = none :=
    fun y => ⟨AList.lookup_empty y, AList.lookup_empty y⟩
  -- What the two maps hold.
  have hprs : ∀ y, r₂.prs.lookup y = if y ∈ s.metadata.confState.nodes then
      some ((r.emptied s).restoredProgress false y) else none := by
    intro y
    rw [h₂.prs, if_neg fun h => Bool.noConfusion h.1, h₁.prs, (hempty y).1]
    simp only [true_and]
  have hlearnerPrs : ∀ y, r₂.learnerPrs.lookup y = if y ∈ s.metadata.confState.learners then
      some ((r.emptied s).restoredProgress true y) else none := by
    intro y
    rw [h₂.learnerPrs, h₁.learnerPrs, (hempty y).2, hprogress₁]
    simp only [if_true, Bool.false_eq_true, if_false, ite_self]
  have hget : ∀ y p, r₂.getProgress y = some p →
      p.matched = (if y = r.id then s.metadata.index else 0) ∧ p.next = s.metadata.index + 1 := by
    intro y p hp
    unfold getProgress at hp
    rw [hprs, hlearnerPrs] at hp
    by_cases hn : y ∈ s.metadata.confState.nodes
    · rw [if_pos hn] at hp
      cases hp
      exact hprogress false y
    · rw [if_neg hn] at hp
      by_cases hl : y ∈ s.metadata.confState.learners
      · rw [if_pos hl] at hp
        cases hp
        exact hprogress true y
      · rw [if_neg hl] at hp
        cases hp
  constructor
  · exact hid
  constructor
  · rw [hlog]
    rfl
  · rw [hlog]
    rfl
  · rw [hlog]
    unfold RaftLog.term RaftLog.firstIndex RaftLog.lastIndex RaftLog.restore Unstable.restore
      Unstable.maybeFirstIndex Unstable.maybeLastIndex Unstable.maybeTerm
    simp
  · intro y
    rw [← AList.lookup_isSome, hprs]
    split_ifs with h <;> simp [h]
  · intro y
    rw [← AList.lookup_isSome, hlearnerPrs]
    split_ifs with h <;> simp [h]
  · intro p hp
    rw [(hget _ p hp).1, if_pos hid]
  · intro y p hy hp
    rw [hid] at hy
    rw [(hget y p hp).1, if_neg hy]
    exact ⟨rfl, (hget y p hp).2⟩

/-- A node installs a snapshot if and only if the first member in it is the node itself. -/
theorem restore_installs_iff (hindex : r.raftLog.committed < s.metadata.index)
    (hmatch : r.raftLog.matchTerm s.metadata.index s.metadata.term = false)
    (hlearner : ¬(r.isLearner = false ∧ r.id ∈ s.metadata.confState.learners))
    (hdisjoint : s.metadata.confState.nodes.Disjoint s.metadata.confState.learners) :
    (∃ r', r.restore s = .ok (true, r') ∧ r'.id = r.id ∧ Installed s r') ↔
      ∀ y ∈ (s.metadata.confState.nodes ++ s.metadata.confState.learners).head?, y = r.id := by
  have hrestore : r.restore s = (do
      let r ← (r.emptied s).restoreNode s.metadata.confState.nodes false
      let r ← r.restoreNode s.metadata.confState.learners true
      return (true, r)) := by
    unfold restore
    rw [if_neg (by omega), if_neg (by simp [hmatch]), if_neg (by simpa using hlearner)]
    rfl
  have hknows : ¬(r.emptied s).KnowsItself := by
    rintro (h | h)
    · exact AList.notMem_empty _ h
    · exact AList.notMem_empty _ h
  rw [hrestore]
  constructor
  · rintro ⟨r', hr', -⟩ y hy
    by_contra hne
    cases hnodes : s.metadata.confState.nodes with
    | nil =>
      rw [hnodes] at hr' hy
      cases hlearners : s.metadata.confState.learners with
      | nil =>
        rw [hlearners] at hy
        cases hy
      | cons node learners =>
        rw [hlearners] at hr' hy
        cases hy
        have herror : (r.emptied s).restoreNode (y :: learners) true = .error .nullPointer :=
          restoreNode_error (fun _ => AList.notMem_empty _) hknows hne
        have hnil : (r.emptied s).restoreNode [] false = .ok (r.emptied s) := rfl
        rw [hnil] at hr'
        simp only [bind, Except.bind, herror] at hr'
        cases hr'
    | cons node nodes =>
      rw [hnodes] at hr' hy
      cases hy
      have herror : (r.emptied s).restoreNode (y :: nodes) false = .error .nullPointer :=
        restoreNode_error nofun hknows hne
      rw [herror] at hr'
      cases hr'
  · intro hhead
    have hnodes : ∀ y ∈ s.metadata.confState.nodes.head?, y = (r.emptied s).id := by
      intro y hy
      apply hhead y
      rw [List.head?_append, Option.mem_def.mp hy]
      rfl
    obtain ⟨r₁, hok₁, hrestored₁⟩ := restoreNode_ok (b := false) s.metadata.confState.nodes
      (r := r.emptied s) nofun (Or.inr hnodes)
    have hvoters : ∀ y ∈ s.metadata.confState.learners, y ∉ r₁.prs := by
      intro y hy hmem
      rw [← AList.lookup_isSome, hrestored₁.prs] at hmem
      rw [if_neg fun h => hdisjoint h.2 hy] at hmem
      exact AList.notMem_empty _ (AList.lookup_isSome.mp hmem)
    have hknows₁ : r₁.KnowsItself ∨ ∀ y ∈ s.metadata.confState.learners.head?, y = r₁.id := by
      rw [hrestored₁.knowsItself, hrestored₁.id]
      cases hn : s.metadata.confState.nodes with
      | nil =>
        rw [hn] at hhead
        exact Or.inr hhead
      | cons node nodes =>
        have hnode := hnodes node (by rw [hn]; rfl)
        exact Or.inl (Or.inr (hnode ▸ List.mem_cons_self))
    obtain ⟨r₂, hok₂, hrestored₂⟩ := restoreNode_ok (b := true) s.metadata.confState.learners
      (fun _ => hvoters) hknows₁
    refine ⟨r₂, ?_, installed_of_restored hrestored₁ hrestored₂⟩
    rw [hok₁]
    simp only [bind, Except.bind]
    rw [hok₂]
    rfl

/-- The node of a voter that has just started. -/
def newVoter : Raft := (Host.started voterConfig).node.raft

/-- A snapshot of a log that the node does not have, with the members in an order. -/
def snapshotOf (nodes learners : List ℕ) : Snapshot :=
  { metadata := { confState := { nodes := nodes, learners := learners }, index := 5, term := 1 } }

/-- It is a snapshot to install. -/
theorem snapshotOf_installable (nodes : List ℕ) :
    newVoter.raftLog.committed < (snapshotOf nodes []).metadata.index ∧
      newVoter.raftLog.matchTerm (snapshotOf nodes []).metadata.index
        (snapshotOf nodes []).metadata.term = false := by
  constructor
  · show newVoter.raftLog.committed < 5
    decide +kernel
  · show newVoter.raftLog.matchTerm 5 1 = false
    decide +kernel

/-- The first of three voters installs a snapshot with itself in the front. -/
theorem restore_installs_iff_voter :
    (∃ r', newVoter.restore (snapshotOf [1, 2, 3] []) = .ok (true, r') ∧ r'.id = newVoter.id ∧
      Installed (snapshotOf [1, 2, 3] []) r') ↔
      ∀ y ∈ ([1, 2, 3] ++ [] : List ℕ).head?, y = newVoter.id := by
  obtain ⟨hindex, hmatch⟩ := snapshotOf_installable [1, 2, 3]
  exact restore_installs_iff hindex hmatch (fun h => List.not_mem_nil h.2) (List.disjoint_nil_right _)

/-- With another node in the front, it does not. -/
theorem restore_dereferences_null : ¬∀ (r : Raft) (s : Snapshot),
    r.raftLog.committed < s.metadata.index →
      r.raftLog.matchTerm s.metadata.index s.metadata.term = false →
        ¬(r.isLearner = false ∧ r.id ∈ s.metadata.confState.learners) →
          s.metadata.confState.nodes.Nodup → s.metadata.confState.learners.Nodup →
            s.metadata.confState.nodes.Disjoint s.metadata.confState.learners →
              ∃ r', r.restore s = .ok (true, r') ∧ r'.id = r.id ∧ Installed s r' := by
  intro hall
  obtain ⟨hindex, hmatch⟩ := snapshotOf_installable [2, 1, 3]
  obtain ⟨r', hr', -⟩ := hall newVoter (snapshotOf [2, 1, 3] []) hindex hmatch
    (fun h => List.not_mem_nil h.2) (by decide) List.nodup_nil (List.disjoint_nil_right _)
  have hfails : (newVoter.restore (snapshotOf [2, 1, 3] [])).toBool = false := by decide +kernel
  rw [hr'] at hfails
  cases hfails

end Raft

/-! ## Telling the application -/

/-- The maps of a node's members. -/
inductive PeerMap
  | prs
  | learnerPrs
deriving DecidableEq, Repr

/-- An iterator of one of these maps: the map, and how many of its elements come before. -/
structure PeerIterator where
  /-- The map. -/
  map : PeerMap
  /-- The position in it. -/
  pos : ℕ
deriving DecidableEq, Repr

/-- Whether two iterators differ. Iterators of different maps must not be compared. -/
def PeerIterator.ne (it it' : PeerIterator) : Result Bool :=
  if it.map = it'.map then .ok (it.pos != it'.pos) else .error .foreignIterator

namespace Raft

/-- The elements of a map, in the order of the iteration. -/
def peerKeys (r : Raft) : PeerMap → List ℕ
  | .prs => r.prs.keys
  | .learnerPrs => r.learnerPrs.keys

/-- The iterator past the end. -/
def peersEnd (r : Raft) (map : PeerMap) : PeerIterator := { map := map, pos := (r.peerKeys map).length }

/-- The loop of `nodes` and of `learner_nodes`, for at most the given number of elements. -/
def collectPeers (r : Raft) (stop : PeerIterator) : ℕ → PeerIterator → List ℕ → Result (List ℕ)
  | 0, _, _ => .error .outOfFuel
  | fuel + 1, it, ids => do
    if ← it.ne stop then
      let id ← elemAt (r.peerKeys it.map) it.pos
      collectPeers r stop fuel { it with pos := it.pos + 1 } (ids ++ [id])
    else return ids

/-- `nodes`, with its iterators. -/
def nodesIterated (r : Raft) : Result (List ℕ) := do
  let ids ← r.collectPeers (r.peersEnd .prs) (r.prs.keys.length + 1) { map := .prs, pos := 0 } []
  return ids.insertionSort (· ≤ ·)

/-- `learner_nodes`, with its iterators: the loop over the learners ends at the end of the voters. -/
def learnerNodesIterated (r : Raft) : Result (List ℕ) := do
  let ids ← r.collectPeers (r.peersEnd .prs) (r.learnerPrs.keys.length + 1)
    { map := .learnerPrs, pos := 0 } []
  return ids.insertionSort (· ≤ ·)

/-- A loop that ends at the end of its own map collects the rest of the map. -/
theorem collectPeers_own (r : Raft) (map : PeerMap) :
    ∀ (n pos : ℕ) (ids : List ℕ), pos + n = (r.peerKeys map).length →
      r.collectPeers (r.peersEnd map) (n + 1) { map := map, pos := pos } ids =
        .ok (ids ++ (r.peerKeys map).drop pos)
  | 0, pos, ids, h => by
    unfold collectPeers PeerIterator.ne peersEnd
    rw [if_pos rfl, List.drop_of_length_le (by omega), List.append_nil, ← h]
    simp only [Nat.add_zero, bne_self_eq_false, bind, Except.bind]
    rfl
  | n + 1, pos, ids, h => by
    have hlt : pos < (r.peerKeys map).length := by omega
    have hne : (pos != (r.peerKeys map).length) = true := by
      rw [bne_iff_ne]
      omega
    have hrest := collectPeers_own r map n (pos + 1) (ids ++ [(r.peerKeys map)[pos]]) (by omega)
    have hstep : r.collectPeers (r.peersEnd map) (n + 1 + 1) { map := map, pos := pos } ids =
        r.collectPeers (r.peersEnd map) (n + 1) { map := map, pos := pos + 1 }
          (ids ++ [(r.peerKeys map)[pos]]) := by
      simp [collectPeers, PeerIterator.ne, peersEnd, elemAt, hlt, hne, bind, Except.bind]
    rw [hstep, hrest, List.drop_eq_getElem_cons hlt, List.append_assoc]
    rfl

/-- The iterators of `nodes` list the voters. -/
theorem nodesIterated_eq (r : Raft) : r.nodesIterated = .ok r.nodes := by
  unfold nodesIterated
  have hall := r.collectPeers_own .prs r.prs.keys.length 0 [] (Nat.zero_add _)
  rw [hall]
  rfl

/-- Those of `learner_nodes` are compared with an iterator of another map, already before the first
learner. -/
theorem learnerNodesIterated_eq (r : Raft) : r.learnerNodesIterated = .error .foreignIterator := rfl

/-! ## Passing the members on -/

/-- The members of a node are exactly those of a configuration. -/
structure Keyed (cs : ConfState) (r : Raft) : Prop where
  /-- The voters. -/
  prs : ∀ y, y ∈ r.prs ↔ y ∈ cs.nodes
  /-- The learners. -/
  learnerPrs : ∀ y, y ∈ r.learnerPrs ↔ y ∈ cs.learners

/-- A new node has the members that it was started with. -/
theorem new_members (c : Config) : Ensures (Raft.new c) fun r => ∃ cs : ConfState,
    initialMembers c = .ok (cs.nodes, cs.learners) ∧ Keyed cs r := by
  unfold Raft.new
  refine Ensures.bind (P := fun m => initialMembers c = .ok m) (fun _ h => h) ?_
  intro ⟨peers, learners⟩ hmembers
  obtain ⟨prs, hprs, hmem⟩ := addPeers_spec peers (blank c)
  dsimp only
  rw [hprs]
  refine Ensures.bind (addLearners_spec learners _) ?_
  rintro _ ⟨lprs, rfl, hlmem⟩
  -- What follows leaves the members alone.
  have hend : ∀ r : Raft, r.prs = prs → r.learnerPrs = lprs → ∀ t : ℕ,
      Keyed { nodes := peers, learners := learners } (r.becomeFollower t 0) := by
    rintro r rfl rfl t
    constructor
    · intro y
      refine (mem_reset_prs r t y).trans ((hmem y).trans ?_)
      simp [blank]
    · intro y
      refine (mem_reset_learnerPrs r t y).trans ((hlmem y).trans ?_)
      simp [blank]
  have hdone : ∀ r : Raft, r.prs = prs → r.learnerPrs = lprs → ∃ cs : ConfState,
      initialMembers c = .ok (cs.nodes, cs.learners) ∧ Keyed cs
        ((if c.applied > 0 then { r with raftLog := r.raftLog.appliedTo c.applied } else r).becomeFollower
          (if c.applied > 0 then { r with raftLog := r.raftLog.appliedTo c.applied } else r).term 0) := by
    intro r hr hl
    refine ⟨{ nodes := peers, learners := learners }, hmembers, hend _ ?_ ?_ _⟩
    · split_ifs <;> exact hr
    · split_ifs <;> exact hl
  refine Ensures.ite (fun _ => ?_) fun _ => ?_
  · refine Ensures.bind (loadState_spec _ _) ?_
    rintro r ⟨rfl, -⟩
    exact Ensures.pure (hdone _ rfl rfl)
  · refine Ensures.bind (Ensures.pure rfl) ?_
    rintro r rfl
    exact Ensures.pure (hdone _ rfl rfl)

/-- A node that is started from a snapshot alone has its members. -/
theorem new_keyed {c : Config} (hpeers : c.peers = []) (hlearners : c.learners = []) :
    Ensures (Raft.new c) (Keyed c.storage.snapshot.metadata.confState) := by
  refine (new_members c).mono ?_
  rintro r ⟨cs, hmembers, hkeyed⟩
  have hcs : initialMembers c = .ok (c.storage.snapshot.metadata.confState.nodes,
      c.storage.snapshot.metadata.confState.learners) := by
    unfold initialMembers MemoryStorage.initialState
    dsimp only
    by_cases hempty : c.storage.snapshot.metadata.confState.nodes ≠ [] ∨
        c.storage.snapshot.metadata.confState.learners ≠ []
    · rw [if_pos hempty, if_neg (by simp [hpeers, hlearners])]
    · obtain ⟨hn, hl⟩ := not_or.mp hempty
      rw [if_neg hempty, not_not.mp hn, not_not.mp hl, hpeers, hlearners]
  rw [hcs] at hmembers
  obtain ⟨hnodes, hlearners⟩ := Prod.mk.inj (Except.ok.inj hmembers)
  constructor
  · rw [hnodes]
    exact hkeyed.prs
  · rw [hlearners]
    exact hkeyed.learnerPrs

/-- Whatever `restore_node` makes of the members, it restores them. -/
theorem restoreNode_restored (nodes : List ℕ) (b : Bool) :
    ∀ r : Raft, Ensures (r.restoreNode nodes b) (r.Restored nodes b) := by
  induction nodes with
  | nil => exact fun r => Ensures.ok ⟨rfl, rfl, rfl, fun y => by simp, fun y => by simp⟩
  | cons node nodes ih =>
    intro r
    by_cases hb : b = true → node ∉ r.prs
    · obtain ⟨r₁, hset, hone⟩ := restored_one hb
      rw [restoreNode_cons hset]
      exact Ensures.bind Ensures.any fun _ _ => (ih r₁).mono fun _ h => hone.cons h
    · obtain ⟨rfl, hmem⟩ : b = true ∧ node ∈ r.prs := by simpa using hb
      unfold restoreNode
      rw [List.foldlM_cons]
      refine Ensures.bind (P := fun _ => False) ?_ fun _ h => h.elim
      refine Ensures.bind (P := fun _ => False) ?_ fun _ h => h.elim
      unfold setProgress
      rw [if_neg (by simp), if_pos (by split_ifs <;> exact hmem)]
      exact Ensures.error

/-- A node that accepts a snapshot has its members. -/
theorem restore_keyed (r : Raft) (s : Snapshot) : Ensures (r.restore s) fun p =>
    p.1 = true → Keyed s.metadata.confState p.2 := by
  unfold restore
  refine Ensures.ite (fun _ => Ensures.ok nofun) fun _ => ?_
  refine Ensures.ite (fun _ => Ensures.bind Ensures.any fun _ _ => Ensures.pure nofun) fun _ => ?_
  refine Ensures.ite (fun _ => Ensures.ok nofun) fun _ => ?_
  refine Ensures.bind (restoreNode_restored _ _ _) fun r₁ h₁ => ?_
  refine Ensures.bind (restoreNode_restored _ _ _) fun r₂ h₂ => Ensures.pure fun _ => ?_
  obtain ⟨-, hinstalled⟩ := installed_of_restored h₁ h₂
  exact ⟨hinstalled.prs, hinstalled.learnerPrs⟩

end Raft

namespace RawNode

variable {n n' : RawNode} {cc : ConfChange} {cs : ConfState}

/-- `apply_conf_change`, with the iterators of `nodes` and of `learner_nodes`. -/
def applyConfChangeIterated (n : RawNode) (cc : ConfChange) : Result (ConfState × RawNode) := do
  let (_, n) ← n.applyConfChange cc
  let nodes ← n.raft.nodesIterated
  let learners ← n.raft.learnerNodesIterated
  return ({ nodes := nodes, learners := learners }, n)

/-- What a configuration is to carry: the members of a node, each once, to the nodes that start from a
snapshot with it and to those that install one. -/
structure Carries (n : RawNode) (cs : ConfState) : Prop where
  /-- It has the members of the node. -/
  keyed : Raft.Keyed cs n.raft
  /-- No voter comes twice. -/
  nodes : cs.nodes.Nodup
  /-- No learner comes twice. -/
  learners : cs.learners.Nodup
  /-- A node that starts from it has these members. -/
  starts : ∀ c : Config, c.peers = [] → c.learners = [] →
    c.storage.snapshot.metadata.confState = cs → ∀ r, Raft.new c = .ok r → Raft.Keyed cs r
  /-- A node that installs it has these members. -/
  installs : ∀ (r : Raft) (s : Snapshot), s.metadata.confState = cs →
    ∀ r', r.restore s = .ok (true, r') → Raft.Keyed cs r'

/-- What a change returns is read from the node that it leaves. -/
theorem applyConfChange_told (n : RawNode) (cc : ConfChange) :
    Ensures (n.applyConfChange cc) fun p =>
      p.1 = { nodes := p.2.raft.nodes, learners := p.2.raft.learnerNodes } := by
  unfold applyConfChange
  split_ifs
  all_goals exact Ensures.bind Ensures.any fun _ _ => Ensures.pure rfl

/-- If the loop of `learner_nodes` ended at the end of the learners, every change would return the
members. -/
theorem carries_of_applyConfChange (h : n.applyConfChange cc = .ok (cs, n')) : n'.Carries cs := by
  have htold : cs = { nodes := n'.raft.nodes, learners := n'.raft.learnerNodes } :=
    applyConfChange_told n cc (cs, n') h
  constructor
  · constructor
    · intro y
      rw [htold]
      exact (List.mem_insertionSort (· ≤ ·)).symm
    · intro y
      rw [htold]
      exact (List.mem_insertionSort (· ≤ ·)).symm
  · rw [htold]
    exact (List.perm_insertionSort (· ≤ ·) n'.raft.prs.keys).nodup_iff.mpr n'.raft.prs.nodupKeys
  · rw [htold]
    exact (List.perm_insertionSort (· ≤ ·) n'.raft.learnerPrs.keys).nodup_iff.mpr
      n'.raft.learnerPrs.nodupKeys
  · rintro c hpeers hlearners hcs r' hr'
    rw [← hcs]
    exact Raft.new_keyed hpeers hlearners r' hr'
  · rintro r' s hs r'' hr''
    rw [← hs]
    exact Raft.restore_keyed r' s (true, r'') hr'' rfl

/-- As it is, no change ever returns them: the loop compares with an iterator of the voters. -/
theorem carries_never (n : RawNode) (cc : ConfChange) :
    (¬∃ cs n', n.applyConfChangeIterated cc = .ok (cs, n') ∧ n'.Carries cs) ∧
      ∀ cs n', n.applyConfChange cc = .ok (cs, n') →
        n.applyConfChangeIterated cc = .error .foreignIterator := by
  have herror : ∀ cs n', n.applyConfChange cc = .ok (cs, n') →
      n.applyConfChangeIterated cc = .error .foreignIterator := by
    intro cs n' h
    unfold applyConfChangeIterated
    rw [h]
    simp only [bind, Except.bind, Raft.nodesIterated_eq, Raft.learnerNodesIterated_eq]
  constructor
  · rintro ⟨cs, n', h, -⟩
    have hiterated := h
    unfold applyConfChangeIterated at hiterated
    obtain ⟨⟨cs', n''⟩, hchange, -⟩ := bind_eq_ok.mp hiterated
    rw [herror cs' n'' hchange] at h
    cases h
  · exact herror

/-- Asked for its members by the empty change, the first of three voters does not tell them. -/
theorem carries_fails : ¬∀ (n : RawNode) (cc : ConfChange),
    ∃ cs n', n.applyConfChangeIterated cc = .ok (cs, n') ∧ n'.Carries cs := by
  intro hall
  obtain ⟨cs, n', h, -⟩ := hall (Host.started voterConfig).node {}
  have hfails : ((Host.started voterConfig).node.applyConfChangeIterated {}).toBool = false := by
    decide +kernel
  rw [h] at hfails
  cases hfails

end RawNode

end RaftCpp
