import RaftCpp.Raft.Rounds

/-!
# The start of a node

Both constructors of a node start it over a storage whose parts fit together: with the log of the storage,
the commit index of its hard state, and the membership of its snapshot or of the configuration.
-/

namespace RaftCpp

open Outcome

/-- A valid configuration has an identity, and only its defaults are filled in. -/
theorem Config.validate_spec {c c' : Config} (h : c.validate = (.ok, c')) :
    c.id ≠ 0 ∧ ∃ a b, c' =
      { c with maxUncommittedEntriesSize := a, maxCommittedSizePerReady := b } := by
  have hfill : ∃ a, (if c.maxUncommittedEntriesSize = 0 then
      { c with maxUncommittedEntriesSize := 2^64 - 1 } else c) =
        { c with maxUncommittedEntriesSize := a } := by
    split
    · exact ⟨_, rfl⟩
    · exact ⟨c.maxUncommittedEntriesSize, rfl⟩
  have hfill' : ∀ c : Config, ∃ b, (if c.maxCommittedSizePerReady = 0 then
      { c with maxCommittedSizePerReady := c.maxSizePerMsg } else c) =
        { c with maxCommittedSizePerReady := b } := by
    intro c
    split
    · exact ⟨_, rfl⟩
    · exact ⟨c.maxCommittedSizePerReady, rfl⟩
  obtain ⟨a, ha⟩ := hfill
  obtain ⟨b, hb⟩ := hfill' { c with maxUncommittedEntriesSize := a }
  unfold validate at h
  simp only [ha, hb] at h
  split_ifs at h with hid
  all_goals try cases (congrArg Prod.fst h)
  exact ⟨hid, a, b, (congrArg Prod.snd h).symm⟩

namespace Raft

/-- The constructor's loop over the voters adds them. -/
theorem addPeers_spec (peers : List ℕ) (r : Raft) :
    ∃ prs, r.addPeers peers = { r with prs := prs } ∧ ∀ y, y ∈ prs ↔ y ∈ r.prs ∨ y ∈ peers := by
  induction peers generalizing r with
  | nil => exact ⟨r.prs, rfl, fun y => by simp⟩
  | cons p ps ih =>
    obtain ⟨prs, hprs, hmem⟩ :=
      ih { r with prs := r.prs.insert p { Progress.new r.maxInflight with next := 1 } }
    refine ⟨prs, hprs, fun y => ?_⟩
    rw [hmem, AList.mem_insert, List.mem_cons]
    tauto

/-- The constructor's loop over the learners adds them, and notes whether the node is one. -/
theorem addLearners_spec (learners : List ℕ) (r : Raft) :
    Ensures (r.addLearners learners) fun r' => ∃ prs, r' = { r with
        learnerPrs := prs, isLearner := r.isLearner || decide (r.id ∈ learners) } ∧
      ∀ y, y ∈ prs ↔ y ∈ r.learnerPrs ∨ y ∈ learners := by
  induction learners generalizing r with
  | nil => exact Ensures.pure ⟨r.learnerPrs, by simp, fun y => by simp⟩
  | cons l ls ih =>
    unfold addLearners
    rw [List.foldlM_cons]
    refine Ensures.bind (P := fun r' => ∃ prs, r' = { r with
      learnerPrs := prs, isLearner := r.isLearner || r.id == l } ∧
        ∀ y, y ∈ prs ↔ y = l ∨ y ∈ r.learnerPrs) ?_ ?_
    · exact Ensures.ite (fun _ => Ensures.error)
        fun _ => Ensures.ok ⟨_, rfl, fun y => AList.mem_insert _⟩
    · rintro _ ⟨prs, rfl, hmem⟩
      refine (ih _).mono ?_
      rintro _ ⟨prs', rfl, hmem'⟩
      refine ⟨prs', ?_, fun y => ?_⟩
      · simp [Bool.or_assoc, Bool.beq_eq_decide_eq]
      · rw [hmem', List.mem_cons]
        have hone : y ∈ prs ↔ y = l ∨ y ∈ r.learnerPrs := hmem y
        tauto

/-- A reset keeps the learners. -/
theorem mem_reset_learnerPrs (r : Raft) (t y : ℕ) : y ∈ (r.reset t).learnerPrs ↔ y ∈ r.learnerPrs := by
  simp only [reset, AList.mem_mapVal]
  split <;> rfl

end Raft

/-- The entries of a bootstrap carry their indices and the first term. -/
theorem RawNode.bootstrapEntries_spec (serialize : ConfChange → Bytes) :
    ∀ (i : ℕ) (peers : List (ℕ × Bytes)),
      IndexedFrom (i + 1) (RawNode.bootstrapEntries serialize i peers) ∧
        (∀ e ∈ RawNode.bootstrapEntries serialize i peers, e.term = 1) ∧
        (RawNode.bootstrapEntries serialize i peers).length = peers.length
  | _, [] => ⟨fun _ _ h => by simp [bootstrapEntries] at h,
      fun _ h => by simp [bootstrapEntries] at h, rfl⟩
  | i, (id, context) :: peers => by
    obtain ⟨hidx, hterm, hlen⟩ := bootstrapEntries_spec serialize (i + 1) peers
    refine ⟨fun j e he => ?_, fun e he => ?_, by simp [bootstrapEntries, hlen]⟩
    · cases j with
      | zero =>
        cases he
        rfl
      | succ j =>
        rw [hidx j e he]
        omega
    · rcases List.mem_cons.mp he with rfl | he
      · rfl
      · exact hterm e he

/-! ## The log of a new node -/

/-- The parts of a storage fit together: the entries carry their indices, and the snapshot is of committed
entries. -/
structure MemoryStorage.Consistent (s : MemoryStorage) : Prop where
  /-- The entries carry their indices, the placeholder included. -/
  indexed : IndexedFrom s.dummy.index s.entries
  /-- The snapshot is of committed entries. -/
  snapshot_le : s.snapshot.metadata.index ≤ max s.dummy.index s.hardState.commit

/-- The storage without entries is consistent. -/
theorem MemoryStorage.empty_consistent : MemoryStorage.empty.Consistent := by
  refine ⟨fun i e he => ?_, Nat.zero_le _⟩
  obtain ⟨hi, rfl⟩ := List.getElem?_eq_some_iff.mp he
  obtain rfl : i = 0 := Nat.lt_one_iff.mp hi
  rfl

/-- What the configuration says is applied: nothing above the compacted part, or committed entries of the
storage. -/
def Config.AppliedFits (c : Config) : Prop :=
  c.applied = 0 ∨ c.storage.dummy.index ≤ c.applied ∧
    c.applied ≤ max c.storage.dummy.index c.storage.hardState.commit

/-- Loading a hard state sets the commit index, which has to be in the log, the term, and the vote. -/
theorem Raft.loadState_spec (r : Raft) (hs : HardState) :
    Ensures (r.loadState hs) fun r' => r' = { r with
        raftLog := { r.raftLog with committed := hs.commit }, term := hs.term, vote := hs.vote } ∧
      r.raftLog.committed ≤ hs.commit ∧ hs.commit ≤ r.raftLog.lastIndex := by
  unfold loadState
  refine Ensures.ite (fun _ => Ensures.error) fun h => Ensures.ok ⟨rfl, ?_⟩
  constructor <;> omega

/-- A new node follows, and has nothing to send. -/
structure Raft.Idle (r : Raft) (c : Config) : Prop where
  /-- The identity. -/
  id : r.id = c.id
  /-- The setting of pre-votes. -/
  preVote : r.preVote = c.preVote
  /-- The role. -/
  state : r.state = .follower
  /-- The messages. -/
  msgs : r.msgs = []

/-- Following keeps a node idle. -/
theorem Raft.idle_becomeFollower {r : Raft} {c : Config} (hid : r.id = c.id)
    (hpre : r.preVote = c.preVote) (hmsgs : r.msgs = []) (t lead : ℕ) :
    (r.becomeFollower t lead).Idle c where
  id := (r.reset_id t).trans hid
  preVote := (r.reset_preVote t).trans hpre
  state := rfl
  msgs := (r.reset_msgs t).trans hmsgs

/-- The constructor ends with following. -/
theorem Raft.new_eq (c : Config) : Ensures (Raft.new c) fun r => ∃ r₀ : Raft,
    r = r₀.becomeFollower r₀.term 0 ∧ r₀.id = c.id ∧ r₀.preVote = c.preVote ∧ r₀.msgs = [] := by
  unfold Raft.new
  refine Ensures.bind Ensures.any fun ⟨peers, learners⟩ _ => ?_
  obtain ⟨prs, hprs, -⟩ := Raft.addPeers_spec peers (Raft.blank c)
  dsimp only
  rw [hprs]
  refine Ensures.bind (Raft.addLearners_spec learners _) ?_
  rintro r₀ ⟨lprs, rfl, -⟩
  -- Loading the hard state changes the log, the term, and the vote.
  have hend : ∀ r : Raft, r.id = c.id → r.preVote = c.preVote → r.msgs = [] →
      ∃ r₀ : Raft, (if c.applied > 0 then { r with raftLog := r.raftLog.appliedTo c.applied }
        else r).becomeFollower (if c.applied > 0 then { r with raftLog := r.raftLog.appliedTo c.applied }
          else r).term 0 = r₀.becomeFollower r₀.term 0 ∧
        r₀.id = c.id ∧ r₀.preVote = c.preVote ∧ r₀.msgs = [] := by
    intro r hid hpre hmsgs
    refine ⟨_, rfl, ?_⟩
    split_ifs
    · exact ⟨hid, hpre, hmsgs⟩
    · exact ⟨hid, hpre, hmsgs⟩
  refine Ensures.ite (fun _ => ?_) fun _ => ?_
  · refine Ensures.bind (loadState_spec _ _) ?_
    rintro r ⟨rfl, -⟩
    exact Ensures.pure (hend _ rfl rfl rfl)
  · refine Ensures.bind (Ensures.pure rfl) ?_
    rintro r rfl
    exact Ensures.pure (hend _ rfl rfl rfl)

/-- The constructor leaves a node idle. -/
theorem Raft.new_idle (c : Config) : Ensures (Raft.new c) fun r => r.Idle c := by
  refine (Raft.new_eq c).mono ?_
  rintro _ ⟨r₀, rfl, hid, hpre, hmsgs⟩
  exact idle_becomeFollower hid hpre hmsgs _ _

/-- The log of a new node is that of its storage. -/
theorem Raft.new_raftLog (c : Config) :
    Ensures (Raft.new c) fun r => r.raftLog =
        { RaftLog.new c.storage c.maxCommittedSizePerReady with
          committed := max c.storage.dummy.index c.storage.hardState.commit
          applied := if c.applied = 0 then c.storage.dummy.index else c.applied } ∧
      max c.storage.dummy.index c.storage.hardState.commit ≤ c.storage.lastIndex := by
  have hslen := RaftLog.storage_lastIndex_succ c.storage
  have hpos := List.length_pos_iff.mpr c.storage.entries_ne_nil
  unfold Raft.new
  refine Ensures.bind Ensures.any fun ⟨peers, learners⟩ _ => ?_
  obtain ⟨prs, hprs, -⟩ := Raft.addPeers_spec peers (Raft.blank c)
  dsimp only
  rw [hprs]
  refine Ensures.bind (Raft.addLearners_spec learners _) ?_
  rintro r₀ ⟨lprs, rfl, -⟩
  -- What follows the loading of the hard state leaves the commit index alone.
  have hend : ∀ r : Raft, r.raftLog =
      { RaftLog.new c.storage c.maxCommittedSizePerReady with
        committed := max c.storage.dummy.index c.storage.hardState.commit } →
      (if c.applied > 0 then { r with raftLog := r.raftLog.appliedTo c.applied } else r).raftLog =
      { RaftLog.new c.storage c.maxCommittedSizePerReady with
        committed := max c.storage.dummy.index c.storage.hardState.commit
        applied := if c.applied = 0 then c.storage.dummy.index else c.applied } := by
    intro r hlog
    by_cases happ : c.applied = 0
    · rw [if_neg (by omega), hlog, if_pos happ]
      rfl
    · rw [if_pos (by omega), hlog, if_neg happ, RaftLog.appliedTo, if_neg happ]
  refine Ensures.ite (fun _ => ?_) fun hempty => ?_
  · refine Ensures.bind (loadState_spec _ _) ?_
    rintro r ⟨rfl, hge, hle⟩
    have hge : c.storage.dummy.index ≤ c.storage.hardState.commit := hge
    refine Ensures.pure ⟨(Raft.reset_raftLog _ _).trans (hend _ ?_), ?_⟩
    · rw [Nat.max_eq_right hge]
      rfl
    · rw [Nat.max_eq_right hge]
      exact hle
  · have hcommit : c.storage.hardState.commit = 0 := by
      have h := not_not.mp hempty
      unfold HardState.isEmptyState MemoryStorage.initialState at h
      simpa using (Bool.and_eq_true_iff.mp h).2
    refine Ensures.bind (Ensures.pure rfl) ?_
    rintro r rfl
    refine Ensures.pure ⟨(Raft.reset_raftLog _ _).trans (hend _ ?_), ?_⟩
    · rw [hcommit, Nat.max_zero]
      rfl
    · omega

/-- A new log over a storage, committed up to an index that the storage has. -/
theorem RaftLog.sound_new {s : MemoryStorage} (hs : s.Consistent) (k : ℕ) {applied : ℕ}
    (happ : s.dummy.index ≤ applied) (hle : applied ≤ max s.dummy.index s.hardState.commit)
    (hcommit : max s.dummy.index s.hardState.commit ≤ s.lastIndex) :
    ({ RaftLog.new s k with
      committed := max s.dummy.index s.hardState.commit
      applied := applied } : RaftLog).Sound where
  storage_indexed := hs.indexed
  unstable_indexed := fun _ _ h => by simp [RaftLog.new] at h
  applied_le := hle
  committed_le := hcommit
  snapshot_le := hs.snapshot_le
  compacted := fun _ => happ
  applied_lt := fun _ => Nat.lt_succ_of_le (Nat.le_trans hle hcommit)
  offset_le := fun _ => Nat.le_refl _
  offset_eq := fun _ _ => rfl
  pending_offset := nofun
  pending_applied := nofun
  pending_committed := nofun
  pending_dummy := nofun

/-- The log of a new node over a storage whose parts fit together. -/
theorem Raft.new_sound {c : Config} (hs : c.storage.Consistent) (happ : c.AppliedFits) :
    Ensures (Raft.new c) fun r => r.raftLog.Sound ∧ r.raftLog.unstable.snapshot = none ∧
      r.raftLog.lastIndex = c.storage.lastIndex := by
  refine (Raft.new_raftLog c).mono ?_
  rintro r ⟨hlog, hle⟩
  rw [hlog]
  refine ⟨RaftLog.sound_new hs _ ?_ ?_ hle, rfl, rfl⟩
  · rcases happ with h | h <;> split_ifs <;> omega
  · rcases happ with h | h <;> split_ifs <;> omega

namespace RawNode

/-- The start without peers. -/
theorem restartNode_sound {c : Config} (hs : c.storage.Consistent) (happ : c.AppliedFits) :
    Ensures (restartNode c) fun n => n.raft.raftLog.Sound ∧ n.raft.raftLog.Fresh := by
  refine Ensures.bind (Raft.new_sound hs happ) fun r hr => Ensures.pure ?_
  have hfresh : r.raftLog.Fresh := fun s h => by rw [hr.2.1] at h; cases h
  exact ⟨hr.1, hfresh⟩

/-- The start with peers adds entries to the log of the storage, if that is empty, and commits them. -/
theorem startNode_edits {c : Config} (hs : c.storage.Consistent) (happ : c.AppliedFits)
    (serialize : ConfChange → Bytes) (peers : List (ℕ × Bytes)) :
    Ensures (startNode serialize c peers) fun n => ∃ r, Raft.new c = .ok r ∧
      r.raftLog.Edits n.raft.raftLog := by
  refine Ensures.bindEq fun r hnew => ?_
  obtain ⟨hr, hnone, hlast⟩ := Raft.new_sound hs happ r hnew
  refine Ensures.ite (fun hzero => ?_) fun _ => Ensures.pure ⟨r, hnew, Relation.ReflTransGen.refl⟩
  have hflog : (r.becomeFollower 1 0).raftLog = r.raftLog := Raft.reset_raftLog r 1
  generalize r.becomeFollower 1 0 = f at hflog
  obtain ⟨hidx, -, -⟩ := bootstrapEntries_spec serialize 0 peers
  have hend : IndexedFrom (r.raftLog.lastIndex + 1) (bootstrapEntries serialize 0 peers) := by
    rw [hlast, hzero]
    exact hidx
  dsimp only
  generalize bootstrapEntries serialize 0 peers = es at hend ⊢
  -- The entries are added at the end, and all of them are committed.
  obtain ⟨l, hl⟩ : ∃ l, l = { r.raftLog with
    unstable := { r.raftLog.unstable with entries := r.raftLog.unstable.entries ++ es } } := ⟨_, rfl⟩
  have hadd : r.raftLog.Edits l := hl ▸ r.raftLog.edits_append hend
  have hsucc := (hr.edits hadd).lastIndex_succ
  have hlastl : l.lastIndex = es.length := by
    have hsuccr := hr.lastIndex_succ
    have hlen : l.unstable.entries.length = r.raftLog.unstable.entries.length + es.length := by
      rw [hl, List.length_append]
    have hoff : l.unstable.offset = r.raftLog.unstable.offset := by rw [hl]
    omega
  have hcommit : r.raftLog.Edits { l with committed := es.length } := by
    refine hadd.tail (RaftLog.Edit.commit es.length ?_ (Nat.le_of_eq hlastl.symm))
    have := (hr.edits hadd).committed_le
    omega
  refine Ensures.bind (P := fun l' => l' = l) ?_ ?_
  · rw [hflog, RaftLog.append_at_end hr hend]
    exact Ensures.ok hl.symm
  rintro _ rfl
  refine Ensures.bind (P := fun r' : Raft => r.raftLog.Edits r'.raftLog) ?_ fun r' hr' =>
    Ensures.pure ⟨r, hnew, hr'⟩
  refine Ensures.foldlM peers (fun r₁ peer _ h₁ => ?_) _ hcommit
  refine (Raft.steady_addNodeOrLearner peer.1 false).mono fun r₂ h₂ => ?_
  exact h₁.trans (h₂.moves.edits (hr.edits h₁) nofun)

/-- A node starts without a snapshot to install. -/
theorem startNode_snapshot {c : Config} (hs : c.storage.Consistent) (happ : c.AppliedFits)
    (serialize : ConfChange → Bytes) (peers : List (ℕ × Bytes)) :
    Ensures (startNode serialize c peers) fun n => n.raft.raftLog.unstable.snapshot = none := by
  refine Ensures.bind (Raft.new_sound hs happ) fun r hr => ?_
  obtain ⟨-, hnone, -⟩ := hr
  refine Ensures.ite (fun _ => ?_) fun _ => Ensures.pure hnone
  have hfollower : (r.becomeFollower 1 0).raftLog.unstable.snapshot = none := by
    rw [show (r.becomeFollower 1 0).raftLog = r.raftLog from Raft.reset_raftLog r 1]
    exact hnone
  refine Ensures.bind (RaftLog.append_snapshot _ _) fun l hl => ?_
  have hkeeps : ∀ r' : Raft, r'.raftLog.unstable.snapshot = none → ∀ id,
      Ensures (r'.addNode id) fun r'' => r''.raftLog.unstable.snapshot = none := fun r' hr' id =>
    (Raft.steady_addNodeOrLearner id false).mono fun r'' h => (h.moves.snapshot_eq nofun).trans hr'
  refine Ensures.bind (Ensures.foldlM peers (fun r' peer _ hr' => hkeeps r' hr' peer.1) _ ?_) fun r' hr' =>
    Ensures.pure hr'
  exact hl.trans hfollower

/-- The start with peers. -/
theorem startNode_sound {c : Config} (hs : c.storage.Consistent) (happ : c.AppliedFits)
    (serialize : ConfChange → Bytes) (peers : List (ℕ × Bytes)) :
    Ensures (startNode serialize c peers) fun n => n.raft.raftLog.Sound ∧ n.raft.raftLog.Fresh := by
  refine (startNode_edits hs happ serialize peers).mono ?_
  rintro n ⟨r, hnew, hedits⟩
  obtain ⟨hr, hnone, -⟩ := Raft.new_sound hs happ r hnew
  have hfresh : r.raftLog.Fresh := fun s h => by rw [hnone] at h; cases h
  exact ⟨hr.edits hedits, hfresh.edits hr hedits⟩

end RawNode

namespace Host

/-- A node as either constructor leaves it, over a valid configuration. -/
inductive Built (c : Config) : Host → Prop
  /-- Without peers. -/
  | restart {c' : Config} {n : RawNode} (hc : c.validate = (.ok, c'))
      (hn : RawNode.restartNode c' = .ok n) : Built c { node := n }
  /-- With peers. -/
  | start {c' : Config} {serialize : ConfChange → Bytes} {peers : List (ℕ × Bytes)} {n : RawNode}
      (hc : c.validate = (.ok, c')) (hn : RawNode.startNode serialize c' peers = .ok n) :
      Built c { node := n }

/-- A node that was just built. -/
theorem Built.sound {c : Config} {h : Host} (hb : Built c h) (hs : c.storage.Consistent)
    (happ : c.AppliedFits) : h.Sound := by
  have hidle : ∀ n : RawNode, n.raft.raftLog.Sound ∧ n.raft.raftLog.Fresh →
      ({ node := n } : Host).Sound := fun n hn => ⟨hn.1, fun _ => hn.2, nofun⟩
  cases hb with
  | restart hc hn =>
    obtain ⟨-, a, b, rfl⟩ := Config.validate_spec hc
    exact hidle _ (RawNode.restartNode_sound (c := { c with
      maxUncommittedEntriesSize := a
      maxCommittedSizePerReady := b }) hs happ _ hn)
  | start hc hn =>
    obtain ⟨-, a, b, rfl⟩ := Config.validate_spec hc
    exact hidle _ (RawNode.startNode_sound (c := { c with
      maxUncommittedEntriesSize := a
      maxCommittedSizePerReady := b }) hs happ _ _ _ hn)

/-- What holds of a node that follows, and is kept when a peer is added, holds of a node that was just
built. -/
theorem Built.holds {c : Config} {h : Host} {P : Raft → Prop} (hb : Built c h)
    (hfollow : ∀ (r : Raft) (t lead : ℕ), r.id = c.id → r.preVote = c.preVote → r.msgs = [] →
      P (r.becomeFollower t lead))
    (hlog : ∀ (r : Raft) (l : RaftLog), P r → P { r with raftLog := l })
    (hadd : ∀ (r : Raft) (id : ℕ), P r → Ensures (r.addNode id) P) : P h.node.raft := by
  cases hb with
  | restart hc hn =>
    obtain ⟨-, a, b, rfl⟩ := Config.validate_spec hc
    unfold RawNode.restartNode at hn
    obtain ⟨r, hr, hn⟩ := bind_eq_ok.mp hn
    obtain ⟨r₀, rfl, hid, hpre, hmsgs⟩ := Raft.new_eq _ r hr
    cases hn
    exact hfollow r₀ _ _ hid hpre hmsgs
  | start hc hn =>
    obtain ⟨-, a, b, rfl⟩ := Config.validate_spec hc
    unfold RawNode.startNode at hn
    obtain ⟨r, hr, hn⟩ := bind_eq_ok.mp hn
    obtain ⟨r₀, rfl, hid, hpre, hmsgs⟩ := Raft.new_eq _ r hr
    split_ifs at hn with hzero
    · obtain ⟨l, hl, hn⟩ := bind_eq_ok.mp hn
      obtain ⟨r', hr', hn⟩ := bind_eq_ok.mp hn
      cases hn
      have hidle := Raft.idle_becomeFollower hid hpre hmsgs r₀.term 0
      refine Ensures.foldlM (P := P) _ (fun r₁ peer _ h₁ => hadd r₁ peer.1 h₁) _ ?_ r' hr'
      exact hlog _ _ (hfollow _ 1 0 hidle.id hidle.preVote hidle.msgs)
    · cases hn
      exact hfollow r₀ _ _ hid hpre hmsgs

/-- A node that was started is built. -/
theorem boot_built {c : Config} {h : Host} (hb : boot c = .ok h) : Built c h := by
  unfold boot at hb
  split at hb
  · rename_i hc
    obtain ⟨n, hn, hb⟩ := bind_eq_ok.mp hb
    cases hb
    exact Built.restart hc hn
  · cases hb

end Host

end RaftCpp
