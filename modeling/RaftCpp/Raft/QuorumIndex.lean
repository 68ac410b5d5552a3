import RaftCpp.Raft.PendingConf
import RaftCpp.Raft.PlainLog

/-!
# The index that a quorum matches

`maybe_commit` sorts the matches of the voters and looks at the one that a quorum reaches. For that there has
to be a voter. When the last one is removed and learners are left, there is none.
-/

namespace RaftCpp

open Outcome

namespace RaftLog

variable {l : RaftLog} {n t : ℕ}

/-- `maybe_commit` as an operation on the list: the index moves to one above it whose entry has the term. -/
theorem Layered.maybeCommit_eq (h : l.Layered) (hin : l.committed < n → l.plain.termAt Entry.term n = t →
    n ≤ l.lastIndex) :
    l.maybeCommit n t = .ok (if l.committed < n ∧ l.plain.termAt Entry.term n = t then
      (true, { l with committed := n }) else (false, l)) := by
  unfold maybeCommit
  by_cases hlt : l.committed < n
  swap
  · rw [if_neg (by omega), if_neg (fun h => hlt h.1)]
    rfl
  rw [if_pos hlt, h.term_eq n]
  dsimp only
  by_cases hterm : l.plain.termAt Entry.term n = t
  swap
  · rw [if_neg hterm, if_neg (fun h => hterm h.2)]
    rfl
  have hlast := hin hlt hterm
  rw [if_pos hterm, if_pos ⟨hlt, hterm⟩]
  unfold commitTo
  rw [if_pos hlt, if_neg (by omega)]
  rfl

/-- What is appended to the end keeps the log layered. -/
theorem Layered.append_end (h : l.Layered) {es : List Entry} (hes : IndexedFrom (l.lastIndex + 1) es) :
    Ensures (l.append es) Layered := by
  cases es with
  | nil => exact Ensures.pure h
  | cons e es =>
    obtain hcommitted | hcommitted := Nat.lt_or_ge l.committed (l.lastIndex + 1)
    · obtain ⟨u, happ, hu, -⟩ := h.append_ok hes (List.cons_ne_nil e es) hcommitted h.firstIndex_le (le_refl _)
      rw [happ]
      exact Ensures.ok hu
    · have hindex : sub64 e.index 1 = l.lastIndex := by
        rw [hes.head, sub64_of_le (Nat.le_add_left 1 _), Nat.add_sub_cancel]
      unfold append
      dsimp only
      rw [if_pos (by omega)]
      exact Ensures.error

/-- An index after the log has the term zero, and cannot be committed. -/
theorem Layered.maybeCommit_after (h : l.Layered) (hlt : l.committed < n) (hlast : l.lastIndex < n) :
    l.maybeCommit n 0 = .error (.commitToOutOfRange n l.lastIndex) := by
  have hzero : l.plain.termAt Entry.term n = 0 := by
    rw [BasedLog.termAt_eq_zero]
    rw [h.plain_lastIndex]
    exact Or.inr hlast
  unfold maybeCommit
  rw [if_pos hlt, h.term_eq n, hzero]
  dsimp only
  unfold commitTo
  rw [if_pos rfl, if_pos hlt, if_pos hlast]
  rfl

end RaftLog

namespace Raft

variable {r : Raft} {n N : ℕ}

/-! ## Counting voters -/

/-- How many voters match an index. -/
def votersAt (r : Raft) (n : ℕ) : ℕ := r.prs.entries.countP fun e => decide (n ≤ e.2.matched)

/-- A lower index is matched by no fewer voters. -/
theorem votersAt_anti (hle : n ≤ N) : r.votersAt N ≤ r.votersAt n := by
  refine List.countP_mono_left fun e _ he => ?_
  exact decide_eq_true (Nat.le_trans hle (of_decide_eq_true he))

/-- As many voters match an index as sorted matches reach it. -/
theorem countP_sortedMatches (r : Raft) (n : ℕ) :
    r.sortedMatches.countP (fun x => decide (n ≤ x)) = r.votersAt n := by
  rw [sortedMatches, (List.perm_insertionSort _ _).countP_eq, List.countP_map]
  rfl

/-- There is a match for each voter. -/
theorem length_sortedMatches (r : Raft) : r.sortedMatches.length = r.prs.keys.length := by
  simp [sortedMatches, AList.keys, List.keys]

/-- The index that `maybe_commit` computes. -/
def quorumIndex (r : Raft) : Result ℕ :=
  elemAt r.sortedMatches (sub64 r.sortedMatches.length r.quorum)

/-- `maybe_commit` hands that index to the log. -/
theorem maybeCommit_of_index (h : r.quorumIndex = .ok N) : r.maybeCommit =
    (r.raftLog.maybeCommit N r.term).map fun p => (p.1, { r with raftLog := p.2 }) := by
  unfold maybeCommit
  unfold quorumIndex at h
  dsimp only
  rw [h]
  show (do
    let p ← r.raftLog.maybeCommit N r.term
    return (p.1, { r with raftLog := p.2 })) = _
  cases r.raftLog.maybeCommit N r.term with
  | ok p => rfl
  | error e => rfl

/-- With a voter, it is the greatest index that a quorum matches. -/
theorem quorumIndex_ok (hvoter : r.prs.keys ≠ []) :
    ∃ N, r.quorumIndex = .ok N ∧ IsGreatest {n | r.quorum ≤ r.votersAt n} N := by
  have hpos := List.length_pos_iff.mpr hvoter
  have hlen := r.length_sortedMatches
  have hquorum : r.quorum ≤ r.sortedMatches.length := by
    unfold quorum
    omega
  have hplace : r.sortedMatches.length - r.quorum < r.sortedMatches.length := by
    unfold quorum
    omega
  have hget := List.getElem?_eq_getElem hplace
  refine ⟨r.sortedMatches[r.sortedMatches.length - r.quorum], ?_, ?_⟩
  · unfold quorumIndex elemAt
    rw [sub64_of_le hquorum, hget]
  · have hgreatest := Consensus.isGreatest_countP (List.pairwise_insertionSort _ _) hget
    have hset : {n | r.sortedMatches.length - (r.sortedMatches.length - r.quorum) ≤
        r.sortedMatches.countP fun x => decide (n ≤ x)} = {n | r.quorum ≤ r.votersAt n} := by
      ext n
      rw [Set.mem_ofPred_eq, Set.mem_ofPred_eq, countP_sortedMatches, Nat.sub_sub_self hquorum]
    rwa [← hset]

/-- Without one, the access is out of range. -/
theorem quorumIndex_of_no_voter (hnone : r.prs.keys = []) : r.quorumIndex = .error .outOfRange := by
  have hlen := r.length_sortedMatches
  rw [hnone, List.length_nil, List.length_eq_zero_iff] at hlen
  unfold quorumIndex
  rw [hlen]
  rfl

/-! ## Committing -/

/-- What `maybe_commit` is to do: it computes the greatest index that a quorum of the voters matches, and the
commit index moves there if it is above and has the term of the node. -/
def CommitsQuorum (r : Raft) : Prop :=
  ∃ N, r.quorumIndex = .ok N ∧ IsGreatest {n | r.quorum ≤ r.votersAt n} N ∧
    r.maybeCommit = .ok (if r.raftLog.committed < N ∧ r.raftLog.plain.termAt Entry.term N = r.term then
      (true, { r with raftLog := { r.raftLog with committed := N } }) else (false, r))

/-- There is a voter, and in the term zero no quorum claims to match an index after the log. -/
def HasQuorum (r : Raft) : Prop :=
  r.prs.keys ≠ [] ∧
    (r.term = 0 → r.votersAt (max r.raftLog.committed r.raftLog.lastIndex + 1) < r.quorum)

instance (r : Raft) : Decidable r.HasQuorum := inferInstanceAs (Decidable (_ ∧ _))

/-- `maybe_commit` does what it is to do exactly then. -/
theorem commitsQuorum_iff (h : r.raftLog.Layered) : r.CommitsQuorum ↔ r.HasQuorum := by
  constructor
  · rintro ⟨N, hindex, hgreatest, hcommit⟩
    have hvoter : r.prs.keys ≠ [] := by
      intro hnone
      rw [quorumIndex_of_no_voter hnone] at hindex
      cases hindex
    refine ⟨hvoter, fun hzero => ?_⟩
    by_contra hclaim
    have hN := hgreatest.2 (Nat.not_lt.mp hclaim)
    rw [maybeCommit_of_index hindex, hzero, h.maybeCommit_after (by omega) (by omega)] at hcommit
    cases hcommit
  · rintro ⟨hvoter, hclaim⟩
    obtain ⟨N, hindex, hgreatest⟩ := quorumIndex_ok hvoter
    refine ⟨N, hindex, hgreatest, ?_⟩
    have hin : r.raftLog.committed < N → r.raftLog.plain.termAt Entry.term N = r.term →
        N ≤ r.raftLog.lastIndex := by
      intro hlt hterm
      by_contra hafter
      -- Such an index has the term zero.
      have hzero : r.raftLog.plain.termAt Entry.term N = 0 := by
        rw [BasedLog.termAt_eq_zero]
        rw [h.plain_lastIndex]
        exact Or.inr (Nat.lt_of_not_le hafter)
      have hfew := hclaim (hterm.symm.trans hzero)
      have hmany := Nat.le_trans hgreatest.1 (r.votersAt_anti (n := max r.raftLog.committed
        r.raftLog.lastIndex + 1) (by omega))
      exact absurd hfew (Nat.not_lt.mpr hmany)
    rw [maybeCommit_of_index hindex, h.maybeCommit_eq hin]
    split_ifs
    · rfl
    · rfl

end Raft

/-- `maybe_commit` commits what a quorum of the voters matches if and only if there is a quorum. This is so in
`remove_node`, where the member is gone, and in `append_entry`, where the log holds the entries and the leader's
own progress has moved. -/
theorem commit_index_iff {r : Raft} (h : r.raftLog.Layered) :
    (r.CommitsQuorum ↔ r.HasQuorum) ∧
      (∀ id, (r.delProgress id).CommitsQuorum ↔ (r.delProgress id).HasQuorum) ∧
      ∀ es n p, Ensures (r.raftLog.append (Raft.stampEntries r.term (r.raftLog.lastIndex + 1) es)) fun l =>
        let r' := ({ r with uncommittedSize := n, raftLog := l } : Raft).putProgress r.id p
        (r'.CommitsQuorum ↔ r'.HasQuorum) := by
  refine ⟨Raft.commitsQuorum_iff h, fun id => Raft.commitsQuorum_iff h, fun es n p => ?_⟩
  refine (h.append_end (Raft.stampEntries_spec _ _ es).1).mono fun l hl => Raft.commitsQuorum_iff ?_
  have hout := ({ r with uncommittedSize := n, raftLog := l } : Raft).putProgress_outline r.id p
  rw [show Raft.raftLog _ = l from congrArg Outline.raftLog hout]
  exact hl

/-- A voter with a learner. -/
def observedConfig : Config := { soloConfig with learners := [2] }

/-- The voter commits the empty entry of its term. -/
theorem commit_index_iff_elected : electedAlone.after.node.raft.CommitsQuorum := by
  have hlayered : electedAlone.after.node.raft.raftLog.Layered :=
    ⟨by decide +kernel, by decide +kernel, by decide +kernel⟩
  exact (commit_index_iff hlayered).1.mpr (by decide +kernel)

/-- When the only voter is removed from a learner, the access is out of range. -/
theorem last_voter_out_of_range : ¬∀ (c : Config) (h₀ h : Host) (ts : List (Turn Host HostEvent))
    (cc : ConfChange), Host.Built c h₀ → Host.Run h₀ ts h →
      Avoids .outOfRange (h.handle (.applyConfChange cc)) := by
  intro hall
  have hbuilt : Host.Built observedConfig (Host.started observedConfig) :=
    Host.boot_built (Host.boot_started (by decide +kernel))
  have havoids := hall observedConfig _ _ [] { confChangeType := confChangeRemoveNode, nodeId := 1 } hbuilt
    (.nil _)
  exact absurd havoids (by decide +kernel)

end RaftCpp
