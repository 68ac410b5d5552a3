import RaftCpp.Raft.Booting

/-!
# When something is ready

Whether a `Ready` has to be made is decided before it is made, by `has_ready`, and once more from what it
contains, by `contains_updates`. The two look at the same parts of the node. They agree where something other
than a read is pending, and nowhere else, because `contains_updates` takes the reads that are not there for an
update. `must_sync` compares the hard state with the one that the `Ready` has just been given, and not with
the previous one.
-/

namespace RaftCpp

open Outcome

/-! ## What is handed out for application -/

namespace RaftLog

/-- A range of the log that is not empty is read as at least one entry. -/
theorem slice_ne_nil {l : RaftLog} {low high maxSize : ℕ} (hlt : low < high) :
    Ensures (l.slice low high maxSize) fun p => p.1.isOk = true → p.2 ≠ [] := by
  -- The part above the offset, when there is one, or something below it.
  have hunstable : ∀ stable : List Entry, (stable ≠ [] ∨ l.unstable.offset ≤ low) →
      Ensures (l.sliceUnstable low high maxSize stable) fun p => p.1.isOk = true → p.2 ≠ [] := by
    intro stable hne
    unfold sliceUnstable
    refine Ensures.ite (fun hgt => ?_) fun hle => Ensures.pure fun _ hnil => ?_
    · refine Ensures.bind (l.unstable.slice_spec _ _) fun es hes => Ensures.pure fun _ hnil => ?_
      obtain ⟨rfl, hlow, hhigh⟩ := hes
      obtain ⟨hstable, hes⟩ := List.append_eq_nil_iff.mp (entryLimitSize_eq_nil.mp hnil)
      have hlen := congrArg List.length hes
      simp only [List.length_take, List.length_drop, List.length_nil] at hlen
      omega
    · have hstable := entryLimitSize_eq_nil.mp hnil
      obtain hne | hoff := hne
      · exact hne hstable
      · omega
  unfold slice
  refine Ensures.bind Ensures.any fun status _ => ?_
  refine Ensures.ite (fun hst => Ensures.pure fun hok => absurd hok hst) fun _ => ?_
  rw [if_neg (Nat.ne_of_lt hlt)]
  refine Ensures.ite (fun hoff => ?_) fun hoff => hunstable [] (Or.inr (Nat.le_of_not_lt hoff))
  refine Ensures.bind (P := fun p => p.1.isOk = true → p.2 ≠ []) ?_ fun p hp => ?_
  · unfold MemoryStorage.entriesIn
    refine Ensures.ite (fun _ => Ensures.error) fun hne => ?_
    refine Ensures.ite (fun _ => Ensures.ok nofun) fun hdummy => ?_
    refine Ensures.ite (fun _ => Ensures.error) fun hlast => ?_
    refine Ensures.ite (fun _ => Ensures.ok nofun) fun hone => Ensures.ok fun _ hnil => ?_
    have hlen := congrArg List.length (entryLimitSize_eq_nil.mp hnil)
    have hpos := List.length_pos_iff.mpr l.storage.entries_ne_nil
    unfold MemoryStorage.lastIndex at hlast
    simp only [List.length_take, List.length_drop, List.length_nil] at hlen
    omega
  · refine Ensures.ite (fun hst => Ensures.pure fun hok => absurd hok hst) fun hst => ?_
    have hne := hp (not_not.mp hst)
    refine Ensures.ite (fun _ => Ensures.pure fun _ => hne) fun _ => ?_
    exact hunstable p.2 (Or.inl hne)

/-- `next_entries` returns something exactly when `has_next_entries` says so. -/
theorem nextEntries_ne_nil {l : RaftLog} :
    Ensures l.nextEntries fun es => es ≠ [] ↔ l.hasNextEntries = true := by
  unfold nextEntries hasNextEntries
  dsimp only
  refine Ensures.ite (fun hgt => ?_) fun hle => Ensures.pure ?_
  · refine Ensures.bind (slice_ne_nil hgt) fun p hp => ?_
    refine Ensures.ite (fun hst => Ensures.pure ?_) fun _ => Ensures.error
    simp only [hp hst, hgt, ne_eq, not_false_eq_true, decide_true]
  · simp [hle]

end RaftLog

/-! ## The two predicates -/

/-- Something other than a read is pending: the soft state or the hard state has changed, or there is a
snapshot, entries to persist, entries to apply, or messages. -/
def RawNode.HasUpdates (n : RawNode) : Prop :=
  n.raft.softState ≠ n.prevSoftState ∨
    (n.raft.hardState.isEmptyState = false ∧ n.raft.hardState ≠ n.prevHardState) ∨
    (∃ s ∈ n.raft.raftLog.unstable.snapshot, s.isEmpty = false) ∨ n.raft.raftLog.unstable.entries ≠ [] ∨
    max (n.raft.raftLog.applied + 1) n.raft.raftLog.firstIndex < n.raft.raftLog.committed + 1 ∨
    n.raft.msgs ≠ []

namespace RawNode

variable {n n' : RawNode} {rd : Ready}

/-- `has_ready` looks for reads that are there. -/
theorem hasReady_iff : n.hasReady = true ↔ n.HasUpdates ∨ n.raft.readStates ≠ [] := by
  unfold hasReady HasUpdates RaftLog.hasNextEntries
  dsimp only
  generalize n.raft.raftLog.unstable.snapshot = snapshot
  have hsnapshot : (∃ s ∈ snapshot, s.isEmpty = false) ↔ (snapshot.elim false (!·.isEmpty)) = true := by
    cases snapshot <;> simp
  rw [hsnapshot]
  cases snapshot <;>
    simp only [Bool.or_eq_true, Bool.and_eq_true, bne_iff_ne, Bool.not_eq_true', decide_eq_true_eq,
      Option.elim_none, Option.elim_some, gt_iff_lt]
  · tauto
  · tauto

/-- `contains_updates` looks for reads that are not there. -/
theorem containsUpdates_iff (hready : n.ready = .ok (rd, n')) :
    rd.containsUpdates = true ↔ n.HasUpdates ∨ n.raft.readStates = [] := by
  obtain ⟨rd', hrd, hn⟩ := bind_eq_ok.mp hready
  cases hn
  obtain ⟨es, hes, hrd⟩ := bind_eq_ok.mp hrd
  cases hrd
  have hnext : es ≠ [] ↔ n.raft.raftLog.hasNextEntries = true := RaftLog.nextEntries_ne_nil es hes
  have hsoft : (if n.raft.softState ≠ n.prevSoftState then some n.raft.softState else none) ≠ none ↔
      n.raft.softState ≠ n.prevSoftState := by
    split_ifs with h <;> simp [h]
  have hhard : (if n.raft.hardState ≠ n.prevHardState then n.raft.hardState else {}).isEmptyState = false ↔
      n.raft.hardState.isEmptyState = false ∧ n.raft.hardState ≠ n.prevHardState := by
    split_ifs with h
    · simp only [h, ne_eq, not_false_eq_true, and_true]
    · simp [HardState.isEmptyState, not_not.mp h]
  have hsnapshot : (n.raft.raftLog.unstable.snapshot.getD {}).isEmpty = false ↔
      ∃ s ∈ n.raft.raftLog.unstable.snapshot, s.isEmpty = false := by
    cases n.raft.raftLog.unstable.snapshot <;> simp [Snapshot.isEmpty]
  unfold RaftLog.hasNextEntries at hnext
  unfold Ready.containsUpdates HasUpdates
  simp only [Bool.or_eq_true, bne_iff_ne, beq_iff_eq, Bool.not_eq_true', hsoft, hhard, hsnapshot, hnext,
    decide_eq_true_eq, gt_iff_lt, or_assoc]

end RawNode

/-- Whether a `Ready` has to be made: the two predicates agree if and only if something other than a read is
pending. -/
theorem has_ready_contains_updates {n n' : RawNode} {rd : Ready} (hready : n.ready = .ok (rd, n')) :
    (n.hasReady = true ↔ rd.containsUpdates = true) ↔ n.HasUpdates := by
  rw [RawNode.hasReady_iff, RawNode.containsUpdates_iff hready]
  by_cases hupdates : n.HasUpdates
  · simp only [hupdates, true_or]
  · by_cases hreads : n.raft.readStates = []
    · simp [hupdates, hreads]
    · simp [hupdates, hreads]

/-- One of three voters asks for votes. -/
def candidateOfThree : RawNode :=
  (Trace.run Host.handle (Host.started voterConfig) [.call { type := .msgHup }]).2.node

/-- Something can be taken from it. -/
theorem candidateOfThree_ready : ∃ p, candidateOfThree.ready = .ok p ∧ p.1.containsUpdates = true ∧
    p.1.mustSync = false := by
  have htaken : (candidateOfThree.ready.toOption.map fun p => (p.1.containsUpdates, p.1.mustSync)) =
      some (true, false) := by decide +kernel
  cases hready : candidateOfThree.ready with
  | ok p =>
    rw [hready] at htaken
    obtain ⟨hcontains, hsync⟩ := Prod.mk.inj (Option.some.inj htaken)
    exact ⟨p, rfl, hcontains, hsync⟩
  | error e =>
    rw [hready] at htaken
    cases htaken

/-- The predicates agree on it. -/
theorem has_ready_contains_updates_candidate : ∃ p, candidateOfThree.ready = .ok p ∧
    ((candidateOfThree.hasReady = true ↔ p.1.containsUpdates = true) ↔ candidateOfThree.HasUpdates) := by
  obtain ⟨p, hready, -⟩ := candidateOfThree_ready
  exact ⟨p, hready, has_ready_contains_updates hready⟩

/-- A voter that is alone leads, has nothing left to hand out, and is asked to serve a read, which it does at
once. -/
def servesRead : List (Turn Host HostEvent) × Host :=
  Trace.run Host.handle (Host.started soloConfig)
    [.call { type := .msgHup }, .ready, .persist, .advance,
      .call { type := .msgReadIndex, fromId := 1, entries := [{ data := [7] }] }]

/-- A read alone makes the node ready, and is not taken for an update. -/
theorem read_no_update : ¬ ∀ (c : Config) (h₀ h : Host) (ts : List (Turn Host HostEvent)) (rd : Ready)
    (n' : RawNode), Host.Built c h₀ → Host.Run h₀ ts h → h.node.ready = .ok (rd, n') →
      (h.node.hasReady = true ↔ rd.containsUpdates = true) := by
  intro hall
  have hbuilt : Host.Built soloConfig (Host.started soloConfig) :=
    Host.boot_built (Host.boot_started (by decide +kernel))
  have htaken : (servesRead.2.node.ready.toOption.map fun p => p.1.containsUpdates) = some false := by
    decide +kernel
  have hhas : servesRead.2.node.hasReady = true := by decide +kernel
  cases hready : servesRead.2.node.ready with
  | ok p =>
    have hcontains := (hall soloConfig _ servesRead.2 servesRead.1 p.1 p.2 hbuilt (Trace.of_run _ _ _)
      hready).mp hhas
    rw [hready] at htaken
    have hnot : p.1.containsUpdates = false := Option.some.inj htaken
    rw [hcontains] at hnot
    cases hnot
  | error e =>
    rw [hready] at htaken
    cases htaken

/-! ## Writing synchronously -/

/-- Whether a `Ready` has to be written synchronously: `must_sync` says so where the law does if and only if
there are entries, or the hard state has not changed and is that of a node without a term and a vote, or it
has changed in its commit index alone. -/
theorem must_sync_law {r : Raft} {preSoft : SoftState} {preHard : HardState} {rd : Ready}
    (hrd : Ready.new r preSoft preHard = .ok rd) :
    (rd.mustSync = true ↔ rd.entries ≠ [] ∨ r.term ≠ preHard.term ∨ r.vote ≠ preHard.vote) ↔
      r.raftLog.unstable.entries ≠ [] ∨ r.hardState = preHard ∧ r.term = 0 ∧ r.vote = 0 ∨
        r.hardState ≠ preHard ∧ r.term = preHard.term ∧ r.vote = preHard.vote := by
  obtain ⟨es, -, hrd⟩ := bind_eq_ok.mp hrd
  cases hrd
  unfold isMustSync
  by_cases hentries : r.raftLog.unstable.entries = []
  · by_cases hsame : r.hardState = preHard
    · -- The comparison is with the empty hard state.
      have hterm : r.term = preHard.term := congrArg HardState.term hsame
      have hvote : r.vote = preHard.vote := congrArg HardState.vote hsame
      rw [if_neg (not_not.mpr hsame)]
      simp only [hentries, hsame, List.length_nil, bne_self_eq_false, Bool.false_or, Bool.or_eq_true,
        bne_iff_ne, ne_eq, not_true_eq_false, false_or, ← hterm, ← hvote, false_and, or_false, true_and]
      tauto
    · -- The comparison is of the hard state with itself.
      rw [if_pos hsame]
      simp only [hentries, hsame, List.length_nil, bne_self_eq_false, Bool.or_false, Bool.false_eq_true,
        ne_eq, not_true_eq_false, false_or, false_and, not_false_eq_true, true_and, false_iff]
      tauto
  · simp [hentries]

/-- What the first `Ready` of a candidate says of the law. -/
theorem must_sync_law_candidate : ∃ rd,
    Ready.new candidateOfThree.raft candidateOfThree.prevSoftState candidateOfThree.prevHardState = .ok rd ∧
      ((rd.mustSync = true ↔ rd.entries ≠ [] ∨
          candidateOfThree.raft.term ≠ candidateOfThree.prevHardState.term ∨
          candidateOfThree.raft.vote ≠ candidateOfThree.prevHardState.vote) ↔
        candidateOfThree.raft.raftLog.unstable.entries ≠ [] ∨
          candidateOfThree.raft.hardState = candidateOfThree.prevHardState ∧
            candidateOfThree.raft.term = 0 ∧ candidateOfThree.raft.vote = 0 ∨
          candidateOfThree.raft.hardState ≠ candidateOfThree.prevHardState ∧
            candidateOfThree.raft.term = candidateOfThree.prevHardState.term ∧
            candidateOfThree.raft.vote = candidateOfThree.prevHardState.vote) := by
  obtain ⟨p, hready, -⟩ := candidateOfThree_ready
  obtain ⟨rd, hrd, -⟩ := bind_eq_ok.mp hready
  exact ⟨rd, hrd, must_sync_law hrd⟩

/-- The new term and vote of a candidate need not be written synchronously. -/
theorem vote_not_synced : ¬ ∀ (r : Raft) (preSoft : SoftState) (preHard : HardState) (rd : Ready),
    Ready.new r preSoft preHard = .ok rd →
      (rd.mustSync = true ↔ rd.entries ≠ [] ∨ r.term ≠ preHard.term ∨ r.vote ≠ preHard.vote) := by
  intro hall
  obtain ⟨p, hready, -, hsync⟩ := candidateOfThree_ready
  obtain ⟨rd, hrd, hp⟩ := bind_eq_ok.mp hready
  cases hp
  have hterm : candidateOfThree.raft.term ≠ candidateOfThree.prevHardState.term := by decide +kernel
  have htrue := (hall _ _ _ rd hrd).mpr (Or.inr (Or.inl hterm))
  rw [htrue] at hsync
  cases hsync

end RaftCpp
