import RaftCpp.Replication.Start

/-!
# What a cluster guarantees

Election safety, state-machine safety, leader completeness, log matching, and the absence of failures
that contradict the log, for every run of a cluster that has just started. All but the first are for
clusters without pre-votes. Election safety with pre-votes fails: a candidate counts a late answer to its
poll as a vote. It holds of the runs in which that does not happen.
-/

namespace RaftCpp

open Consensus Outcome

variable {S : Setup} {c₀ c c' c₁ c₂ : Cluster}

/-- No node polls before an election. -/
def Setup.NoPreVote (S : Setup) : Prop := ∀ i ∈ S.members, (S.config i).preVote = false

/-- Without pre-votes, two states of a run are related to two states of the protocol. -/
theorem Cluster.Fresh.sim (h : c₀.Fresh S) (hpre : S.NoPreVote)
    (h₁ : Cluster.Run S Event.Any c₀ c₁) (h₂ : Cluster.Run S Event.Any c₁ c₂) :
    ∃ G s₁ s₂, Le s₁ s₂ ∧ ClusterSim S G s₁ c₁ ∧ ClusterSim S G s₂ c₂ := by
  have h₀ : ClusterSim S (S.group false) _ c₀ := ClusterSim.fresh h fun i hi hp => by
    rw [hpre i hi] at hp
    exact hp
  obtain ⟨s₁, -, hs₁⟩ := h₀.steps_any rfl h₁
  obtain ⟨s₂, hle, hs₂⟩ := hs₁.steps_any rfl h₂
  exact ⟨_, s₁, s₂, hle, hs₁, hs₂⟩

namespace ClusterSim

variable {G : Group} {s s' : History}

/-- The log of a node. -/
theorem log (h : ClusterSim S G s c) {x : ℕ} (hx : x ∈ S.members) :
    s.log x = (c.nodes x).raft.raftLog.toList := by
  rw [← (h.node x hx).log, h.id x hx]

/-- The commit index of a node. -/
theorem commit (h : ClusterSim S G s c) {x : ℕ} (hx : x ∈ S.members) :
    s.commit x = (c.nodes x).raft.raftLog.committed := by
  rw [← (h.node x hx).commit, h.id x hx]

/-- The term of a node. -/
theorem term (h : ClusterSim S G s c) {x : ℕ} (hx : x ∈ S.members) :
    s.term x = (c.nodes x).raft.term := by
  rw [← (h.node x hx).term, h.id x hx]

/-- A node that leads is a leader. -/
theorem leader (h : ClusterSim S G s c) {x : ℕ} (hx : x ∈ S.members)
    (hl : (c.nodes x).raft.state = .leader) : s.role x = .leader := by
  have := (h.node x hx).role
  rw [h.id x hx, hl] at this
  exact this

end ClusterSim

/-! ## Elections -/

/-- Election safety: in a run in which no candidate counts the answer to a poll as a vote, a term has
one leader. -/
theorem election_safety (hfresh : c₀.Fresh S) (h₁ : Cluster.Run S Event.Clean c₀ c₁)
    (h₂ : Cluster.Run S Event.Clean c₁ c₂) {a b : ℕ} (ha : a ∈ S.members) (hb : b ∈ S.members)
    (hla : (c₁.nodes a).raft.state = .leader) (hlb : (c₂.nodes b).raft.state = .leader)
    (hterm : (c₁.nodes a).raft.term = (c₂.nodes b).raft.term) : a = b := by
  have h₀ : ClusterSim S (S.group true) _ c₀ := ClusterSim.fresh hfresh fun _ _ _ => rfl
  obtain ⟨s₁, -, hs₁⟩ := h₀.steps h₁
  obtain ⟨s₂, hle, hs₂⟩ := hs₁.steps h₂
  refine leader_unique hs₁.inv hs₂.inv hle (hs₁.leader ha hla) (hs₂.leader hb hlb) ?_
  rw [hs₁.term ha, hs₂.term hb, hterm]

/-- A cluster of three voters. -/
def trio (preVote : Bool) : Setup where
  voters := [1, 2, 3]
  bootstrap := .config []
  config _ :=
    { id := 0, electionTick := 10, heartbeatTick := 1, maxSizePerMsg := 1024, maxInflightMsgs := 8
      preVote := preVote }

/-- The nodes of the three start. -/
theorem trio_fresh (preVote : Bool) : (trio preVote).fresh.Fresh (trio preVote) :=
  Setup.fresh_spec (by cases preVote <;> decide +kernel)

/-- The three nodes after the first one won a poll and then the election. -/
def trioElected : Cluster :=
  (trio true).fresh.after (trio true) Event.Clean
    [campaignAt 1, deliverAt 0, deliverAt 2, deliverAt 3, deliverAt 5]

/-- The first of three nodes leads, alone. -/
theorem election_safety_trio : (trioElected.nodes 1).raft.state = .leader ∧ (1 : ℕ) = 1 := by
  have hlead : (trioElected.nodes 1).raft.state = .leader := by decide +kernel
  have hrun : Cluster.Run (trio true) Event.Clean (trio true).fresh trioElected :=
    Cluster.run_after (by decide +kernel)
  exact ⟨hlead, election_safety (trio_fresh true) hrun Relation.ReflTransGen.refl (by decide)
    (by decide) hlead hlead rfl⟩

/-- The events of the runs that elections are about: ticks, requests to campaign, and deliveries. -/
def Event.Electing (_ : Cluster) : Event → Prop
  | .tick _ | .deliver _ => True
  | .input _ m => m.type = .msgHup
  | .persist _ => False

instance (c : Cluster) (e : Event) : Decidable (e.Electing c) :=
  match e with
  | .tick _ | .deliver _ => .isTrue trivial
  | .input _ m => inferInstanceAs (Decidable (m.type = .msgHup))
  | .persist _ => .isFalse id

/-- Two nodes that poll at the same time, and are told by each other and by the third to go ahead, count
the first answer as the end of the poll and the second one as a vote. Both lead. -/
theorem two_leaders : ¬ ∀ (S : Setup) (c₀ c₁ c₂ : Cluster) (a b : ℕ), c₀.Fresh S →
    Cluster.Run S Event.Electing c₀ c₁ → Cluster.Run S Event.Electing c₁ c₂ → a ∈ S.members →
    b ∈ S.members → (c₁.nodes a).raft.state = .leader → (c₂.nodes b).raft.state = .leader →
    (c₁.nodes a).raft.term = (c₂.nodes b).raft.term → a = b := by
  intro h
  have h12 : (1 : ℕ) = 2 :=
    h (trio true) _ ((trio true).fresh.after (trio true) Event.Electing
        [campaignAt 1, campaignAt 2, deliverAt 0, deliverAt 1, deliverAt 2, deliverAt 3,
          deliverAt 4, deliverAt 5, deliverAt 6, deliverAt 7]) _ 1 2 (trio_fresh true)
      (Cluster.run_after (by decide +kernel)) Relation.ReflTransGen.refl (by decide) (by decide)
      (by decide +kernel) (by decide +kernel) (by decide +kernel)
  exact absurd h12 (by decide)

/-! ## Without pre-votes -/

/-- The three nodes after the first one was elected and its first entry was committed by two. -/
def trioCommitted : Cluster :=
  (trio false).fresh.after (trio false) Event.Any
    [campaignAt 1, deliverAt 0, deliverAt 2, deliverAt 3, deliverAt 5, deliverAt 6]

/-- The three nodes after the third one was elected as well. -/
def trioReelected : Cluster :=
  trioCommitted.after (trio false) Event.Any [campaignAt 3, deliverAt 9, deliverAt 10]

/-- The three nodes get to the first of the two states. -/
theorem trioCommitted_run : Cluster.Run (trio false) Event.Any (trio false).fresh trioCommitted :=
  Cluster.run_after (by decide +kernel)

/-- The three nodes get from the first of the two states to the second. -/
theorem trioReelected_run : Cluster.Run (trio false) Event.Any trioCommitted trioReelected :=
  Cluster.run_after (by decide +kernel)

/-- The three nodes do not poll. -/
theorem trio_noPreVote : (trio false).NoPreVote := fun _ _ => rfl

/-- State-machine safety: where two nodes have committed, at the same time or one after the other, they
hold the same entries. -/
theorem state_machine_safety (hfresh : c₀.Fresh S) (hpre : S.NoPreVote)
    (h₁ : Cluster.Run S Event.Any c₀ c₁) (h₂ : Cluster.Run S Event.Any c₁ c₂) {x y : ℕ}
    (hx : x ∈ S.members) (hy : y ∈ S.members) {i : ℕ} (hi : 1 ≤ i)
    (hcx : i ≤ (c₁.nodes x).raft.raftLog.committed)
    (hcy : i ≤ (c₂.nodes y).raft.raftLog.committed) :
    ∃ e, (c₁.nodes x).raft.raftLog.entryAt i = some e ∧
      (c₂.nodes y).raft.raftLog.entryAt i = some e := by
  obtain ⟨G, s₁, s₂, hle, hs₁, hs₂⟩ := hfresh.sim hpre h₁ h₂
  rw [← hs₁.commit hx] at hcx
  rw [← hs₂.commit hy] at hcy
  have hlen := hs₁.inv.commits.commit_le x
  have htake := commit_agree hs₁.inv hs₂.inv hle x y hcx hcy
  rw [hs₁.log hx, hs₂.log hy] at htake
  rw [hs₁.log hx] at hlen
  have hux := (hs₁.node x hx).uncompacted
  have huy := (hs₂.node y hy).uncompacted
  obtain ⟨j, rfl⟩ : ∃ j, i = j + 1 := ⟨i - 1, by omega⟩
  have hj : j < (c₁.nodes x).raft.raftLog.toList.length := by omega
  have hex := hux.entryAt_succ j
  rw [List.getElem?_eq_getElem hj] at hex
  exact ⟨_, hex, (hux.entryAt_eq huy htake (Nat.le_refl _)).symm.trans hex⟩

/-- The first and the third of three nodes agree on the first entry. -/
theorem state_machine_safety_trio : ∃ e, (trioCommitted.nodes 1).raft.raftLog.entryAt 1 = some e ∧
    (trioReelected.nodes 3).raft.raftLog.entryAt 1 = some e :=
  state_machine_safety (trio_fresh false) trio_noPreVote trioCommitted_run trioReelected_run
    (by decide) (by decide) (Nat.le_refl 1) (by decide +kernel) (by decide +kernel)

/-- Leader completeness: an entry that a node, be it the leader, has committed in a term is held by
whoever leads a later term, before or after in the run. -/
theorem leader_completeness (hfresh : c₀.Fresh S) (hpre : S.NoPreVote)
    (h : Cluster.Run S Event.Any c₀ c) (h' : Cluster.Run S Event.Any c₀ c')
    (hrun : Cluster.Run S Event.Any c c' ∨ Cluster.Run S Event.Any c' c) {a b : ℕ}
    (ha : a ∈ S.members) (hb : b ∈ S.members)
    (hlb : (c'.nodes b).raft.state = .leader)
    (hterm : (c.nodes a).raft.term < (c'.nodes b).raft.term) {i : ℕ} {e : Entry}
    (hi : i ≤ (c.nodes a).raft.raftLog.committed)
    (he : (c.nodes a).raft.raftLog.entryAt i = some e) :
    (c'.nodes b).raft.raftLog.entryAt i = some e := by
  have hsim : ∃ G s s', (Le s s' ∨ Le s' s) ∧ ClusterSim S G s c ∧ ClusterSim S G s' c' := by
    rcases hrun with hrun | hrun
    · obtain ⟨G, s, s', hle, hs, hs'⟩ := hfresh.sim hpre h hrun
      exact ⟨G, s, s', Or.inl hle, hs, hs'⟩
    · obtain ⟨G, s', s, hle, hs', hs⟩ := hfresh.sim hpre h' hrun
      exact ⟨G, s, s', Or.inr hle, hs, hs'⟩
  obtain ⟨G, s, s', hle, hs, hs'⟩ := hsim
  rw [← hs.term ha, ← hs'.term hb] at hterm
  have hp := leader_complete hs.inv hs'.inv hle (hs.inv.commits.committed a) (hs'.leader hb hlb) hterm
  rw [hs.log ha, hs'.log hb, hs.commit ha] at hp
  exact (hs.node a ha).uncompacted.entryAt_of_isPrefix (hs'.node b hb).uncompacted hp hi he

/-- The third of three nodes holds the entry that the first one has committed. -/
theorem leader_completeness_trio : (trioReelected.nodes 3).raft.raftLog.entryAt 1 =
    some { type := .entryNormal, term := 1, index := 1 } :=
  leader_completeness (a := 1) (trio_fresh false) trio_noPreVote trioCommitted_run
    (trioCommitted_run.trans trioReelected_run) (Or.inl trioReelected_run) (by decide) (by decide)
    (by decide +kernel) (by decide +kernel) (by decide +kernel) (by decide +kernel)

/-- Log matching: two logs that hold an entry of the same term at an index are identical up to there;
and a leader keeps its own entries as long as it leads its term. -/
theorem log_matching (hfresh : c₀.Fresh S) (hpre : S.NoPreVote)
    (h₁ : Cluster.Run S Event.Any c₀ c₁) (h₂ : Cluster.Run S Event.Any c₁ c₂) {x : ℕ}
    (hx : x ∈ S.members) :
    (∀ y ∈ S.members, ∀ i e e', (c₁.nodes x).raft.raftLog.entryAt i = some e →
      (c₁.nodes y).raft.raftLog.entryAt i = some e' → e.term = e'.term →
      ∀ j ≤ i, (c₁.nodes x).raft.raftLog.entryAt j = (c₁.nodes y).raft.raftLog.entryAt j) ∧
    ((c₁.nodes x).raft.state = .leader → (c₂.nodes x).raft.state = .leader →
      (c₁.nodes x).raft.term = (c₂.nodes x).raft.term →
      ∀ i e, (c₁.nodes x).raft.raftLog.entryAt i = some e →
        (c₂.nodes x).raft.raftLog.entryAt i = some e) := by
  obtain ⟨G, s₁, s₂, hle, hs₁, hs₂⟩ := hfresh.sim hpre h₁ h₂
  have hux := (hs₁.node x hx).uncompacted
  refine ⟨fun y hy i e e' he he' hterm j hj => ?_, fun hl hl' hterm i e he => ?_⟩
  · have huy := (hs₁.node y hy).uncompacted
    obtain ⟨-, hix, htx⟩ := hux.termAt_of_entryAt he
    obtain ⟨-, hiy, hty⟩ := huy.termAt_of_entryAt he'
    refine hux.entryAt_eq huy ?_ hj
    rw [← hs₁.log hx] at hix htx ⊢
    rw [← hs₁.log hy] at hiy hty ⊢
    exact (hs₁.inv.logs.matching_log x).take_eq (hs₁.inv.logs.matching_log y) hix hiy
      (htx.trans (hterm.trans hty.symm))
  · have hux' := (hs₂.node x hx).uncompacted
    have hp := leader_append_only hs₁.inv hs₂.inv hle (hs₁.leader hx hl) (hs₂.leader hx hl')
      (by rw [hs₁.term hx, hs₂.term hx, hterm])
    rw [hs₁.log hx, hs₂.log hx] at hp
    refine hux.entryAt_of_isPrefix hux' ?_ (hux.termAt_of_entryAt he).2.1 he
    rwa [List.take_length]

/-- The logs of the first and the third of three nodes match. -/
theorem log_matching_trio : (trioCommitted.nodes 1).raft.raftLog.entryAt 1 =
    (trioCommitted.nodes 3).raft.raftLog.entryAt 1 :=
  (log_matching (trio_fresh false) trio_noPreVote trioCommitted_run trioReelected_run (x := 1)
    (by decide)).1 3 (by decide) 1 { type := .entryNormal, term := 1, index := 1 }
    { type := .entryNormal, term := 1, index := 1 } (by decide +kernel) (by decide +kernel) rfl 1
    (Nat.le_refl 1)

/-- No fatal log condition: whatever happens next in a run, the node that it happens at is not told to
commit or to overwrite what does not fit its log, and does not read beyond its unstable entries. -/
theorem no_log_failure (hfresh : c₀.Fresh S) (hpre : S.NoPreVote)
    (hrun : Cluster.Run S Event.Any c₀ c) {e : Event} (hen : e.Enabled S c) :
    ∀ err, c.exec e = .error err → ¬ err.OfLog := by
  have h₀ : ClusterSim S (S.group false) _ c₀ := ClusterSim.fresh hfresh fun i hi hp => by
    rw [hpre i hi] at hp
    exact hp
  obtain ⟨s, -, hs⟩ := h₀.steps_any rfl hrun
  have hsafe : LogSafe (c.exec e) fun _ => True :=
    Secures.bind (hs.run hen (hs.clean rfl hen)) fun _ _ => Secures.pure trivial
  exact hsafe.avoids

/-- An empty proposal to the leader of three nodes stops it, but not for its log. -/
theorem no_log_failure_trio :
    (trioCommitted.exec (.input 1 { type := .msgProp })).toBool = false ∧
      ∀ err, trioCommitted.exec (.input 1 { type := .msgProp }) = .error err → ¬ err.OfLog := by
  constructor
  · decide +kernel
  · exact no_log_failure (trio_fresh false) trio_noPreVote trioCommitted_run (by decide)

end RaftCpp
