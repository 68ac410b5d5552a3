import RaftCpp.Raft.PendingConf

/-!
# Dropped proposals

A leader refuses a proposal at four points. At the last of them, where the entries are too large, the index of
the pending configuration change has already moved to the proposal that is refused.
-/

namespace RaftCpp

open Outcome

namespace Raft

variable {r r' : Raft} {m : Message} {es : List Entry}

/-! ## The proposed entries -/

/-- The entries but for all configuration changes after the first one. -/
def firstConf : List Entry → List Entry
  | [] => []
  | e :: es => if e.type = .entryConfChange then e :: es.filter (·.type ≠ .entryConfChange)
      else e :: firstConf es

section Filter

variable (applied lastIndex : ℕ) {p : ℕ}

/-- While a change is pending, the index stays, and all others become empty. -/
theorem filterConfChanges_pending (hpending : applied < p) : ∀ (i : ℕ) (es : List Entry),
    (filterConfChanges applied lastIndex i p es).1 = p ∧
      payloadTotal (filterConfChanges applied lastIndex i p es).2 =
        payloadTotal (es.filter (·.type ≠ .entryConfChange))
  | _, [] => ⟨rfl, rfl⟩
  | i, e :: es => by
    obtain ⟨hindex, htotal⟩ := filterConfChanges_pending hpending (i + 1) es
    unfold filterConfChanges
    by_cases hconf : e.type = .entryConfChange
    · rw [if_pos hconf, if_pos hpending]
      refine ⟨hindex, ?_⟩
      have hskip : (e :: es).filter (·.type ≠ .entryConfChange) = es.filter (·.type ≠ .entryConfChange) :=
        List.filter_cons_of_neg (by simpa using hconf)
      rw [hskip, ← htotal]
      simp [payloadTotal]
    · rw [if_neg hconf]
      refine ⟨hindex, ?_⟩
      have hkeep : (e :: es).filter (·.type ≠ .entryConfChange) =
          e :: es.filter (·.type ≠ .entryConfChange) := List.filter_cons_of_pos (by simpa using hconf)
      rw [hkeep]
      exact congrArg (e.data.length + ·) htotal

/-- Otherwise the first change is kept, and the index moves to it. -/
theorem filterConfChanges_clear (hclear : p ≤ applied) (happ : applied ≤ lastIndex) :
    ∀ (i : ℕ) (es : List Entry),
      ((filterConfChanges applied lastIndex i p es).1 = p ↔ ∀ e ∈ es, e.type ≠ .entryConfChange) ∧
        payloadTotal (filterConfChanges applied lastIndex i p es).2 = payloadTotal (firstConf es)
  | _, [] => ⟨⟨nofun, fun _ => rfl⟩, rfl⟩
  | i, e :: es => by
    unfold filterConfChanges firstConf
    by_cases hconf : e.type = .entryConfChange
    · -- From here on the index is above what is applied.
      obtain ⟨hindex, htotal⟩ := filterConfChanges_pending applied lastIndex
        (p := lastIndex + i + 1) (by omega) (i + 1) es
      rw [if_pos hconf, if_neg (by omega), if_pos hconf]
      refine ⟨⟨fun h => ?_, fun h => absurd hconf (h e List.mem_cons_self)⟩,
        congrArg (e.data.length + ·) htotal⟩
      have hmoved : lastIndex + i + 1 = p := hindex.symm.trans h
      omega
    · obtain ⟨hindex, htotal⟩ := filterConfChanges_clear hclear happ (i + 1) es
      rw [if_neg hconf, if_neg hconf, List.forall_mem_cons, and_iff_right hconf]
      exact ⟨hindex, congrArg (e.data.length + ·) htotal⟩

end Filter

/-! ## The proposal -/

/-- Entries of this total length are refused: with those that are not committed they are too large. -/
def Exceeds (r : Raft) (n : ℕ) : Prop :=
  0 < r.uncommittedSize ∧ r.maxUncommittedSize < r.uncommittedSize + n % 2^32

instance (r : Raft) (n : ℕ) : Decidable (r.Exceeds n) := inferInstanceAs (Decidable (_ ∧ _))

/-- Whether the size is refused. -/
theorem increaseUncommittedSize_eq_none (r : Raft) (es : List Entry) :
    r.increaseUncommittedSize es = none ↔ r.Exceeds (payloadTotal es) := by
  unfold increaseUncommittedSize Exceeds
  dsimp only
  rw [payloadSum_eq]
  split_ifs with hlimit
  · exact iff_of_true rfl hlimit
  · exact iff_of_false nofun hlimit

/-- What exceeds the limit is not appended, and nothing changes. -/
theorem appendEntry_of_exceeds (h : r.Exceeds (payloadTotal es)) : r.appendEntry es = .ok (false, r) := by
  unfold appendEntry
  dsimp only
  rw [(increaseUncommittedSize_eq_none r _).mpr (by rwa [payloadTotal_stampEntries])]
  rfl

/-- Everything else is appended. -/
theorem appendEntry_of_not_exceeds (h : ¬r.Exceeds (payloadTotal es)) :
    Ensures (r.appendEntry es) fun p => p.1 = true := by
  unfold appendEntry
  dsimp only
  cases hinc : r.increaseUncommittedSize (stampEntries r.term (r.raftLog.lastIndex + 1) es) with
  | none =>
    have hex := (increaseUncommittedSize_eq_none r _).mp hinc
    rw [payloadTotal_stampEntries] at hex
    exact absurd hex h
  | some r₁ =>
    exact Ensures.bind Ensures.any fun _ _ => Ensures.bind Ensures.any fun _ _ =>
      Ensures.bind Ensures.any fun _ _ => Ensures.pure rfl

/-- The log with its commit index, the bookkeeping of the leader, every progress and the messages are as
before. -/
structure Untouched (r r' : Raft) : Prop where
  raftLog : r'.raftLog = r.raftLog
  pendingConfIndex : r'.pendingConfIndex = r.pendingConfIndex
  uncommittedSize : r'.uncommittedSize = r.uncommittedSize
  prs : r'.prs = r.prs
  learnerPrs : r'.learnerPrs = r.learnerPrs
  msgs : r'.msgs = r.msgs

/-- Nothing changes if nothing is done. -/
theorem Untouched.refl : Untouched r r := ⟨rfl, rfl, rfl, rfl, rfl, rfl⟩

/-- The entries hold a configuration change that the leader would accept, and are too large. -/
def LeavesTrace (r : Raft) (es : List Entry) : Prop :=
  r.id ∈ r.prs ∧ r.leadTransferee = 0 ∧ r.pendingConfIndex ≤ r.raftLog.applied ∧
    (∃ e ∈ es, e.type = .entryConfChange) ∧ r.Exceeds (payloadTotal (firstConf es))

instance (r : Raft) (es : List Entry) : Decidable (r.LeavesTrace es) :=
  inferInstanceAs (Decidable (_ ∧ _))

/-- The loop of a leader over the entries of a proposal. -/
def filtered (r : Raft) (es : List Entry) : ℕ × List Entry :=
  filterConfChanges r.raftLog.applied r.raftLog.lastIndex 0 r.pendingConfIndex es

/-- The index that the loop sets differs from the old one exactly when a change is accepted. -/
theorem filtered_moves (es : List Entry) (happ : r.raftLog.applied ≤ r.raftLog.lastIndex) :
    ((r.filtered es).1 ≠ r.pendingConfIndex ↔
      r.pendingConfIndex ≤ r.raftLog.applied ∧ ∃ e ∈ es, e.type = .entryConfChange) ∧
    (r.pendingConfIndex ≤ r.raftLog.applied →
      payloadTotal (r.filtered es).2 = payloadTotal (firstConf es)) := by
  obtain hpending | hclear := Nat.lt_or_ge r.raftLog.applied r.pendingConfIndex
  · obtain ⟨hindex, -⟩ := filterConfChanges_pending _ r.raftLog.lastIndex hpending 0 es
    exact ⟨iff_of_false (fun h => h hindex) fun h => absurd h.1 (Nat.not_le.mpr hpending),
      fun h => absurd h (Nat.not_le.mpr hpending)⟩
  · obtain ⟨hindex, htotal⟩ := filterConfChanges_clear _ _ hclear happ 0 es
    refine ⟨?_, fun _ => htotal⟩
    rw [and_iff_right hclear]
    refine (not_congr hindex).trans ?_
    simp only [not_forall, not_not, exists_prop]

/-- A proposal that a leader drops is dropped without a trace, unless the loop has moved the index before the
size is found to be too large. -/
theorem stepLeaderProp_dropped (happ : r.raftLog.applied ≤ r.raftLog.lastIndex) :
    (Ensures (r.stepLeaderProp m) fun p => p.1 ≠ .ok → Untouched r p.2) ↔ ¬r.LeavesTrace m.entries := by
  unfold stepLeaderProp
  by_cases hempty : m.entries = []
  · rw [if_pos hempty]
    refine iff_of_true Ensures.error ?_
    rintro ⟨-, -, -, ⟨e, he, -⟩, -⟩
    rw [hempty] at he
    exact absurd he List.not_mem_nil
  by_cases hmember : r.id ∈ r.prs
  swap
  · rw [if_neg hempty, if_pos hmember]
    exact iff_of_true (Ensures.pure fun _ => Untouched.refl) fun h => hmember h.1
  by_cases htransfer : r.leadTransferee = 0
  swap
  · rw [if_neg hempty, if_neg (not_not.mpr hmember), if_pos htransfer]
    exact iff_of_true (Ensures.pure fun _ => Untouched.refl) fun h => htransfer h.2.1
  rw [if_neg hempty, if_neg (not_not.mpr hmember), if_neg (not_not.mpr htransfer)]
  obtain ⟨hmoves, htotal⟩ := filtered_moves m.entries happ
  generalize hpair : r.filtered m.entries = pair at hmoves htotal
  obtain ⟨n, es⟩ := pair
  unfold filtered at hpair
  rw [hpair]
  dsimp only at hmoves htotal ⊢
  by_cases hex : r.Exceeds (payloadTotal es)
  · -- The proposal is refused, and what the loop has set stays.
    rw [appendEntry_of_exceeds (r := { r with pendingConfIndex := n }) hex]
    have hdrop : (Ensures (Except.ok (proposalDropped, ({ r with pendingConfIndex := n } : Raft)) :
        Result (Status × Raft)) fun p => p.1 ≠ .ok → Untouched r p.2) ↔ n = r.pendingConfIndex := by
      constructor
      · intro h
        exact (h _ rfl nofun).pendingConfIndex
      · intro hn
        exact Ensures.ok fun _ => ⟨rfl, hn, rfl, rfl, rfl, rfl⟩
    refine hdrop.trans (not_iff_not.mp ?_)
    rw [not_not, ← ne_eq, hmoves]
    constructor
    · rintro ⟨hclear, hconf⟩
      rw [htotal hclear] at hex
      exact ⟨hmember, htransfer, hclear, hconf, hex⟩
    · rintro ⟨-, -, hclear, hconf, -⟩
      exact ⟨hclear, hconf⟩
  · -- The proposal is accepted.
    refine iff_of_true ?_ ?_
    · refine Ensures.bind (appendEntry_of_not_exceeds hex) fun p hp => ?_
      rw [hp]
      exact Ensures.bind Ensures.any fun _ _ => Ensures.pure fun h => absurd rfl h
    · rintro ⟨-, -, hclear, -, hex'⟩
      rw [← htotal hclear] at hex'
      exact hex hex'

/-- The bookkeeping of the leader is what a reset leaves. -/
def Fresh (r : Raft) : Prop :=
  r.pendingConfIndex = 0 ∧ r.uncommittedSize = 0 ∧ r.prs.mapVal r.freshProgress = r.prs ∧
    r.learnerPrs.mapVal r.freshProgress = r.learnerPrs

/-- A proposal of a higher term is dropped by a follower that has forgotten its bookkeeping. -/
theorem step_prop_higher (htype : m.type = .msgProp) (hterm : r.term < m.term) :
    r.step m = .ok (proposalDropped, r.becomeFollower m.term 0) := by
  have hlease : r.inLease m = false := by
    unfold inLease
    rw [htype]
    rfl
  have hnext : r.stepHigherTerm m = .ok (r.becomeFollower m.term 0) := by
    unfold stepHigherTerm
    rw [htype]
    rfl
  have hbody : (r.becomeFollower m.term 0).stepBody m =
      .ok (proposalDropped, r.becomeFollower m.term 0) := by
    unfold stepBody stepRole stepFollower
    rw [htype]
    rfl
  unfold step
  rw [if_neg (Nat.ne_of_gt (Nat.zero_lt_of_lt hterm)), if_pos hterm, hlease, hnext]
  exact hbody

/-- That leaves no trace only if there was nothing to forget. -/
theorem untouched_becomeFollower (t : ℕ) : Untouched r (r.becomeFollower t 0) ↔ r.Fresh := by
  have hlog : (r.becomeFollower t 0).raftLog = r.raftLog := reset_raftLog r t
  have hprs : (r.becomeFollower t 0).prs = r.prs.mapVal r.freshProgress := by
    unfold becomeFollower reset
    split <;> rfl
  have hlearners : (r.becomeFollower t 0).learnerPrs = r.learnerPrs.mapVal r.freshProgress := by
    unfold becomeFollower reset
    split <;> rfl
  have hmsgs : (r.becomeFollower t 0).msgs = r.msgs := by
    unfold becomeFollower reset
    split <;> rfl
  constructor
  · intro h
    exact ⟨h.pendingConfIndex.symm, h.uncommittedSize.symm, hprs.symm.trans h.prs,
      hlearners.symm.trans h.learnerPrs⟩
  · rintro ⟨hpending, hsize, hfresh, hfresh'⟩
    exact ⟨hlog, hpending.symm, hsize.symm, hprs.trans hfresh, hlearners.trans hfresh', hmsgs⟩

/-- Otherwise the leader takes the proposal itself. -/
theorem step_prop_own (hl : r.state = .leader) (htype : m.type = .msgProp)
    (hterm : m.term = 0 ∨ m.term = r.term) : r.step m = r.stepLeaderProp m := by
  have hbody : r.stepBody m = r.stepLeaderProp m := by
    unfold stepBody stepRole stepLeader
    rw [htype, hl]
  unfold step
  obtain hzero | hown := hterm
  · rw [if_pos hzero, hbody]
  · rw [hown, if_neg (Nat.lt_irrefl r.term), if_neg (Nat.lt_irrefl r.term), hbody, ite_self]

/-- A message of a lower term is no failure. -/
theorem step_lower_ok (hzero : m.term ≠ 0) (hterm : m.term < r.term) :
    Ensures (r.step m) fun p => p.1 = .ok := by
  unfold step
  rw [if_neg hzero, if_neg (Nat.lt_asymm hterm), if_pos hterm]
  exact Ensures.bind Ensures.any fun _ _ => Ensures.pure rfl

end Raft

/-- A leader drops a proposal without a trace if and only if no change that it would accept makes the entries
too large, and it stays the leader or has no bookkeeping to lose. -/
theorem dropped_proposal_iff {r : Raft} {m : Message} (hl : r.state = .leader) (htype : m.type = .msgProp)
    (happ : r.raftLog.applied ≤ r.raftLog.lastIndex) :
    (Ensures (r.step m) fun p => p.1 ≠ .ok → r.Untouched p.2) ↔
      (m.term = 0 ∨ m.term = r.term → ¬r.LeavesTrace m.entries) ∧ (r.term < m.term → r.Fresh) := by
  by_cases hown : m.term = 0 ∨ m.term = r.term
  · have hnot : ¬r.term < m.term := by omega
    rw [Raft.step_prop_own hl htype hown, Raft.stepLeaderProp_dropped happ]
    exact ⟨fun h => ⟨fun _ => h, fun h' => absurd h' hnot⟩, fun h => h.1 hown⟩
  obtain hlower | hhigher : m.term < r.term ∨ r.term < m.term := by omega
  · refine iff_of_true ?_ ⟨fun h => absurd h hown, fun h => absurd h (Nat.lt_asymm hlower)⟩
    refine (Raft.step_lower_ok (fun h => hown (Or.inl h)) hlower).mono fun p hp hne => ?_
    exact absurd hp hne
  · rw [Raft.step_prop_higher htype hhigher]
    constructor
    · intro h
      exact ⟨fun h' => absurd h' hown, fun _ => (Raft.untouched_becomeFollower _).mp (h _ rfl nofun)⟩
    · intro h
      exact Ensures.ok fun _ => (Raft.untouched_becomeFollower _).mpr (h.2 hhigher)

/-- A voter that is alone, with room for one byte that is not committed. -/
def tightConfig : Config := { soloConfig with maxUncommittedEntriesSize := 1 }

/-- It is elected and gets a byte. -/
def leadsWithByte : Raft :=
  (Trace.run Host.handle (Host.started tightConfig)
    [.call { type := .msgHup }, .ready, .persist, .advance,
      .call { type := .msgProp, fromId := 1, entries := [{ data := [1] }] }]).2.node.raft

/-- The proposal of another byte. -/
def byteProposal : Message := { type := .msgProp, fromId := 1, entries := [{ data := [2] }] }

/-- The same with a configuration change after it. -/
def byteConfProposal : Message :=
  { byteProposal with entries := [{ data := [2] }, { type := .entryConfChange, data := [3] }] }

/-- The second byte is dropped without a trace. -/
theorem dropped_proposal_iff_byte :
    Returns (leadsWithByte.step byteProposal) (fun p => p.1 = Raft.proposalDropped) ∧
      Ensures (leadsWithByte.step byteProposal) fun p => p.1 ≠ .ok → leadsWithByte.Untouched p.2 :=
  ⟨by decide +kernel, (dropped_proposal_iff (by decide +kernel) rfl (by decide +kernel)).mpr
    ⟨fun _ => by decide +kernel, fun h => absurd h (Nat.not_lt_zero _)⟩⟩

/-- With the configuration change it is dropped too, but then the leader waits for that change. -/
theorem dropped_proposal_pends : ¬∀ (r : Raft) (m : Message), r.state = .leader → m.type = .msgProp →
    Ensures (r.step m) fun p => p.1 ≠ .ok → r.Untouched p.2 := by
  intro hall
  have hstep : Returns (leadsWithByte.step byteConfProposal) fun p =>
      p.1 = Raft.proposalDropped ∧ p.2.pendingConfIndex ≠ leadsWithByte.pendingConfIndex := by decide +kernel
  obtain ⟨p, hp, hdropped, hmoved⟩ := hstep
  have hne : p.1 ≠ .ok := by
    rw [hdropped]
    nofun
  exact hmoved (hall _ _ (by decide +kernel) rfl p hp hne).pendingConfIndex

end RaftCpp
