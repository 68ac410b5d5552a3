import RaftCpp.Library.AssocMap
import RaftCpp.Raft.Leader
import RaftCpp.Replication.Following

/-!
# Leading

What a leader does is simulated: its append messages and heartbeats tell what the history contains, it
commits what a quorum acknowledged, and a candidate that has the votes of a quorum is elected and
appends an empty entry.
-/

namespace RaftCpp

open Consensus Outcome

variable {G : Group} {s s' : History} {r r' : Raft} {i : ℕ}

/-- A node that is related to the history and leads. -/
structure Leads (G : Group) (s : History) (i : ℕ) (r : Raft) : Prop where
  /-- The relation. -/
  sim : Sim G s r
  /-- The node. -/
  id : r.id = i
  /-- The role. -/
  state : r.state = .leader

/-- A leading node is reached by steps of the node in the protocol. -/
def LeadsOn (G : Group) (s : History) (i : ℕ) (r' : Raft) : Prop :=
  ∃ s', Moves G.setting i s s' ∧ Leads G s' i r'

/-- A leading node is reached without a step. -/
theorem Leads.leadsOn (h : Leads G s i r) : LeadsOn G s i r := ⟨s, Relation.ReflTransGen.refl, h⟩

/-- Steps before the ones that a computation takes. -/
theorem LeadsOn.after (h : LeadsOn G s' i r') (hm : Moves G.setting i s s') : LeadsOn G s i r' := by
  obtain ⟨s'', hm', hl⟩ := h
  exact ⟨s'', hm.trans hm', hl⟩

/-- A leading node is in particular a node. -/
theorem LeadsOn.refines (h : LeadsOn G s i r') : Refines G s i r' := by
  obtain ⟨s', hm, hl⟩ := h
  exact ⟨hl.id, s', hm, hl.sim⟩

namespace Leads

/-- A change outside of what safety is about. -/
theorem congr (h : Leads G s i r) (hcore : r'.core = r.core) : Leads G s i r' where
  sim := h.sim.congr hcore
  id := (congrArg Raft.id hcore).trans h.id
  state := (congrArg Raft.state hcore).trans h.state

/-- The index of a pending configuration change does not matter. -/
theorem pendingConfIndex (h : Leads G s i r) (n : ℕ) :
    Leads G s i { r with pendingConfIndex := n } := h.congr rfl

/-- The leader's log is the log of its term, which is not the first. -/
theorem leaderLog (h : Leads G s i r) :
    s.leaderLog r.term = some r.raftLog.toList ∧ s.leader r.term = some r.id ∧ r.term ≠ 0 := by
  have hn := h.sim.node
  have hrole : s.role r.id = .leader := by rw [hn.role, h.state]; rfl
  obtain ⟨hl, hlog⟩ := h.sim.inv.elections.leader r.id hrole
  have hpos := (h.sim.inv.elections.leader_self hl).2.1
  rw [hn.term] at hl hlog hpos
  rw [hn.log] at hlog
  exact ⟨hlog, hl, by omega⟩

/-- What the leader has committed. -/
theorem committed (h : Leads G s i r) : r.raftLog.committed ≤ r.raftLog.toList.length ∧
    Committed G.setting s r.term (r.raftLog.toList.take r.raftLog.committed) := by
  have hn := h.sim.node
  have hle := h.sim.inv.commits.commit_le r.id
  have hc := h.sim.inv.commits.committed r.id
  rw [hn.log, hn.commit] at hle hc
  rw [hn.term] at hc
  exact ⟨hle, hc⟩

end Leads

/-! ## The progress of the peers -/

namespace Raft

/-- Writing a progress keeps the voters. -/
theorem mem_putProgress (r : Raft) (y z : ℕ) (p : Progress) :
    z ∈ (r.putProgress y p).prs ↔ z ∈ r.prs := by
  unfold putProgress
  split_ifs with h1 h2
  · simp only [AList.mem_insert]
    constructor
    · rintro (rfl | h)
      · exact h1
      · exact h
    · exact Or.inr
  · rfl
  · rfl

end Raft

/-- Writing a progress that says no more than the history keeps the relation. -/
theorem Leads.putProgress (h : Leads G s i r) {y : ℕ} {p : Progress} (hp : ProgressOK s r y p) :
    Leads G s i (r.putProgress y p) := by
  obtain ⟨prs, learnerPrs, heq⟩ := r.putProgress_eq y p
  have hmem := fun z => r.mem_putProgress y z p
  have hget := fun z q => @Raft.getProgress_putProgress r y z p q
  have hn := h.sim.node
  rw [heq] at hget hmem ⊢
  refine ⟨⟨h.sim.inv, h.sim.indexed, ?_⟩, h.id, h.state⟩
  refine ⟨hn.id_ne, fun z => (hmem z).trans (hn.voters z), hn.voter, hn.preVote, hn.uncompacted,
    hn.term, hn.role, hn.log, hn.commit, hn.vote, hn.votes, fun _ z q hq => ?_, hn.msgs⟩
  rcases hget z q hq with ⟨rfl, rfl⟩ | hq
  · exact ⟨hp.next_pos, hp.next_le, hp.matched_le, hp.no_snapshot⟩
  · obtain ⟨h1, h2, h3, h4⟩ := hn.progress h.state z q hq
    exact ⟨h1, h2, h3, h4⟩

/-- An acknowledgement within the log may update the progress. -/
theorem ProgressOK.maybeUpdate {y : ℕ} {p : Progress} (h : ProgressOK s r y p) {n : ℕ}
    (hack : n ≤ s.ack y r.term) (hlen : n ≤ r.raftLog.toList.length) :
    ProgressOK s r y (p.maybeUpdate n).2 := by
  obtain ⟨h1, h2, h3, h4⟩ := h
  obtain ⟨hmatched, hnext, hstate, -⟩ := p.maybeUpdate_spec n
  refine ⟨?_, ?_, ?_, ?_⟩
  · rw [hnext]
    omega
  · rw [hnext]
    omega
  · rw [hmatched]
    omega
  · rw [hstate]
    exact h4

/-! ## Messages to the peers -/

/-- A leader may send what the history supports. -/
theorem Leads.send (h : Leads G s i r) {m : Message}
    (hm : (Raft.isVoteType m.type → m.term ≠ 0) → MessageOK G s (r.stamped m)) :
    LogSafe (r.send m) (Leads G s i) := by
  refine (h.sim.send hm).mono ?_
  rintro r' ⟨hsim, ms, rfl⟩
  exact ⟨hsim, h.id, h.state⟩

/-- The append message of a leader, and the progress after it. -/
theorem Leads.prepareAppend (h : Leads G s i r) {peer : ℕ} {pr : Progress}
    (hpr : ProgressOK s r peer pr) {es : List Entry}
    (hes : es <+: r.raftLog.toList.drop (pr.next - 1)) :
    LogSafe (r.prepareAppend peer pr (termAt Entry.term r.raftLog.toList (pr.next - 1)) es)
      fun p => ProgressOK s r peer p.2 ∧ MessageOK G s (r.stamped p.1) := by
  obtain ⟨hlog, -, hterm⟩ := h.leaderLog
  obtain ⟨hcle, hcom⟩ := h.committed
  have hpos := hpr.next_pos
  have hle := hpr.next_le
  have hm : MessageOK G s (r.stamped {
      toId := peer, type := .msgApp, index := sub64 pr.next 1,
      logTerm := termAt Entry.term r.raftLog.toList (pr.next - 1), entries := es,
      commit := r.raftLog.committed }) := by
    rw [sub64_of_le hpos]
    exact ⟨hterm, _, hlog, Nat.sub_le_iff_le_add.mpr hle, rfl, hes, hcle, hcom⟩
  unfold Raft.prepareAppend
  cases hlast : es.getLast? with
  | none => exact Secures.pure ⟨hpr, hm⟩
  | some e =>
    have hidx : e.index + 1 = pr.next + es.length := by
      have h1 := (h.sim.node.uncompacted.indexed.drop (pr.next - 1)).of_isPrefix hes
      rw [Nat.add_sub_cancel' hpos] at h1
      exact h1.getLast? hlast
    have hlen := hes.length_le
    rw [List.length_drop] at hlen
    cases hst : pr.state with
    | replicate =>
      refine Secures.bind (InFlights.add_safe _ _) fun f _ => ?_
      refine Secures.pure ⟨⟨?_, ?_, hpr.matched_le, hpr.no_snapshot⟩, hm⟩
      · simp only [Progress.optimisticUpdate]
        omega
      · simp only [Progress.optimisticUpdate]
        omega
    | probe => exact Secures.pure ⟨⟨hpos, hle, hpr.matched_le, hpr.no_snapshot⟩, hm⟩
    | snapshot => exact absurd hst hpr.no_snapshot

/-- `maybe_send_append` tells a peer what the leader's log holds; nothing makes it send a snapshot. -/
theorem Leads.maybeSendAppend (h : Leads G s i r) (peer : ℕ) (sendIfEmpty : Bool) :
    LogSafe (r.maybeSendAppend peer sendIfEmpty) fun p => Leads G s i p.2 := by
  unfold Raft.maybeSendAppend
  refine Secures.bind (r.peerProgress_spec peer) fun pr hget => ?_
  have hpr := h.sim.node.progress h.state peer pr hget
  have hpos := hpr.next_pos
  refine Secures.ite (fun _ => Secures.pure h) fun _ => ?_
  refine Secures.bind (RaftLog.entries_spec h.sim.node.uncompacted pr.next r.maxMsgSize) ?_
  rintro ⟨status, es⟩ ⟨hes, hstatus⟩
  dsimp only at hes hstatus ⊢
  refine Secures.ite (fun _ => Secures.pure h) fun _ => ?_
  rw [hstatus hpos, sub64_of_le hpos, h.sim.node.uncompacted.term_eq]
  refine Secures.bind (h.prepareAppend hpr hes) ?_
  rintro ⟨m, pr'⟩ ⟨hpr', hm⟩
  obtain ⟨prs, learnerPrs, heq⟩ := r.putProgress_eq peer pr'
  refine Secures.bind (P := Leads G s i) ?_ fun r' hr' => Secures.pure hr'
  refine (h.putProgress hpr').send fun _ => ?_
  rw [heq]
  exact hm

/-- `send_append` keeps the relation. -/
theorem Leads.sendAppend (h : Leads G s i r) (peer : ℕ) :
    LogSafe (r.sendAppend peer) (Leads G s i) :=
  Secures.bind (h.maybeSendAppend peer true) fun _ hp => Secures.pure hp

/-- So does sending all that there is to send. -/
theorem Leads.sendAppendLoop (peer : ℕ) :
    ∀ (fuel : ℕ) {r : Raft}, Leads G s i r →
      LogSafe (Raft.sendAppendLoop peer fuel r) (Leads G s i)
  | 0, _, _ => Secures.error fun h => h
  | fuel + 1, r, h => by
    unfold Raft.sendAppendLoop
    refine Secures.bind (h.maybeSendAppend peer false) fun p hp => ?_
    exact Secures.ite (fun _ => Leads.sendAppendLoop peer fuel hp) fun _ => Secures.pure hp

/-- A bound on the append messages that the loop still sends to a peer. -/
def Progress.appendsLeft (p : Progress) (lastIndex : ℕ) : ℕ :=
  if p.isPaused then 0
  else
    match p.state with
    | .replicate => lastIndex + 1 - p.next
    | _ => 1

/-- A bound on the append messages that the loop still sends to a peer. -/
def Raft.appendsLeft (r : Raft) (peer : ℕ) : ℕ :=
  match r.getProgress peer with
  | some p => p.appendsLeft r.raftLog.lastIndex
  | none => 0

/-- An append message with entries lowers the bound: a probe pauses the peer, and a replicating peer's
next entry moves on. -/
theorem Leads.appendsLeft_prepareAppend (h : Leads G s i r) {peer : ℕ} {pr : Progress}
    (hpr : ProgressOK s r peer pr) (hpaused : ¬ pr.isPaused) {es : List Entry} (hne : es ≠ [])
    (hes : es <+: r.raftLog.toList.drop (pr.next - 1)) (term : ℕ) :
    LogSafe (r.prepareAppend peer pr term es) fun p =>
      p.2.appendsLeft r.raftLog.lastIndex < pr.appendsLeft r.raftLog.lastIndex := by
  have hpos := hpr.next_pos
  have hlen := hes.length_le
  rw [List.length_drop] at hlen
  have hespos := List.length_pos_iff.mpr hne
  unfold Raft.prepareAppend
  rw [List.getLast?_eq_some_getLast hne]
  have hidx : (es.getLast hne).index + 1 = pr.next + es.length := by
    have h1 := (h.sim.node.uncompacted.indexed.drop (pr.next - 1)).of_isPrefix hes
    rw [Nat.add_sub_cancel' hpos] at h1
    exact h1.getLast? (List.getLast?_eq_some_getLast hne)
  have hlast := h.sim.node.uncompacted.lastIndex_eq
  rw [hlast]
  have hleft : pr.appendsLeft r.raftLog.toList.length =
      match pr.state with
      | .replicate => r.raftLog.toList.length + 1 - pr.next
      | _ => 1 := if_neg hpaused
  cases hst : pr.state with
  | replicate =>
    rw [hst] at hleft
    refine Secures.bind (InFlights.add_safe _ _) fun f _ => Secures.pure ?_
    simp only [Progress.appendsLeft, Progress.optimisticUpdate, hst] at hleft ⊢
    split_ifs <;> omega
  | probe =>
    rw [hst] at hleft
    refine Secures.pure ?_
    rw [hleft]
    simp [Progress.appendsLeft, Progress.isPaused, Progress.setPause, hst]
  | snapshot => exact absurd hst hpr.no_snapshot

/-- So does every message that the loop sends. -/
theorem Leads.appendsLeft_maybeSendAppend (h : Leads G s i r) (peer : ℕ) :
    LogSafe (r.maybeSendAppend peer false) fun p =>
      p.1 = true → p.2.appendsLeft peer < r.appendsLeft peer := by
  unfold Raft.maybeSendAppend
  refine Secures.bind (r.peerProgress_spec peer) fun pr hget => ?_
  have hpr := h.sim.node.progress h.state peer pr hget
  have hpos := hpr.next_pos
  refine Secures.ite (fun _ => Secures.pure fun hf => absurd hf Bool.false_ne_true) fun hpaused => ?_
  refine Secures.bind (RaftLog.entries_spec h.sim.node.uncompacted pr.next r.maxMsgSize) ?_
  rintro ⟨status, es⟩ ⟨hes, hstatus⟩
  dsimp only at hes hstatus ⊢
  refine Secures.ite (fun _ => Secures.pure fun hf => absurd hf Bool.false_ne_true) fun hne => ?_
  have hes_ne : es ≠ [] := fun hnil => hne ⟨hnil, Bool.false_ne_true⟩
  rw [hstatus hpos, sub64_of_le hpos, h.sim.node.uncompacted.term_eq]
  refine Secures.bind (h.appendsLeft_prepareAppend hpr hpaused hes_ne hes _) ?_
  rintro ⟨m, pr'⟩ hlt
  refine Secures.bind ((r.putProgress peer pr').send_spec m) ?_
  rintro r' ⟨rfl, -⟩
  refine Secures.pure fun _ => ?_
  have hself : (r.putProgress peer pr').getProgress peer = some pr' :=
    Raft.getProgress_putProgress_self hget
  obtain ⟨prs, learnerPrs, heq⟩ := r.putProgress_eq peer pr'
  rw [heq] at hself ⊢
  have hleft : r.appendsLeft peer = pr.appendsLeft r.raftLog.lastIndex := by
    rw [Raft.appendsLeft, hget]
  have hleft' : ∀ ms, Raft.appendsLeft
      { r with prs := prs, learnerPrs := learnerPrs, msgs := ms } peer =
        pr'.appendsLeft r.raftLog.lastIndex := fun ms => by
    have hget' : Raft.getProgress
        { r with prs := prs, learnerPrs := learnerPrs, msgs := ms } peer = some pr' := hself
    rw [Raft.appendsLeft, hget']
  rw [hleft]
  exact (hleft' _).trans_lt hlt

/-- The loop stops by itself: once its bound on the messages fits the number of messages, a larger
number changes nothing. -/
theorem Leads.sendAppendLoop_of_le (peer : ℕ) :
    ∀ (fuel : ℕ) {r : Raft}, Leads G s i r → r.appendsLeft peer < fuel → ∀ fuel', fuel ≤ fuel' →
      Raft.sendAppendLoop peer fuel' r = Raft.sendAppendLoop peer fuel r
  | 0, _, _, hlt, _, _ => absurd hlt (Nat.not_lt_zero _)
  | fuel + 1, r, h, hlt, fuel', hle => by
    obtain ⟨k, rfl⟩ : ∃ k, fuel' = k + 1 := ⟨fuel' - 1, by omega⟩
    unfold Raft.sendAppendLoop
    cases hx : r.maybeSendAppend peer false with
    | error e => rfl
    | ok p =>
      obtain ⟨sent, r'⟩ := p
      have hr' : Leads G s i r' := (h.maybeSendAppend peer false).ensures _ hx
      cases sent with
      | false => rfl
      | true =>
        have hlt' : r'.appendsLeft peer < r.appendsLeft peer :=
          (h.appendsLeft_maybeSendAppend peer).ensures _ hx rfl
        exact Leads.sendAppendLoop_of_le peer fuel hr' (by omega) k (by omega)

/-- The number of messages that the loop is given is enough. -/
theorem Leads.sendAppendLoop_fuel (h : Leads G s i r) (peer : ℕ) {fuel : ℕ}
    (hfuel : r.sendAppendFuel ≤ fuel) :
    Raft.sendAppendLoop peer fuel r = Raft.sendAppendLoop peer r.sendAppendFuel r := by
  refine Leads.sendAppendLoop_of_le peer _ h ?_ fuel hfuel
  unfold Raft.appendsLeft Raft.sendAppendFuel
  split
  · unfold Progress.appendsLeft
    split_ifs
    · omega
    · split <;> omega
  · omega

/-- `send_heartbeat` tells a peer a commit index that it has acknowledged. -/
theorem Leads.sendHeartbeat (h : Leads G s i r) (peer : ℕ) (ctx : Bytes) :
    LogSafe (r.sendHeartbeat peer ctx) (Leads G s i) := by
  unfold Raft.sendHeartbeat
  refine Secures.bind (r.peerProgress_spec peer) fun pr hget => h.send fun _ => ?_
  have hpr := h.sim.node.progress h.state peer pr hget
  obtain ⟨hlog, -, hterm⟩ := h.leaderLog
  obtain ⟨hcle, hcom⟩ := h.committed
  refine ⟨hterm, (Nat.min_le_left _ _).trans hpr.matched_le, _, hlog,
    (Nat.min_le_right _ _).trans hcle, ?_⟩
  exact hcom.of_isPrefix (take_isPrefix_take _ (Nat.min_le_right _ _))

/-- `send_timeout_now` keeps the relation. -/
theorem Leads.sendTimeoutNow (h : Leads G s i r) (peer : ℕ) :
    LogSafe (r.sendTimeoutNow peer) (Leads G s i) := h.send fun _ => trivial

/-- `bcast_append` keeps the relation. -/
theorem Leads.bcastAppend (h : Leads G s i r) : LogSafe r.bcastAppend (Leads G s i) := by
  unfold Raft.bcastAppend
  refine Secures.foldlM _ (fun r' y _ hr' => ?_) r h
  exact Secures.ite (fun _ => Secures.ok hr') fun _ => hr'.sendAppend y

/-- `bcast_heartbeat_with_ctx` keeps the relation. -/
theorem Leads.bcastHeartbeatWithCtx (h : Leads G s i r) (ctx : Bytes) :
    LogSafe (r.bcastHeartbeatWithCtx ctx) (Leads G s i) := by
  unfold Raft.bcastHeartbeatWithCtx
  refine Secures.foldlM _ (fun r' y _ hr' => ?_) r h
  exact Secures.ite (fun _ => Secures.ok hr') fun _ => hr'.sendHeartbeat y ctx

/-! ## Committing -/

/-- The number of voters. -/
theorem NodeOK.card_voters (h : NodeOK G s r) : G.voters.card = r.prs.keys.length := by
  rw [← List.toFinset_card_of_nodup r.prs.keys_nodup]
  congr 1
  ext y
  rw [List.mem_toFinset, ← AList.mem_keys]
  exact (h.voters y).symm

/-- What at least a quorum of the matched indices reach, a quorum acknowledged. -/
theorem Leads.chosen (h : Leads G s i r) {n : ℕ}
    (hq : r.quorum ≤ r.prs.entries.countP fun e => decide (n ≤ e.2.matched)) :
    Chosen G.setting s r.term n := by
  have hn := h.sim.node
  obtain ⟨T, hT, hTk⟩ := r.prs.exists_finset_card fun p => decide (n ≤ p.matched)
  refine ⟨{y | n ≤ s.ack y r.term}, majority_isQuorum (S := T) (fun y hy => ?_) ?_ fun y hy => ?_,
    fun y hy => hy⟩
  · obtain ⟨p, hp, -⟩ := hTk y hy
    exact (hn.voters y).mp (AList.lookup_isSome.mp (by rw [hp]; rfl))
  · rw [hT, hn.card_voters]
    unfold Raft.quorum at hq
    omega
  · obtain ⟨p, hp, hle⟩ := hTk y hy
    have hget : r.getProgress y = some p := by rw [Raft.getProgress, hp, Option.some_or]
    have := (hn.progress h.state y p hget).matched_le
    simp only [decide_eq_true_eq] at hle
    exact hle.trans this

/-- `maybe_commit` commits an entry of the leader's term that a quorum acknowledged. -/
theorem Leads.maybeCommit (h : Leads G s i r) :
    LogSafe r.maybeCommit fun p => LeadsOn G s i p.2 := by
  have hn := h.sim.node
  unfold Raft.maybeCommit
  refine Secures.bind (elemAt_spec _ _) fun mci hmci => ?_
  refine Secures.bind (RaftLog.maybeCommit_spec hn.uncompacted mci h.leaderLog.2.2) ?_
  rintro ⟨b, l⟩ (rfl | ⟨hl, hlt, hle, hterm⟩)
  · exact Secures.pure h.leadsOn
  dsimp only at hl
  subst hl
  refine Secures.pure ?_
  have hchosen := h.chosen (Raft.quorum_le_countP hmci)
  obtain ⟨hlog, -, -⟩ := h.leaderLog
  have hcom : Committed G.setting s r.term (r.raftLog.toList.take mci) :=
    Or.inr ⟨r.term, _, mci, Nat.le_refl _, hlog, by omega, hle, hterm, hchosen, List.prefix_rfl⟩
  have hstep : Step G.setting s r.id (s.advance r.id mci) :=
    .advance mci (by rw [hn.log]; exact hle) (by rw [hn.term, hn.log]; exact hcom)
  obtain ⟨hinv, hle', hidx⟩ := h.sim.step hstep rfl
  refine ⟨_, h.id ▸ Relation.ReflTransGen.single hstep, ⟨hinv, hidx, ?_⟩, h.id, h.state⟩
  refine ⟨hn.id_ne, hn.voters, hn.voter, hn.preVote, hn.uncompacted.committed mci, hn.term, hn.role,
    hn.log, by simp [State.advance], hn.vote, hn.votes, fun hst y p hp => ?_,
    fun m hm => (hn.msgs m hm).mono hle'⟩
  obtain ⟨h1, h2, h3, h4⟩ := hn.progress hst y p hp
  exact ⟨h1, h2, h3, h4⟩

/-! ## Appending -/

/-- Entries that continue the log are appended to it. -/
theorem RaftLog.append_end_spec {l : RaftLog} (h : l.Uncompacted) {es : List Entry}
    (hes : IndexedFrom (l.toList.length + 1) es) (hcom : l.committed ≤ l.toList.length) :
    LogSafe (l.append es) fun l' =>
      l'.Uncompacted ∧ l'.toList = l.toList ++ es ∧ l'.committed = l.committed := by
  by_cases hne : es = []
  · subst hne
    exact Secures.pure ⟨h, (List.append_nil _).symm, rfl⟩
  · refine (append_spec h hes hne (Nat.le_refl _) hcom).mono fun l' hl' => ⟨hl'.1, ?_, hl'.2.2⟩
    rw [hl'.2.1, List.take_length]

/-- The leader's log after an append. -/
theorem Leads.extend (h : Leads G s i r) {l : RaftLog} {es : List Entry} (hl : l.Uncompacted)
    (hlist : l.toList = r.raftLog.toList ++ es) (hcom : l.committed = r.raftLog.committed)
    (hterm : ∀ e ∈ es, e.term = r.term) :
    ∃ s', Moves G.setting i s s' ∧ Leads G s' i { r with raftLog := l } := by
  have hn := h.sim.node
  have hrole : s.role r.id = .leader := by rw [hn.role, h.state]; rfl
  have hstep : Step G.setting s r.id (s.extend r.id es) :=
    .extend es hrole fun e he => by rw [hn.term]; exact hterm e he
  obtain ⟨hinv, hle⟩ := hstep.inv h.sim.inv
  refine ⟨_, h.id ▸ Relation.ReflTransGen.single hstep, ⟨hinv, fun u L hL => ?_, ?_⟩, h.id, h.state⟩
  · simp only [State.extend, Function.update_apply] at hL
    split_ifs at hL with hu
    · cases hL
      rw [hn.log, ← hlist]
      exact hl.indexed
    · exact h.sim.indexed u L hL
  · refine ⟨hn.id_ne, hn.voters, hn.voter, hn.preVote, hl, hn.term, hn.role, ?_, ?_, hn.vote,
      hn.votes, fun hst y p hp => ?_, fun m hm => (hn.msgs m hm).mono hle⟩
    · simp [State.extend, hn.log, hlist]
    · exact hn.commit.trans hcom.symm
    · obtain ⟨h1, h2, h3, h4⟩ := (hn.progress hst y p hp).mono hle
      refine ⟨h1, h2.trans ?_, h3, h4⟩
      rw [hlist, List.length_append]
      omega

/-- A leader has acknowledged its whole log. -/
theorem Leads.ack_self (h : Leads G s i r) : s.ack r.id r.term = r.raftLog.toList.length := by
  have hn := h.sim.node
  have hack := h.sim.inv.acks.ack_leader r.id (by rw [hn.role, h.state]; rfl)
  rwa [hn.term, hn.log] at hack

/-- `append_entry` extends the leader's log, and commits what it can. -/
theorem Leads.appendEntry (h : Leads G s i r) (es : List Entry) :
    LogSafe (r.appendEntry es) fun p => LeadsOn G s i p.2 := by
  have hn := h.sim.node
  unfold Raft.appendEntry
  dsimp only
  obtain ⟨hidx, hterm⟩ := Raft.stampEntries_spec r.term (r.raftLog.lastIndex + 1) es
  cases hinc : r.increaseUncommittedSize
      (Raft.stampEntries r.term (r.raftLog.lastIndex + 1) es) with
  | none => exact Secures.pure h.leadsOn
  | some r₁ =>
    obtain ⟨n, rfl⟩ := Raft.increaseUncommittedSize_eq hinc
    rw [hn.uncompacted.lastIndex_eq] at hidx hterm ⊢
    refine Secures.bind (RaftLog.append_end_spec hn.uncompacted hidx h.committed.1) ?_
    rintro l ⟨hl, hlist, hcom⟩
    have hsize : Leads G s i { r with uncommittedSize := n } := h.congr rfl
    obtain ⟨s₁, hm₁, h₁⟩ := hsize.extend hl hlist hcom hterm
    refine Secures.bind (Raft.peerProgress_spec _ _) fun pr hget => ?_
    have hpr := h₁.sim.node.progress h₁.state _ pr hget
    have hself := h₁.ack_self
    have hpr' : ProgressOK s₁ { r with uncommittedSize := n, raftLog := l } r.id
        (pr.maybeUpdate l.lastIndex).2 :=
      hpr.maybeUpdate (hl.lastIndex_eq.trans hself.symm).le hl.lastIndex_eq.le
    refine Secures.bind (h₁.putProgress hpr').maybeCommit ?_
    rintro ⟨b, r₂⟩ h₂
    exact Secures.pure (h₂.after hm₁)

/-! ## Becoming leader -/

/-- A candidate with as many votes as the quorum asks for is elected by a majority, if it is a voter
itself. -/
theorem Sim.voted (h : Sim G s r) (hc : r.state = .candidate) (hself : r.id ∈ G.voters)
    (hq : r.quorum = r.votes.entries.countP (·.2)) :
    (majority G.voters).IsQuorum {y | s.grant y r.term = some r.id} := by
  have hn := h.node
  obtain ⟨T, hT, hTk⟩ := r.votes.exists_finset_card id
  have hvote : ∀ y ∈ T, (y = r.id ∨ y ∈ G.voters) ∧ s.grant y r.term = some r.id := fun y hy => by
    obtain ⟨b, hb, htrue⟩ := hTk y hy
    rw [id_eq] at htrue
    exact hn.votes hc y (htrue ▸ hb)
  refine majority_isQuorum (S := T) (fun y hy => ?_) ?_ fun y hy => (hvote y hy).2
  · rcases (hvote y hy).1 with rfl | hV
    · exact hself
    · exact hV
  · rw [hT, hn.card_voters]
    simp only [id_eq]
    rw [← hq]
    unfold Raft.quorum
    omega

/-- The state of a node that has just been elected. -/
theorem Sim.elected (h : Sim G s r) (hc : r.state = .candidate) (hself : r.id ∈ G.voters)
    (hq : r.quorum = r.votes.entries.countP (·.2)) :
    LeadsOn G s r.id r.takeLead := by
  have hn := h.node
  have hrole : s.role r.id = .candidate := by rw [hn.role, hc]; rfl
  have hstep : Step G.setting s r.id (s.elect r.id) :=
    .elect _ hrole (h.voted hc hself hq) fun y hy => by rw [hn.term]; exact hy
  obtain ⟨hinv, hle⟩ := hstep.inv h.inv
  refine ⟨_, Relation.ReflTransGen.single hstep, ⟨hinv, fun u L hL => ?_, ?_⟩, r.reset_id _, rfl⟩
  · simp only [State.elect, Function.update_apply] at hL
    split_ifs at hL with hu
    · cases hL
      rw [hn.log]
      exact hn.uncompacted.indexed
    · exact h.indexed u L hL
  constructor
  · exact (r.reset_id _).symm ▸ hn.id_ne
  · exact fun y => (r.mem_reset_prs _ y).trans (hn.voters y)
  · exact fun _ => (r.reset_id _).symm ▸ hself
  · exact fun hp => hn.preVote ((r.reset_preVote _) ▸ hp)
  · exact (r.reset_raftLog _).symm ▸ hn.uncompacted
  · simp [Raft.takeLead, State.elect, hn.term]
  · simp [Raft.takeLead, State.elect, RaftState.role]
  · simp [Raft.takeLead, State.elect, hn.log]
  · simp [Raft.takeLead, State.elect, hn.commit]
  · simpa [Raft.takeLead, State.elect] using hn.vote
  · exact fun hst => by cases hst
  · intro _ y p hp
    obtain ⟨hnext, hstate, hmatched⟩ := r.getProgress_reset r.term hp
    rw [hn.uncompacted.lastIndex_eq] at hnext hmatched
    refine ⟨?_, ?_, ?_, ?_⟩
    · omega
    · simp only [Raft.takeLead, Raft.reset_raftLog]
      omega
    · simp only [Raft.takeLead, Raft.reset_term]
      rcases hmatched with h0 | ⟨rfl, hlast⟩
      · omega
      · rw [hlast, Acks.ack_elect, if_pos ⟨rfl, hn.term.symm⟩, hn.log]
    · rw [hstate]
      simp
  · intro m hm
    rw [show r.takeLead.msgs = r.msgs from r.reset_msgs _] at hm
    exact (hn.msgs m hm).mono hle

/-- `become_leader`: the candidate is elected, and appends an empty entry. -/
theorem Sim.becomeLeader (h : Sim G s r) (hc : r.state = .candidate)
    (hq : r.quorum = r.votes.entries.countP (·.2)) :
    LogSafe r.becomeLeader (LeadsOn G s r.id) := by
  unfold Raft.becomeLeader
  refine Secures.ite (fun _ => Secures.error fun h => h) fun _ => ?_
  dsimp only
  cases hlook : r.takeLead.prs.lookup r.takeLead.id with
  | none => exact Secures.error fun h => h
  | some pr =>
    have hmem : r.takeLead.id ∈ r.takeLead.prs := AList.lookup_isSome.mp (by rw [hlook]; rfl)
    have hself : r.id ∈ G.voters := by
      have := (r.mem_reset_prs r.term _).mp hmem
      rw [show r.takeLead.id = r.id from r.reset_id _] at this
      exact (h.node.voters _).mp this
    obtain ⟨s₁, hm₁, h₁⟩ := h.elected hc hself hq
    have hpr := h₁.sim.node.progress h₁.state r.takeLead.id pr
      (by rw [Raft.getProgress, hlook, Option.some_or])
    -- The node replicates to itself from the start.
    have hpr' : ProgressOK s₁ r.takeLead r.takeLead.id pr.becomeReplicate :=
      ⟨Nat.succ_le_succ (Nat.zero_le _),
        Nat.succ_le_succ (hpr.matched_le.trans h₁.ack_self.le), hpr.matched_le,
        by simp [Progress.becomeReplicate, Progress.resetState]⟩
    have h₂ := h₁.putProgress hpr'
    rw [Raft.putProgress, if_pos hmem] at h₂
    refine Secures.bind ((h₂.pendingConfIndex _).appendEntry [{}]) ?_
    rintro ⟨appended, r₂⟩ ⟨s₂, hm₂, h₃⟩
    refine Secures.ite (fun _ => Secures.error fun h => h) fun _ => Secures.pure ?_
    obtain ⟨n, hred⟩ := r₂.reduceUncommittedSize_eq [{}]
    rw [hred]
    exact ⟨s₂, hm₁.trans hm₂, h₃.congr rfl⟩

end RaftCpp
