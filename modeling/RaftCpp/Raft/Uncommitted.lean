import Mathlib.Algebra.Order.BigOperators.Group.List
import Mathlib.Algebra.Order.Group.Nat
import RaftCpp.Raft.Dropped
import RaftCpp.Raft.Handout
import RaftCpp.Raft.Transfer

/-!
# The size of the uncommitted entries

A leader adds up the payloads of the entries that it appends, and takes off those of the entries that it hands
out, so that it can refuse proposals while too much is under way. It takes off a sum of 32 bits: the size does
not overestimate what is under way as long as the payloads in one `Ready` stay below `2^32` bytes.
-/

namespace RaftCpp

open Outcome

/-- What a leader needs to keep account of the entries that are under way. -/
structure Account where
  /-- The term. -/
  term : ℕ
  /-- The size of the entries that are not committed. -/
  uncommittedSize : ℕ
  /-- The limit on that size. -/
  maxUncommittedSize : ℕ
  /-- The log without its commit index. -/
  log : RaftLog

/-- What a leader adds to the size when it may append the entries. -/
inductive Account.Charges (a : Account) (es : List Entry) : Account → Prop
  /-- Nothing, as it appends nothing. -/
  | kept : a.Charges es a
  /-- Their payloads, when it appends them. The limit holds unless the size was zero. -/
  | accepted {l : RaftLog}
      (happ : a.log.append (Raft.stampEntries a.term (a.log.lastIndex + 1) es) = .ok l)
      (hlimit : a.uncommittedSize ≠ 0 → a.uncommittedSize + Raft.payloadSum es ≤ a.maxUncommittedSize) :
      a.Charges es { a with uncommittedSize := a.uncommittedSize + Raft.payloadSum es, log := l }

/-- The empty entry of a new leader has no payload. -/
theorem Account.Charges.of_empty {a a' : Account} (h : a.Charges [{}] a') :
    a'.uncommittedSize = a.uncommittedSize := by
  cases h with
  | kept => rfl
  | accepted => rfl

/-- The term stays as it is. -/
theorem Account.Charges.term {a a' : Account} {es : List Entry} (h : a.Charges es a') : a'.term = a.term := by
  cases h with
  | kept => rfl
  | accepted => rfl

/-- The account of a standing. -/
def Standing.account (st : Standing) : Account where
  term := st.term
  uncommittedSize := st.uncommittedSize
  maxUncommittedSize := st.maxUncommittedSize
  log := st.log

/-- Entries are appended whatever is committed. -/
theorem RaftLog.append_uncommitted {l l' : RaftLog} {es : List Entry} (h : l.append es = .ok l') :
    ({ l with committed := 0 } : RaftLog).append es = .ok { l' with committed := 0 } := by
  unfold append at h ⊢
  cases es with
  | nil =>
    cases h
    rfl
  | cons e es =>
    dsimp only at h ⊢
    split_ifs at h
    obtain ⟨u, hu, h⟩ := bind_eq_ok.mp h
    cases h
    rw [if_neg (Nat.not_lt_zero _), hu]
    rfl

namespace Raft

open Account

variable {r r' : Raft} {es : List Entry}

/-- The account of a node. -/
def account (r : Raft) : Account := r.standing.account

/-- What is known of the account after a step: a leader has added to it, and a new leader starts with zero. -/
def Tallies (r r' : Raft) : Prop :=
  r'.state = .leader →
    r.state = .leader ∧ (∃ es, r.account.Charges es r'.account) ∨ r'.uncommittedSize = 0

/-- The handlers that leave the standing alone add nothing. -/
theorem charges_of_standing {a : Account} (h : r'.standing = r.standing) (ha : a.Charges es r.account) :
    a.Charges es r'.account := by
  have hsame : r'.account = r.account := congrArg Standing.account h
  rwa [hsame]

/-- A node that does not lead keeps no account. -/
theorem Tallies.of_state (h : r'.state ≠ .leader) : r.Tallies r' := fun hl => absurd hl h

/-- The stamp does not change the sum. -/
theorem payloadSum_stampEntries (term i : ℕ) (es : List Entry) :
    payloadSum (stampEntries term i es) = payloadSum es := by
  rw [payloadSum_eq, payloadSum_eq, payloadTotal_stampEntries]

/-! ## A leader -/

/-- `append_entry`. -/
theorem charges_appendEntry (r : Raft) (es : List Entry) :
    Ensures (r.appendEntry es) fun q => r.account.Charges es q.2.account := by
  unfold appendEntry
  dsimp only
  cases hinc : r.increaseUncommittedSize (stampEntries r.term (r.raftLog.lastIndex + 1) es) with
  | none => exact Ensures.pure .kept
  | some r₁ =>
    unfold increaseUncommittedSize at hinc
    rw [payloadSum_stampEntries] at hinc
    dsimp only at hinc
    split_ifs at hinc with hlimit
    obtain rfl := Option.some.inj hinc
    refine Ensures.bindEq fun l happ => ?_
    refine Ensures.bind peerProgress_eq fun pr hget => ?_
    have hput := standing_putProgress hget
      (Progress.Extends.maybeUpdate pr (RaftLog.lastIndex l)).isLearner
    refine Ensures.bind (keepsStanding_maybeCommit _) fun q hq => Ensures.pure ?_
    refine charges_of_standing (hq.trans hput) ?_
    refine Charges.accepted (a := r.account) (RaftLog.append_uncommitted happ) fun hne => ?_
    by_contra hgt
    exact hlimit ⟨Nat.pos_of_ne_zero hne, Nat.lt_of_not_le hgt⟩

/-- `step_leader` on a proposal. -/
theorem charges_stepLeaderProp (r : Raft) (m : Message) :
    Ensures (r.stepLeaderProp m) fun q => ∃ es, r.account.Charges es q.2.account := by
  unfold stepLeaderProp
  refine Ensures.ite (fun _ => Ensures.error) fun _ => ?_
  refine Ensures.ite (fun _ => Ensures.pure ⟨[], .kept⟩) fun _ => ?_
  refine Ensures.ite (fun _ => Ensures.pure ⟨[], .kept⟩) fun _ => ?_
  refine Ensures.bind (charges_appendEntry _ _) fun q hq => ?_
  refine Ensures.ite (fun _ => Ensures.pure ⟨_, hq⟩) fun _ => ?_
  exact Ensures.bind (keepsStanding_bcastAppend _) fun r' hr' =>
    Ensures.pure ⟨_, charges_of_standing hr' hq⟩

/-- The request of a transfer of the lead. -/
theorem account_startTransfer (r : Raft) (peer : ℕ) (p : Progress) :
    Ensures (r.startTransfer peer p) fun r' => r'.account = r.account := by
  unfold startTransfer
  refine Ensures.ite (fun _ => Ensures.ok rfl) fun _ => ?_
  refine Ensures.ite (fun _ => ?_) fun _ => ?_
  · exact (keepsStanding_send _ _).mono fun r' hr' => (congrArg Standing.account hr').trans rfl
  · exact (keepsStanding_sendAppend _ _).mono fun r' hr' => (congrArg Standing.account hr').trans rfl

/-- `step_leader` on such a request. -/
theorem account_stepLeaderTransfer (r : Raft) (m : Message) (p : Progress) :
    Ensures (r.stepLeaderTransfer m p) fun r' => r'.account = r.account := by
  unfold stepLeaderTransfer
  refine Ensures.ite (fun _ => Ensures.ok rfl) fun _ => ?_
  refine Ensures.ite (fun _ => ?_) fun _ => r.account_startTransfer _ _
  refine Ensures.ite (fun _ => Ensures.ok rfl) fun _ => ?_
  exact r.abortLeaderTransfer.account_startTransfer _ _

/-- A leader adds nothing. -/
theorem Tallies.of_account (hl : r.state = .leader) (h : r'.account = r.account) : r.Tallies r' := by
  refine fun _ => Or.inl ⟨hl, [], ?_⟩
  rw [h]
  exact .kept

/-- `step_leader`. -/
theorem tallies_stepLeader (hl : r.state = .leader) (m : Message) :
    Ensures (r.stepLeader m) fun q => r.Tallies q.2 := by
  by_cases hprop : m.type = .msgProp
  · unfold stepLeader
    simp only [hprop]
    exact (r.charges_stepLeaderProp m).mono fun q hq _ => Or.inl ⟨hl, hq⟩
  by_cases hcheck : m.type = .msgCheckQuorum
  · unfold stepLeader
    simp only [hcheck]
    refine Ensures.pure ?_
    dsimp only
    split_ifs
    · exact .of_account hl rfl
    · exact .of_state nofun
  by_cases htransfer : m.type = .msgTransferLeader
  · unfold stepLeader stepLeaderPeer
    simp only [htransfer]
    refine Ensures.bind (P := r.Tallies) ?_ fun r' hr' => Ensures.pure hr'
    cases r.getProgress m.fromId with
    | none => exact Ensures.ok (.of_account hl rfl)
    | some p => exact (r.account_stepLeaderTransfer m p).mono fun r' hr' => .of_account hl hr'
  · exact (keepsStanding_stepLeader hprop htransfer hcheck).mono fun q hq =>
      .of_account hl (congrArg Standing.account hq)

/-! ## A new leader -/

/-- `become_leader` starts with zero. -/
theorem becomeLeader_uncommittedSize (r : Raft) :
    Ensures r.becomeLeader fun r' => r'.uncommittedSize = 0 := by
  have hreset : ∀ t, (r.reset t).uncommittedSize = 0 := fun t => by
    unfold reset
    split <;> rfl
  unfold becomeLeader
  refine Ensures.ite (fun _ => Ensures.error) fun _ => ?_
  dsimp only
  split
  · exact Ensures.error
  · next p hself =>
    have hempty : Ensures ((r.elected p).appendEntry [{}]) fun q => q.2.uncommittedSize = 0 := by
      refine ((r.elected p).charges_appendEntry [{}]).mono fun q hq => ?_
      have hzero : (r.elected p).uncommittedSize = 0 := hreset r.term
      exact hq.of_empty.trans hzero
    refine Ensures.bind hempty fun q hq => ?_
    refine Ensures.ite (fun _ => Ensures.error) fun _ => Ensures.pure ?_
    unfold reduceUncommittedSize
    rw [if_pos hq]
    exact hq

/-- `campaign` for the votes of the next term. -/
theorem tallies_campaignElection (r₀ r : Raft) (ctx : Bytes) :
    Ensures (r.campaignElection ctx) r₀.Tallies := by
  unfold campaignElection becomeCandidate
  refine Ensures.bind (P := fun r₁ => r₁.state ≠ .leader) ?_ fun r₁ h₁ => ?_
  · exact Ensures.ite (fun _ => Ensures.error) fun _ => Ensures.ok nofun
  have hpoll : (r₁.poll r₁.id true).2.state ≠ .leader := h₁
  refine Ensures.ite (fun _ => ?_) fun _ => ?_
  · exact (becomeLeader_uncommittedSize _).mono fun r' hr' _ => Or.inr hr'
  · exact (obeys_requestVotes (m := {}) hpoll rfl).mono fun r' hr' => .of_state hr'.state

/-- `campaign` for pre-votes. -/
theorem tallies_campaignPreElection (r₀ r : Raft) : Ensures r.campaignPreElection r₀.Tallies := by
  unfold campaignPreElection becomePreCandidate
  refine Ensures.bind (P := fun r₁ => r₁.state ≠ .leader) ?_ fun r₁ h₁ => ?_
  · exact Ensures.ite (fun _ => Ensures.error) fun _ => Ensures.ok nofun
  have hpoll : (r₁.poll r₁.id true).2.state ≠ .leader := h₁
  refine Ensures.ite (fun _ => tallies_campaignElection r₀ _ []) fun _ => ?_
  exact (obeys_requestVotes (m := {}) hpoll rfl).mono fun r' hr' => .of_state hr'.state

/-- `step` on a request to campaign, by a node that does not lead. -/
theorem tallies_stepHup (r₀ : Raft) (hstate : r.state ≠ .leader) : Ensures r.stepHup r₀.Tallies := by
  unfold stepHup
  rw [if_neg hstate]
  refine Ensures.bind Ensures.any fun p _ => ?_
  dsimp only
  refine Ensures.ite (fun _ => Ensures.error) fun _ => ?_
  refine Ensures.ite (fun _ => Ensures.pure (.of_state hstate)) fun _ => ?_
  cases r.preVote with
  | true => exact tallies_campaignPreElection r₀ r
  | false => exact tallies_campaignElection r₀ r []

/-- `step_candidate` on the answer to a request for a vote or a pre-vote. -/
theorem tallies_stepCandidateVoteResp (r₀ : Raft) (hstate : r.state ≠ .leader) (m : Message) :
    Ensures (r.stepCandidateVoteResp m) r₀.Tallies := by
  unfold stepCandidateVoteResp
  dsimp only
  refine Ensures.ite (fun _ => ?_) fun _ => ?_
  · refine Ensures.ite (fun _ => tallies_campaignElection r₀ _ []) fun _ => ?_
    refine Ensures.ite (fun _ => ?_) fun _ => Ensures.error
    refine Ensures.bind (becomeLeader_uncommittedSize _) fun r₁ h₁ => ?_
    refine (keepsStanding_bcastAppend r₁).mono fun r' hr' _ => Or.inr ?_
    exact (congrArg Standing.uncommittedSize hr').trans h₁
  · exact Ensures.ite (fun _ => Ensures.pure (.of_state nofun)) fun _ => Ensures.pure (.of_state hstate)

/-- `step_candidate`. -/
theorem tallies_stepCandidate (r₀ : Raft) (hstate : r.state ≠ .leader) (m : Message) :
    Ensures (r.stepCandidate m) fun q => r₀.Tallies q.2 := by
  by_cases hresp : m.type = .msgVoteResp ∨ m.type = .msgPreVoteResp
  · rw [r.stepCandidate_voteResp hresp]
    exact Ensures.bind (tallies_stepCandidateVoteResp r₀ hstate m) fun r' hr' => Ensures.pure hr'
  · -- Nothing but the answers to its requests makes a candidate a leader.
    obtain ⟨hvote, hpre⟩ := not_or.mp hresp
    exact (obeys_stepCandidate hstate hvote hpre).mono fun q hq => .of_state hq.state

/-- `step_follower`. -/
theorem tallies_stepFollower (r₀ : Raft) (hstate : r.state ≠ .leader) (m : Message) :
    Ensures (r.stepFollower m) fun q => r₀.Tallies q.2 := by
  by_cases htimeout : m.type = .msgTimeoutNow
  · unfold stepFollower
    simp only [htimeout]
    refine Ensures.ite (fun _ => ?_) fun _ => Ensures.pure (.of_state hstate)
    exact Ensures.bind (tallies_campaignElection r₀ r _) fun r' hr' => Ensures.pure hr'
  · -- Only the request to take over makes a follower campaign.
    refine (obeys_stepFollower hstate htimeout).mono fun q hq => .of_state hq.state

/-- `step` past the check of the term, by a node that does not lead. -/
theorem tallies_stepBody_of_ne (r₀ : Raft) (hstate : r.state ≠ .leader) (m : Message) :
    Ensures (r.stepBody m) fun q => r₀.Tallies q.2 := by
  have hvote : Ensures (do
      let r' ← r.stepVote m
      return (Status.ok, r')) fun q => r₀.Tallies q.2 :=
    Ensures.bind (obeys_stepVote (m := m) hstate) fun r' hr' => Ensures.pure (.of_state hr'.state)
  have hrole : Ensures (r.stepRole m) fun q => r₀.Tallies q.2 := by
    unfold stepRole
    split
    · next hl => exact absurd hl hstate
    · exact tallies_stepCandidate r₀ hstate m
    · exact tallies_stepCandidate r₀ hstate m
    · exact tallies_stepFollower r₀ hstate m
  unfold stepBody
  split
  · exact Ensures.bind (tallies_stepHup r₀ hstate) fun r' hr' => Ensures.pure hr'
  · exact hvote
  · exact hvote
  · exact hrole

/-! ## Steps -/

/-- `step` past the check of the term. -/
theorem tallies_stepBody (r : Raft) (m : Message) : Ensures (r.stepBody m) fun q => r.Tallies q.2 := by
  by_cases hl : r.state = .leader
  · have hvote : Ensures (do
        let r' ← r.stepVote m
        return (Status.ok, r')) fun q => r.Tallies q.2 :=
      Ensures.bind (r.keepsStanding_stepVote m) fun r' hr' =>
        Ensures.pure (.of_account hl (congrArg Standing.account hr'))
    unfold stepBody
    split
    · -- A leader does not campaign.
      unfold stepHup
      rw [if_pos hl]
      exact Ensures.pure (.of_account hl rfl)
    · exact hvote
    · exact hvote
    · unfold stepRole
      rw [hl]
      exact tallies_stepLeader hl m
  · exact tallies_stepBody_of_ne r hl m

/-- `step`. -/
theorem tallies_step (r : Raft) (m : Message) : Ensures (r.step m) fun q => r.Tallies q.2 := by
  have hstanding : ∀ {r' : Raft}, r'.standing = r.standing → r.Tallies r' := fun {r'} h hl =>
    Tallies.of_account ((congrArg Standing.state h).symm.trans hl) (congrArg Standing.account h) hl
  apply step_ensures
  · exact tallies_stepBody r m
  · intro lead _ _
    have hfollow : (r.becomeFollower m.term lead).state ≠ .leader := nofun
    exact tallies_stepBody_of_ne r hfollow m
  · exact hstanding rfl
  · exact (r.keepsStanding_stepLowerTerm m).mono fun r' hr' => hstanding hr'

/-- `tick`. -/
theorem tallies_tick (r : Raft) : Ensures r.tick r.Tallies := by
  by_cases hl : r.state = .leader
  · refine tick_leader_ensures hl (fun _ _ _ _ => .of_account hl rfl) (fun _ _ _ _ => ?_) fun _ _ => .of_state nofun
    refine (keepsStanding_bcastHeartbeatWithCtx _ _).mono fun r' hr' => ?_
    exact .of_account hl ((congrArg Standing.account hr').trans rfl)
  · rw [tick_election hl]
    unfold tickElection
    refine Ensures.ite (fun _ => ?_) fun _ => Ensures.pure (.of_state hl)
    refine Ensures.bind (P := fun q => r.Tallies q.2) ?_ fun q hq => Ensures.pure hq
    unfold step
    rw [if_pos rfl]
    exact tallies_stepBody_of_ne r (by exact hl) _

/-- `remove_node`. -/
theorem account_removeNode (r : Raft) (id : ℕ) :
    Ensures (r.removeNode id) fun r' => r'.account = r.account ∧ r'.state = r.state := by
  have hend : ∀ r₁ : Raft, r₁.standing = (r.delProgress id).standing →
      Ensures (if r₁.state = .leader ∧ r₁.leadTransferee = id then
        (Pure.pure r₁.abortLeaderTransfer : Result Raft) else Pure.pure r₁) fun r' =>
          r'.account = r.account ∧ r'.state = r.state := by
    intro r₁ h₁
    have hsame : r₁.account = r.account ∧ r₁.state = r.state :=
      ⟨(congrArg Standing.account h₁).trans rfl, (congrArg Standing.state h₁).trans rfl⟩
    exact Ensures.ite (fun _ => Ensures.pure hsame) fun _ => Ensures.pure hsame
  unfold removeNode
  refine Ensures.ite (fun _ => Ensures.pure ⟨rfl, rfl⟩) fun _ => ?_
  refine Ensures.bind (keepsStanding_maybeCommit _) fun q hq => ?_
  refine Ensures.ite (fun _ => ?_) fun _ => hend q.2 hq
  exact Ensures.bind (keepsStanding_bcastAppend _) fun r₂ h₂ => hend r₂ (h₂.trans hq)

end Raft

/-- `apply_conf_change`. -/
theorem RawNode.account_applyConfChange (n : RawNode) (cc : ConfChange) :
    Ensures (n.applyConfChange cc) fun p =>
      p.2.raft.account = n.raft.account ∧ p.2.raft.state = n.raft.state := by
  have hadd : ∀ b, Ensures (n.raft.addNodeOrLearner cc.nodeId b) fun r' =>
      r'.account = n.raft.account ∧ r'.state = n.raft.state := fun b => by
    refine (Raft.reshapes_addNodeOrLearner cc.nodeId b).mono fun r' hr' => ?_
    obtain ⟨⟨prs, learnerPrs, isLearner, rfl⟩, -⟩ := hr'
    exact ⟨rfl, rfl⟩
  unfold applyConfChange
  refine Ensures.ite (fun _ => Ensures.pure ⟨rfl, rfl⟩) fun _ => ?_
  refine Ensures.ite (fun _ => Ensures.bind (hadd false) fun r' hr' => Ensures.pure hr') fun _ => ?_
  refine Ensures.ite (fun _ => Ensures.bind (hadd true) fun r' hr' => Ensures.pure hr') fun _ => ?_
  refine Ensures.ite (fun _ => ?_) fun _ => ?_
  · exact Ensures.bind (n.raft.account_removeNode cc.nodeId) fun r' hr' => Ensures.pure hr'
  · exact Ensures.ite (fun _ => Ensures.pure ⟨rfl, rfl⟩) fun _ => Ensures.bind Ensures.throw fun _ hr' => hr'

/-- What is known of the account after an event. -/
theorem Host.tallies_handle {h h' : Host} {e : HostEvent} {c : Cause} (hc : e.cause = some c)
    (hh : h.handle e = .ok h') : h.node.raft.Tallies h'.node.raft := by
  cases e with
  | step m | call m =>
    obtain heq | ⟨status, hstep⟩ := stepped rfl hh
    · exact fun hl => Raft.Tallies.of_account (by rwa [heq] at hl) (by rw [heq]) hl
    · exact Raft.tallies_step _ m _ hstep
  | tick =>
    obtain ⟨n, hn, hh⟩ := bind_eq_ok.mp hh
    cases hh
    obtain ⟨r, hstep, hn⟩ := bind_eq_ok.mp hn
    cases hn
    exact Raft.tallies_tick _ r hstep
  | applyConfChange cc =>
    obtain ⟨p, hp, hh⟩ := bind_eq_ok.mp hh
    cases hh
    obtain ⟨haccount, hstate⟩ := h.node.account_applyConfChange cc p hp
    exact fun hl => Raft.Tallies.of_account (hstate.symm.trans hl) haccount hl
  | _ => cases hc

/-! ## What is under way -/

/-- The entries that are to be handed out next. -/
def RaftLog.dueEntries (l : RaftLog) : List Entry := (l.nextEntries.toOption).getD []

/-- The node hands out entries whose payloads overflow the sum that it takes off the size, and what is left of
the sum is less than the size. -/
def HostEvent.Overflows (h : Host) : HostEvent → Prop
  | .ready =>
    h.ready = none ∧ 2^32 ≤ Raft.payloadTotal h.log.dueEntries ∧
      Raft.payloadTotal h.log.dueEntries % 2^32 < h.node.raft.uncommittedSize
  | _ => False

instance (h : Host) (e : HostEvent) : Decidable (e.Overflows h) :=
  match e with
  | .ready => inferInstanceAs (Decidable (_ ∧ _ ∧ _))
  | .step _ | .call _ | .tick | .applyConfChange _ | .persist | .advance | .createSnapshot _ _ _
  | .compact _ => .isFalse id

namespace Raft

/-- Exactly without such an overflow, `reduce_uncommitted_size` takes off all of the payloads. -/
theorem reduceUncommittedSize_exact (r : Raft) (es : List Entry) :
    (r.reduceUncommittedSize es).uncommittedSize = r.uncommittedSize - payloadTotal es ↔
      ¬(2^32 ≤ payloadTotal es ∧ payloadTotal es % 2^32 < r.uncommittedSize) := by
  unfold reduceUncommittedSize
  rw [payloadSum_eq]
  split_ifs with hzero
  · omega
  · dsimp only
    split_ifs with hgt
    · omega
    · omega

/-- The payloads of some of the entries. -/
theorem payloadTotal_le_of_subperm {es es' : List Entry} (h : es.Subperm es') :
    payloadTotal es ≤ payloadTotal es' := by
  obtain ⟨es₁, hperm, hsub⟩ := h
  have hsame : payloadTotal es₁ = payloadTotal es := (hperm.map _).sum_eq
  rw [← hsame]
  exact (hsub.map _).sum_le_sum fun _ _ => Nat.zero_le _

/-- What is taken from a list without repetitions has no more payload than what is handed out. -/
theorem payloadTotal_le_filter_add {es : List Entry} (handed : List Entry) (hnodup : es.Nodup) :
    payloadTotal es ≤ payloadTotal (es.filter (· ∉ handed)) + payloadTotal handed := by
  have hsplit : (es.filter (· ∈ handed) ++ es.filter (· ∉ handed)).Perm es := by
    simpa using List.filter_append_perm (fun e => decide (e ∈ handed)) es
  have hsum : payloadTotal (es.filter (· ∈ handed)) + payloadTotal (es.filter (· ∉ handed)) =
      payloadTotal es := by
    rw [← payloadTotal_append]
    exact (hsplit.map _).sum_eq
  have hle : payloadTotal (es.filter (· ∈ handed)) ≤ payloadTotal handed := by
    refine payloadTotal_le_of_subperm ((hnodup.filter _).subperm fun e he => ?_)
    exact of_decide_eq_true (List.mem_filter.mp he).2
  omega

end Raft

namespace RaftLog.Sound

variable {l l' : RaftLog}

/-- The unstable entries are not beyond the last index. -/
theorem unstable_le (h : l.Sound) {e : Entry} (he : e ∈ l.unstable.entries) : e.index ≤ l.lastIndex := by
  obtain ⟨i, hi⟩ := List.mem_iff_getElem?.mp he
  have hlen := (List.getElem?_eq_some_iff.mp hi).1
  have hindex := h.unstable_indexed i e hi
  have hlast := h.lastIndex_succ
  omega

/-- They differ in their indices. -/
theorem unstable_nodup (h : l.Sound) : l.unstable.entries.Nodup := by
  rw [List.nodup_iff_getElem?_ne_getElem?]
  intro i j hij hj heq
  rw [List.getElem?_eq_getElem hj] at heq
  have hi := h.unstable_indexed i _ heq
  have hj := h.unstable_indexed j _ (List.getElem?_eq_getElem hj)
  omega

/-- What is due is in the log. -/
theorem dueEntries_le (h : l.Sound) {e : Entry} (he : e ∈ l.dueEntries) : e.index ≤ l.lastIndex := by
  obtain ⟨es, hes, hentry, hlen, -⟩ := h.nextEntries_ok
  unfold dueEntries at he
  rw [hes] at he
  obtain ⟨i, hi⟩ : ∃ i, es[i]? = some e := List.mem_iff_getElem?.mp he
  have hilen := (List.getElem?_eq_some_iff.mp hi).1
  have hindex := h.entryAt_index (hentry i e hi)
  have hcommitted := h.committed_le
  omega

end RaftLog.Sound

namespace Host

variable {h h' : Host} {e : HostEvent}

/-- The entries that a step appends: those past the former end of the log. -/
def appendedEntries (t : Turn Host HostEvent) : List Entry :=
  t.after.log.unstable.entries.filter (t.before.log.lastIndex < ·.index)

/-- The entries that a step hands out. -/
def handedEntries (t : Turn Host HostEvent) : List Entry := ((handedOut t).map (·.committedEntries)).getD []

/-- The entries that the steps append and do not hand out. -/
def underWay (ts : List (Turn Host HostEvent)) : List Entry :=
  (ts.flatMap appendedEntries).filter (· ∉ ts.flatMap handedEntries)

/-- The size covers no more than the entries that are under way. They are all different, and no entry that was
appended or handed out is beyond the end of the log. -/
structure Covers (h : Host) (appended handed : List Entry) : Prop where
  nodup : appended.Nodup
  appended_le : ∀ e ∈ appended, e.index ≤ h.log.lastIndex
  handed_le : ∀ e ∈ handed, e.index ≤ h.log.lastIndex
  size_le : h.node.raft.uncommittedSize ≤ Raft.payloadTotal (appended.filter (· ∉ handed))

/-- What a step appends is past the former end of the log, and not past the new one. -/
theorem appendedEntries_spec (hs' : h'.Sound) {x : Entry} (hx : x ∈ appendedEntries ⟨h, e, h'⟩) :
    h.log.lastIndex < x.index ∧ x.index ≤ h'.log.lastIndex := by
  obtain ⟨hmem, hlt⟩ := List.mem_filter.mp hx
  exact ⟨of_decide_eq_true hlt, hs'.log.unstable_le hmem⟩

/-- Nothing is appended if the log does not grow. -/
theorem appendedEntries_eq_nil (hs' : h'.Sound) (hlast : h'.log.lastIndex ≤ h.log.lastIndex) :
    appendedEntries ⟨h, e, h'⟩ = [] := by
  rw [List.eq_nil_iff_forall_not_mem]
  intro x hx
  obtain ⟨hlt, hle⟩ := appendedEntries_spec hs' hx
  omega

/-- What a step hands out. -/
theorem handedEntries_cases (hh : h.handle e = .ok h') :
    (e = .ready ∧ h.ready = none) ∧ handedEntries ⟨h, e, h'⟩ = h.log.dueEntries ∧
        h'.node.raft = { h.node.raft with msgs := [] }.reduceUncommittedSize h.log.dueEntries ∨
      ¬(e = .ready ∧ h.ready = none) ∧ handedEntries ⟨h, e, h'⟩ = [] := by
  by_cases hready : e = .ready ∧ h.ready = none
  · refine Or.inl ⟨hready, ?_⟩
    obtain ⟨rfl, hnone⟩ := hready
    unfold handle at hh
    rw [hnone] at hh
    obtain ⟨⟨rd, n⟩, hn, hh⟩ := bind_eq_ok.mp hh
    cases hh
    obtain ⟨rd', hrd, hn⟩ := bind_eq_ok.mp hn
    cases hn
    obtain ⟨es, hes, hrd⟩ := bind_eq_ok.mp hrd
    cases hrd
    have hdue : h.log.dueEntries = es := by
      unfold RaftLog.dueEntries
      rw [show h.log.nextEntries = .ok es from hes]
      rfl
    rw [hdue]
    refine ⟨?_, rfl⟩
    unfold handedEntries handedOut
    simp only [hnone]
    rfl
  · refine Or.inr ⟨hready, ?_⟩
    unfold handedEntries
    rw [handedOut_eq_none hready]
    rfl

/-- Nothing else that the application does for itself changes the size. -/
theorem uncommittedSize_of_cause_none (hh : h.handle e = .ok h') (hc : e.cause = none)
    (hready : ¬(e = .ready ∧ h.ready = none)) :
    h'.node.raft.uncommittedSize = h.node.raft.uncommittedSize := by
  cases handled hh with
  | moved hc' _ =>
    rw [hc] at hc'
    cases hc'
  | ready hnone _ => exact absurd ⟨rfl, hnone⟩ hready
  | _ => rfl

/-- A leader that acts leaves its size as it is, or adds the payloads of what it appends. -/
theorem charges_handle {es : List Entry} (hs : h.Sound) (hs' : h'.Sound)
    (h₁ : h.node.raft.account.Charges es h'.node.raft.account) :
    h'.node.raft.uncommittedSize ≤
        h.node.raft.uncommittedSize + Raft.payloadTotal (appendedEntries ⟨h, e, h'⟩) ∧
      (appendedEntries ⟨h, e, h'⟩ ≠ [] → h.node.raft.uncommittedSize ≠ 0 →
        h'.node.raft.uncommittedSize ≤ h'.node.raft.maxUncommittedSize) := by
  generalize hacc : h'.node.raft.account = a at h₁
  cases h₁ with
  | kept =>
    have hsize : h'.node.raft.uncommittedSize = h.node.raft.uncommittedSize :=
      congrArg Account.uncommittedSize hacc
    have hlast : h'.node.raft.account.log.lastIndex = h.node.raft.account.log.lastIndex :=
      congrArg (fun a : Account => a.log.lastIndex) hacc
    have hnil : appendedEntries ⟨h, e, h'⟩ = [] := appendedEntries_eq_nil hs' (le_of_eq hlast)
    refine ⟨by omega, fun hne => absurd hnil hne⟩
  | @accepted l happ hlimit =>
    have hsize : h'.node.raft.uncommittedSize = h.node.raft.uncommittedSize + Raft.payloadSum es :=
      congrArg Account.uncommittedSize hacc
    have hmax : h'.node.raft.maxUncommittedSize = h.node.raft.maxUncommittedSize :=
      congrArg Account.maxUncommittedSize hacc
    obtain ⟨hidx, -⟩ := Raft.stampEntries_spec h.node.raft.term (h.log.lastIndex + 1) es
    have hend := RaftLog.append_uncommitted (RaftLog.append_at_end hs.log hidx)
    -- The log has grown by these entries.
    have hgrown : h'.log.unstable.entries =
        h.log.unstable.entries ++ Raft.stampEntries h.node.raft.term (h.log.lastIndex + 1) es := by
      have hl : h'.node.raft.account.log.unstable = l.unstable :=
        congrArg (fun a : Account => a.log.unstable) hacc
      have heq := Except.ok.inj (happ.symm.trans hend)
      rw [heq] at hl
      exact congrArg Unstable.entries hl
    have happended : appendedEntries ⟨h, e, h'⟩ =
        Raft.stampEntries h.node.raft.term (h.log.lastIndex + 1) es := by
      unfold appendedEntries
      dsimp only
      rw [hgrown, List.filter_append, List.filter_eq_nil_iff.mpr, List.nil_append, List.filter_eq_self.mpr]
      · intro x hx
        obtain ⟨i, hi⟩ := List.mem_iff_getElem?.mp hx
        have hindex := hidx i x hi
        exact decide_eq_true (by omega)
      · intro x hx
        have hle := hs.log.unstable_le hx
        simpa using hle
    rw [happended, Raft.payloadTotal_stampEntries]
    constructor
    · have hsum := Raft.payloadSum_eq es
      have hmod := Nat.mod_le (Raft.payloadTotal es) (2^32)
      omega
    · intro _ hne
      rw [hsize, hmax]
      exact hlimit hne

/-- A leader does not shorten its log. -/
theorem lastIndex_le_handle (hs : h.Sound) (hs' : h'.Sound) (hh : h.handle e = .ok h') (horder : e.Orderly h)
    (hl : h.LeadsTerm h'.node.raft.term) (hl' : h'.node.raft.state = .leader) :
    h.log.lastIndex ≤ h'.log.lastIndex := by
  cases hcause : e.cause with
  | none => exact le_of_eq (hs.log.lastIndex_congr hs'.log (unstable_end_of_cause_none hh hcause)).symm
  | some c =>
    by_cases hconf : c = .confChange
    · subst hconf
      cases e with
      | applyConfChange cc =>
        obtain ⟨p, hp, hh⟩ := bind_eq_ok.mp hh
        cases hh
        obtain ⟨haccount, -⟩ := h.node.account_applyConfChange cc p hp
        have hlast : p.2.raft.account.log.lastIndex = h.node.raft.account.log.lastIndex := by rw [haccount]
        exact le_of_eq hlast.symm
      | _ => cases hcause
    · have hcons : ∀ m, c = .step m → m.Consecutive := by
        rintro m rfl
        cases e <;> cases hcause <;> exact horder
      exact LeaderCourse.lastIndex_le (leads_handle hcause hconf hh hl.1 hl' hl.2.symm) hs.log hcons

/-- A step of a leader. -/
theorem Covers.handle {appended handed : List Entry} (hcov : h.Covers appended handed) (hs : h.Sound)
    (hs' : h'.Sound) (hh : h.handle e = .ok h') (horder : e.Orderly h) (hl : h.LeadsTerm h'.node.raft.term)
    (hl' : h'.node.raft.state = .leader) (hover : ¬e.Overflows h) :
    h'.Covers (appended ++ appendedEntries ⟨h, e, h'⟩) (handed ++ handedEntries ⟨h, e, h'⟩) ∧
      (appendedEntries ⟨h, e, h'⟩ ≠ [] → h.node.raft.uncommittedSize ≠ 0 →
        h'.node.raft.uncommittedSize ≤ h'.node.raft.maxUncommittedSize) := by
  have hlast := lastIndex_le_handle hs hs' hh horder hl hl'
  have hnew : ∀ x ∈ appendedEntries ⟨h, e, h'⟩, h.log.lastIndex < x.index ∧ x.index ≤ h'.log.lastIndex :=
    fun x hx => appendedEntries_spec hs' hx
  have hnodup : (appended ++ appendedEntries ⟨h, e, h'⟩).Nodup := by
    refine List.nodup_append.mpr ⟨hcov.nodup, hs'.log.unstable_nodup.filter _, ?_⟩
    rintro x hx _ hx' rfl
    exact absurd (hcov.appended_le x hx) (Nat.not_le.mpr (hnew x hx').1)
  have happended : ∀ x ∈ appended ++ appendedEntries ⟨h, e, h'⟩, x.index ≤ h'.log.lastIndex := by
    intro x hx
    obtain hx | hx := List.mem_append.mp hx
    · exact (hcov.appended_le x hx).trans hlast
    · exact (hnew x hx).2
  have hhanded : ∀ x ∈ handed ++ handedEntries ⟨h, e, h'⟩, x.index ≤ h'.log.lastIndex := by
    intro x hx
    obtain hx | hx := List.mem_append.mp hx
    · exact (hcov.handed_le x hx).trans hlast
    · obtain ⟨-, hdue, -⟩ | ⟨-, hnil⟩ := handedEntries_cases hh
      · rw [hdue] at hx
        exact (hs.log.dueEntries_le hx).trans hlast
      · rw [hnil] at hx
        cases hx
  suffices hsize : h'.node.raft.uncommittedSize ≤ Raft.payloadTotal ((appended ++
      appendedEntries ⟨h, e, h'⟩).filter (· ∉ handed ++ handedEntries ⟨h, e, h'⟩)) ∧
        (appendedEntries ⟨h, e, h'⟩ ≠ [] → h.node.raft.uncommittedSize ≠ 0 →
          h'.node.raft.uncommittedSize ≤ h'.node.raft.maxUncommittedSize) from
    ⟨⟨hnodup, happended, hhanded, hsize.1⟩, hsize.2⟩
  -- Nothing that was handed out is appended again.
  have hfresh : (appendedEntries ⟨h, e, h'⟩).filter (· ∉ handed) = appendedEntries ⟨h, e, h'⟩ := by
    refine List.filter_eq_self.mpr fun x hx => decide_eq_true fun hmem => ?_
    exact absurd (hcov.handed_le x hmem) (Nat.not_le.mpr (hnew x hx).1)
  obtain ⟨⟨rfl, hnone⟩, hdue, hraft⟩ | ⟨hready, hnil⟩ := handedEntries_cases hh
  · -- Nothing is appended when entries are handed out.
    have hnil : appendedEntries ⟨h, .ready, h'⟩ = [] :=
      appendedEntries_eq_nil hs' (le_of_eq (hs.log.lastIndex_congr hs'.log (unstable_end_of_cause_none hh rfl)))
    have hsize : h'.node.raft.uncommittedSize =
        h.node.raft.uncommittedSize - Raft.payloadTotal h.log.dueEntries := by
      rw [hraft]
      exact (Raft.reduceUncommittedSize_exact _ _).mpr fun hwrap => hover ⟨hnone, hwrap⟩
    have hleft : appended.filter (· ∉ handed ++ h.log.dueEntries) =
        (appended.filter (· ∉ handed)).filter (· ∉ h.log.dueEntries) := by
      rw [List.filter_filter]
      refine List.filter_congr fun x _ => ?_
      rw [← Bool.decide_and, decide_eq_decide, List.mem_append, not_or, and_comm]
    have htaken := Raft.payloadTotal_le_filter_add h.log.dueEntries (hcov.nodup.filter (· ∉ handed))
    have hbefore := hcov.size_le
    rw [hnil, List.append_nil, hdue, hleft]
    exact ⟨by omega, fun hne => absurd rfl hne⟩
  · rw [hnil, List.append_nil, List.filter_append, hfresh, Raft.payloadTotal_append]
    cases hcause : e.cause with
    | none =>
      have hsize := uncommittedSize_of_cause_none hh hcause hready
      have hnil : appendedEntries ⟨h, e, h'⟩ = [] := appendedEntries_eq_nil hs'
        (le_of_eq (hs.log.lastIndex_congr hs'.log (unstable_end_of_cause_none hh hcause)))
      have hbefore := hcov.size_le
      exact ⟨by omega, fun hne => absurd hnil hne⟩
    | some c =>
      obtain ⟨-, es, hcharges⟩ | hzero := tallies_handle hcause hh hl'
      · obtain ⟨hle, hlimit⟩ := charges_handle hs hs' hcharges
        exact ⟨hle.trans (Nat.add_le_add_right hcov.size_le _), hlimit⟩
      · exact ⟨by omega, fun _ _ => by omega⟩

/-- The step that begins a leadership. -/
theorem covers_elect (hs' : h'.Sound) (hh : h.handle e = .ok h') (ht : TakesLead ⟨h, e, h'⟩) :
    h'.Covers (appendedEntries ⟨h, e, h'⟩) (handedEntries ⟨h, e, h'⟩) := by
  obtain ⟨c, hcause, -⟩ := elects hh ht
  have hzero : h'.node.raft.uncommittedSize = 0 := by
    obtain ⟨hl, es, hcharges⟩ | hzero := tallies_handle hcause hh ht.1
    · have hterm : h'.node.raft.account.term = h.node.raft.account.term := hcharges.term
      exact absurd ⟨hl, hterm⟩ ht.2
    · exact hzero
  have hnil : handedEntries ⟨h, e, h'⟩ = [] := by
    obtain ⟨⟨rfl, -⟩, -⟩ | ⟨-, hnil⟩ := handedEntries_cases hh
    · cases hcause
    · exact hnil
  constructor
  · exact hs'.log.unstable_nodup.filter _
  · exact fun x hx => (appendedEntries_spec hs' hx).2
  · rw [hnil]
    exact nofun
  · rw [hzero]
    exact Nat.zero_le _

/-- The steps of a leader. -/
theorem Covers.run {h₀ : Host} {term : ℕ} {ts : List (Turn Host HostEvent)} (hrun : Run h₀ ts h) :
    ∀ {appended handed : List Entry}, h₀.Covers appended handed → h₀.Sound → h₀.LeadsTerm term →
      (∀ t ∈ ts, ((t.event.Orderly t.before ∧ ¬t.event.DropsAbove t.before) ∧ t.after.LeadsTerm term) ∧
        ¬t.event.Overflows t.before) →
      h.Covers (appended ++ ts.flatMap appendedEntries) (handed ++ ts.flatMap handedEntries) ∧
        ∀ t ∈ ts, appendedEntries t ≠ [] → t.before.node.raft.uncommittedSize ≠ 0 →
          t.after.node.raft.uncommittedSize ≤ t.after.node.raft.maxUncommittedSize := by
  induction hrun with
  | nil _ =>
    intro appended handed hcov _ _ _
    rw [List.flatMap_nil, List.flatMap_nil, List.append_nil, List.append_nil]
    exact ⟨hcov, fun t ht => absurd ht List.not_mem_nil⟩
  | cons hstep _ ih =>
    intro appended handed hcov hs hl hall
    obtain ⟨⟨⟨⟨horder, hdrop⟩, hl₂⟩, hover⟩, hrest⟩ := List.forall_mem_cons.mp hall
    have hs₂ := hs.handle hstep horder hdrop
    obtain ⟨hcov₂, hlimit⟩ := hcov.handle hs hs₂ hstep horder (hl₂.2 ▸ hl) hl₂.1 hover
    obtain ⟨hcov₃, hlimits⟩ := ih hcov₂ hs₂ hl₂ hrest
    rw [List.flatMap_cons, List.flatMap_cons, ← List.append_assoc, ← List.append_assoc]
    exact ⟨hcov₃, List.forall_mem_cons.mpr ⟨hlimit, hlimits⟩⟩

end Host

/-- The size of the uncommitted entries: in every run of a node from its start, with an orderly application, and
at every time of a leadership in which the payloads that are handed out do not overflow their sum, the size is
at most the payload of the entries that the leader has appended and not handed out. It is zero when all of them
have been handed out. And when entries are appended although the size was not zero, it is within its limit. -/
theorem uncommitted_within {c : Config} {h₀ h : Host} {pre ts : List (Turn Host HostEvent)}
    {election : Turn Host HostEvent} (hb : Host.Built c h₀) (hs : c.storage.Consistent)
    (happ : c.AppliedFits) (hrun : Host.Run h₀ (pre ++ election :: ts) h)
    (horder : ∀ t ∈ pre ++ election :: ts, t.event.Orderly t.before ∧ ¬t.event.DropsAbove t.before)
    (helect : Host.TakesLead election)
    (hleads : ∀ t ∈ ts, t.after.LeadsTerm election.after.node.raft.term)
    (hover : ∀ t ∈ ts, ¬t.event.Overflows t.before) :
    h.node.raft.uncommittedSize ≤ Raft.payloadTotal (Host.underWay (election :: ts)) ∧
      (Host.underWay (election :: ts) = [] → h.node.raft.uncommittedSize = 0) ∧
        ∀ t ∈ ts, Host.appendedEntries t ≠ [] → t.before.node.raft.uncommittedSize ≠ 0 →
          t.after.node.raft.uncommittedSize ≤ t.after.node.raft.maxUncommittedSize := by
  obtain ⟨h₁, hpre, hrest⟩ := Trace.of_append hrun
  have hsound : h₁.Sound := ((hb.sound hs happ).run hpre
    (fun t ht => (horder t (List.mem_append_left _ ht)).1)
    fun t ht => (horder t (List.mem_append_left _ ht)).2).2
  have hrestorder := fun t ht => horder t (List.mem_append_right pre ht)
  cases hrest with
  | @cons _ h₂ _ _ _ hstep hts =>
    obtain ⟨horder₁, hdrop₁⟩ := hrestorder _ List.mem_cons_self
    have hsound₂ := hsound.handle hstep horder₁ hdrop₁
    obtain ⟨hcov, hlimits⟩ := (Host.covers_elect hsound₂ hstep helect).run hts hsound₂ ⟨helect.1, rfl⟩
      fun t ht => ⟨⟨hrestorder t (List.mem_cons_of_mem _ ht), hleads t ht⟩, hover t ht⟩
    have hsize : h.node.raft.uncommittedSize ≤ Raft.payloadTotal (Host.underWay (_ :: _)) := hcov.size_le
    refine ⟨hsize, fun hnil => ?_, hlimits⟩
    rw [hnil] at hsize
    exact Nat.le_zero.mp hsize

/-- A leader of three gets a proposal of two bytes, which another voter acknowledges. They are handed out, and
one of three bytes and one of a byte are proposed. -/
def proposedThrice : List (Turn Host HostEvent) × Host :=
  let proposal (data : Bytes) : HostEvent := .call { type := .msgProp, fromId := 1, entries := [{ data := data }] }
  let answer (index : ℕ) : HostEvent :=
    .step { type := .msgAppResp, fromId := 3, toId := 1, term := 1, index := index }
  Trace.run Host.handle electedOfThree.after
    [proposal [7, 7], answer 2, .ready, proposal [8, 8, 8], .persist, .advance, proposal [9]]

/-- The last two are under way. -/
theorem uncommitted_within_thrice :
    (proposedThrice.1.length = 7 ∧ proposedThrice.2.node.raft.uncommittedSize = 4 ∧
      (Host.underWay (electedOfThree :: proposedThrice.1)).map (·.index) = [3, 4]) ∧
      proposedThrice.2.node.raft.uncommittedSize ≤
          Raft.payloadTotal (Host.underWay (electedOfThree :: proposedThrice.1)) ∧
        (Host.underWay (electedOfThree :: proposedThrice.1) = [] →
          proposedThrice.2.node.raft.uncommittedSize = 0) ∧
          ∀ t ∈ proposedThrice.1, Host.appendedEntries t ≠ [] → t.before.node.raft.uncommittedSize ≠ 0 →
            t.after.node.raft.uncommittedSize ≤ t.after.node.raft.maxUncommittedSize := by
  have hbuilt : Host.Built voterConfig (Host.started voterConfig) :=
    Host.boot_built (Host.boot_started (by decide +kernel))
  have helected : Host.Run candidature.2 (electedOfThree :: proposedThrice.1) proposedThrice.2 :=
    .cons (Host.handle_next (by decide +kernel)) (Trace.of_run _ _ _)
  have hrun : Host.Run (Host.started voterConfig) (candidature.1 ++ electedOfThree :: proposedThrice.1)
      proposedThrice.2 := Trace.append (Trace.of_run _ _ _) helected
  exact ⟨by decide +kernel, uncommitted_within hbuilt MemoryStorage.empty_consistent (Or.inl rfl) hrun
    (by decide +kernel) (by decide +kernel) (by decide +kernel) (by decide +kernel)⟩

/-! ## An overflow -/

/-- The parameters of a voter that is alone and hands out everything at once. -/
def handsOutAllConfig : Config := { soloConfig with maxCommittedSizePerReady := RaftLog.unlimited }

/-- It is elected. -/
def electedToHandOut : Turn Host HostEvent :=
  ⟨Host.started handsOutAllConfig, .call { type := .msgHup },
    (Host.started handsOutAllConfig).next (.call { type := .msgHup })⟩

/-- The proposal of a payload. -/
def payloadProposal (data : Bytes) : HostEvent :=
  .call { type := .msgProp, fromId := 1, entries := [{ data := data }] }

/-- A payload of one byte is proposed. -/
def smallProposed : Host := electedToHandOut.after.next (payloadProposal [0])

/-- Another payload is proposed, with which the size is `2^32`. -/
def largeProposed (data : Bytes) : Host :=
  let r := smallProposed.node.raft
  let u := r.raftLog.unstable
  let l := { r.raftLog with
    committed := 3
    unstable := { u with entries := u.entries ++ [{ term := 1, index := 3, data := data }] } }
  { smallProposed with node := { smallProposed.node with raft := { r with
      uncommittedSize := 2^32, raftLog := l, prs := r.prs.mapVal fun _ p => (p.maybeUpdate 3).2 } } }

/-- The payloads are proposed, and handed out in one `Ready`. -/
def overflowingTurns (data : Bytes) : List (Turn Host HostEvent) :=
  [⟨electedToHandOut.after, payloadProposal [0], smallProposed⟩,
    ⟨smallProposed, payloadProposal data, largeProposed data⟩,
    ⟨largeProposed data, .ready, (largeProposed data).next .ready⟩]

/-- The entries of the leader. -/
def overflowingEntries (data : Bytes) : List Entry :=
  [{ term := 1, index := 1 }, { term := 1, index := 2, data := [0] }, { term := 1, index := 3, data := data }]

/-- The second proposal is accepted. -/
theorem largeProposed_step {data : Bytes} (hlen : data.length = 2^32 - 1) :
    smallProposed.handle (payloadProposal data) = .ok (largeProposed data) := by
  -- The sum of the payloads is evaluated in the proof, as the payload is too large.
  have hsum : ∀ r : Raft, r.uncommittedSize = 1 → r.maxUncommittedSize = 2^64 - 1 → ∀ term i,
      r.increaseUncommittedSize (Raft.stampEntries term i [{ data := data }]) =
        some { r with uncommittedSize := 2^32 } := by
    intro r hsize hmax term i
    unfold Raft.increaseUncommittedSize
    rw [Raft.payloadSum_stampEntries, Raft.payloadSum_eq]
    simp [hsize, hmax, hlen]
  have hfilter : ∀ applied last pending,
      Raft.filterConfChanges applied last 0 pending [{ data := data }] = (pending, [{ data := data }]) :=
    fun _ _ _ => rfl
  have hstep : smallProposed.node.raft.step { type := .msgProp, fromId := 1, entries := [{ data := data }] } =
      .ok (.ok, (largeProposed data).node.raft) := by
    rw [Raft.step_prop_own (by decide +kernel) rfl (Or.inl rfl)]
    unfold Raft.stepLeaderProp
    rw [if_neg (by simp), if_neg (by decide +kernel), if_neg (by decide +kernel)]
    dsimp only
    rw [hfilter]
    unfold Raft.appendEntry
    dsimp only
    rw [hsum _ (by decide +kernel) (by decide +kernel)]
    with_unfolding_all rfl
  unfold Host.handle payloadProposal RawNode.stepRaft
  dsimp only
  rw [hstep]
  rfl

/-- All of the entries are due then. -/
theorem largeProposed_nextEntries (data : Bytes) :
    (largeProposed data).log.nextEntries = .ok (overflowingEntries data) := by
  have hslice : (largeProposed data).log.slice 1 4 RaftLog.unlimited = .ok (.ok, overflowingEntries data) := by
    unfold RaftLog.slice RaftLog.sliceUnstable
    dsimp only
    simp only [show ∀ es, entryLimitSize RaftLog.unlimited es = es from entryLimitSize_unlimited]
    with_unfolding_all rfl
  have hfirst : max ((largeProposed data).log.applied + 1) (largeProposed data).log.firstIndex = 1 := by
    with_unfolding_all rfl
  have hlimit : (largeProposed data).log.maxNextEntsSize = RaftLog.unlimited := by
    with_unfolding_all rfl
  unfold RaftLog.nextEntries
  dsimp only
  rw [hfirst, hlimit, show (largeProposed data).log.committed + 1 = 4 from rfl, hslice]
  rfl

/-- They are handed out. -/
theorem largeProposed_ready (data : Bytes) :
    (largeProposed data).handle .ready = .ok ((largeProposed data).next .ready) := by
  apply Host.handle_next
  have hnext : (largeProposed data).node.raft.raftLog.nextEntries = .ok (overflowingEntries data) :=
    largeProposed_nextEntries data
  have hnone : (largeProposed data).ready = none := by
    with_unfolding_all rfl
  unfold Host.handle RawNode.ready Ready.new
  rw [hnone, hnext]
  rfl

/-- What is left when they are handed out is the size from before. -/
theorem largeProposed_handed {data : Bytes} (hlen : data.length = 2^32 - 1) :
    ((largeProposed data).next .ready).node.raft = { (largeProposed data).node.raft with msgs := [] } ∧
      Host.handedEntries ⟨largeProposed data, .ready, (largeProposed data).next .ready⟩ =
        overflowingEntries data := by
  have hnone : (largeProposed data).ready = none := by
    with_unfolding_all rfl
  have hdue : (largeProposed data).log.dueEntries = overflowingEntries data := by
    unfold RaftLog.dueEntries
    rw [largeProposed_nextEntries]
    rfl
  have hsum : Raft.payloadSum (overflowingEntries data) = 0 := by
    rw [Raft.payloadSum_eq]
    simp [overflowingEntries, hlen]
  obtain ⟨-, hhanded, hraft⟩ | ⟨hready, -⟩ := Host.handedEntries_cases (largeProposed_ready data)
  · refine ⟨?_, hhanded.trans hdue⟩
    rw [hraft, hdue]
    unfold Raft.reduceUncommittedSize
    rw [hsum]
    rfl
  · exact absurd ⟨rfl, hnone⟩ hready

/-- The size can get stuck: a leader hands out all that it has appended, with payloads of `2^32` bytes. The sum
of the payloads is zero, and nothing is taken off the size. -/
theorem uncommitted_overestimated :
    ∃ data : Bytes, data.length = 2^32 - 1 ∧
      Host.Built handsOutAllConfig (Host.started handsOutAllConfig) ∧
      Host.Run (Host.started handsOutAllConfig) (electedToHandOut :: overflowingTurns data)
        ((largeProposed data).next .ready) ∧
      (∀ t ∈ electedToHandOut :: overflowingTurns data,
        t.event.Orderly t.before ∧ ¬t.event.DropsAbove t.before) ∧
      Host.TakesLead electedToHandOut ∧
      (∀ t ∈ overflowingTurns data, t.after.LeadsTerm electedToHandOut.after.node.raft.term) ∧
      Host.underWay (electedToHandOut :: overflowingTurns data) = [] ∧
      ((largeProposed data).next .ready).node.raft.uncommittedSize = 2^32 := by
  refine ⟨List.replicate (2^32 - 1) 0, List.length_replicate, ?_⟩
  generalize hdata : List.replicate (2^32 - 1) (0 : UInt8) = data
  have hlen : data.length = 2^32 - 1 := by
    rw [← hdata]
    exact List.length_replicate
  clear hdata
  obtain ⟨hraft, hhanded⟩ := largeProposed_handed hlen
  have hlog : ((largeProposed data).next .ready).log = (largeProposed data).log :=
    congrArg Raft.raftLog hraft
  have hleads : smallProposed.LeadsTerm electedToHandOut.after.node.raft.term := by decide +kernel
  have happended : (electedToHandOut :: overflowingTurns data).flatMap Host.appendedEntries =
      overflowingEntries data := by
    have hlast : Host.appendedEntries ⟨largeProposed data, .ready, (largeProposed data).next .ready⟩ = [] := by
      unfold Host.appendedEntries
      dsimp only
      rw [hlog]
      with_unfolding_all rfl
    simp only [overflowingTurns, List.flatMap_cons, List.flatMap_nil, hlast]
    with_unfolding_all rfl
  have hall : (electedToHandOut :: overflowingTurns data).flatMap Host.handedEntries =
      overflowingEntries data := by
    simp only [overflowingTurns, List.flatMap_cons, List.flatMap_nil, hhanded]
    rfl
  refine ⟨Host.boot_built (Host.boot_started (by decide +kernel)), ?_, ?_, by decide +kernel, ?_, ?_, ?_⟩
  · exact .cons (Host.handle_next (by decide +kernel)) (.cons (Host.handle_next (by decide +kernel))
      (.cons (largeProposed_step hlen) (.cons (largeProposed_ready data) (.nil _))))
  · simp only [overflowingTurns, List.forall_mem_cons, List.not_mem_nil, false_imp_iff, implies_true, and_true]
    exact ⟨by decide +kernel, by decide +kernel, ⟨nofun, nofun⟩, ⟨trivial, nofun⟩⟩
  · simp only [overflowingTurns, List.forall_mem_cons, List.not_mem_nil, false_imp_iff, implies_true, and_true]
    refine ⟨hleads, hleads, ?_⟩
    unfold Host.LeadsTerm
    rw [hraft]
    exact hleads
  · unfold Host.underWay
    rw [happended, hall, List.filter_eq_nil_iff]
    exact fun x hx => by simpa using hx
  · rw [hraft]
    rfl

end RaftCpp
