import RaftCpp.Raft.Booting
import RaftCpp.Raft.Failures
import RaftCpp.Raft.Flow
import RaftCpp.Raft.Replicating

/-!
# Flow control

A node does not send to a peer that is paused: one that is probed and has not answered, one whose window is
full, or one that gets a snapshot. Thus nothing is added to a full window, and the number of messages on their
way is bounded. The loop that sends what is left of the log ends, as each message that it sends pauses the peer
or goes further in the log.
-/

namespace RaftCpp

open Outcome

/-! ## The bounds -/

/-- The account of a peer agrees with its progress. -/
structure Progress.Accounted (p : Progress) (limit : ℕ) (g : Flight) : Prop where
  /-- The window is one. -/
  valid : p.inflights.Valid
  /-- Its size is the limit. -/
  size : p.inflights.size = limit
  /-- It holds the messages that are not freed. -/
  contents : p.inflights.contents = g.window
  /-- A peer that is probed and not paused has not been sent anything since the last resume, and one that is
  paused at most one message. -/
  probes : p.state = .probe → g.probes ≤ if p.paused then 1 else 0

namespace Progress

variable {s s' : Progress × Flight} {p : Progress} {g : Flight} {limit : ℕ}

/-- It agrees after every change. -/
theorem FlowMove.accounted (h : FlowMove s s') (hs : s.1.Accounted limit s.2) : s'.1.Accounted limit s'.2 := by
  cases h with
  | same hstate hpaused hinflights =>
    constructor
    · rw [hinflights]
      exact hs.valid
    · rw [hinflights]
      exact hs.size
    · rw [hinflights]
      exact hs.contents
    · rw [hstate, hpaused]
      exact hs.probes
  | freed k h =>
    obtain ⟨f', hf', hvalid, hsize, hcontents⟩ := hs.valid.freeTo k
    obtain rfl := Except.ok.inj (hf'.symm.trans h)
    refine ⟨hvalid, hsize.trans hs.size, ?_, hs.probes⟩
    rw [hcontents, hs.contents]
  | resumed => exact ⟨hs.valid, hs.size, hs.contents, fun _ => Nat.zero_le _⟩
  | @paused p g =>
    refine ⟨hs.valid, hs.size, hs.contents, fun hstate => (hs.probes hstate).trans ?_⟩
    show (if p.paused = true then 1 else 0) ≤ 1
    split_ifs
    · exact le_refl 1
    · exact Nat.zero_le 1
  | turned st => exact ⟨hs.valid.reset, hs.size, InFlights.contents_reset _, fun _ => Nat.zero_le _⟩

/-- And after any number of them. -/
theorem FlowCourse.accounted (h : FlowCourse s s') (hs : s.1.Accounted limit s.2) :
    s'.1.Accounted limit s'.2 := by
  induction h with
  | refl => exact hs
  | tail _ hmove ih => exact hmove.accounted ih

/-- A new progress has an empty account. -/
theorem accounted_new (hpos : 1 ≤ limit) (hlt : limit < 2^31) (hinflights : p.inflights = InFlights.new limit) :
    p.Accounted limit {} := by
  obtain ⟨hvalid, hsize⟩ := InFlights.valid_new hpos hlt
  refine ⟨?_, ?_, ?_, fun _ => Nat.zero_le _⟩
  · rwa [hinflights]
  · rwa [hinflights]
  · rw [hinflights]
    rfl

/-- What the account bounds: the messages that are not freed, and the probes. -/
theorem Accounted.bounds (h : p.Accounted limit g) :
    g.window.length ≤ limit ∧ (p.state = .probe → g.probes ≤ 1) := by
  constructor
  · rw [← h.contents, InFlights.length_contents, ← h.size]
    exact h.valid.count_le
  · intro hstate
    refine (h.probes hstate).trans ?_
    split_ifs <;> omega

end Progress

namespace Raft

variable {y : ℕ} {s s' : Raft × Flight} {r r' : Raft}

/-- The account of a peer agrees with what the node knows of it. -/
def Accounted (y : ℕ) (s : Raft × Flight) : Prop :=
  ∀ p, s.1.getProgress y = some p → p.Accounted s.1.maxInflight s.2

/-- Every progress is a new one. -/
def Starts (r : Raft) : Prop := ∀ y p, r.getProgress y = some p → p.inflights = InFlights.new r.maxInflight

end Raft

/-- The limit stays. -/
theorem FlowMove.maxInflight {y : ℕ} {s s' : Raft × Flight} (h : FlowMove y s s') :
    s'.1.maxInflight = s.1.maxInflight := by
  cases h <;> assumption

/-- The account agrees after every change. -/
theorem FlowMove.accounted {y : ℕ} {s s' : Raft × Flight} (h : FlowMove y s s') (hpos : 1 ≤ s.1.maxInflight)
    (hlt : s.1.maxInflight < 2^31) (hs : Raft.Accounted y s) : Raft.Accounted y s' := by
  have hmax := h.maxInflight
  intro q hq
  rw [hmax]
  cases h with
  | aside _ hget _ => exact hs q (hget.symm.trans hq)
  | peer _ hget hget' _ hcourse =>
    obtain rfl := Option.some.inj (hget'.symm.trans hq)
    exact hcourse.accounted (hs _ hget)
  | @replicated r r' p g x e f _ hget hstate _ _ _ hadd hget' =>
    obtain rfl := Option.some.inj (hget'.symm.trans hq)
    have hp := hs p hget
    have hfull : p.inflights.isFull = false := by
      cases hfull : p.inflights.isFull with
      | false => rfl
      | true =>
        unfold InFlights.add at hadd
        rw [hfull] at hadd
        cases hadd
    obtain ⟨f', hf', hvalid, hsize, hcontents⟩ := hp.valid.add hfull e.index
    obtain rfl := Except.ok.inj (hf'.symm.trans hadd)
    refine ⟨hvalid, hsize.trans hp.size, ?_, fun hprobe => ?_⟩
    · rw [hcontents, hp.contents]
    · rw [show p.state = .probe from hprobe] at hstate
      cases hstate
  | @probed r r' p g x _ hget hstate hpaused _ _ hget' =>
    obtain rfl := Option.some.inj (hget'.symm.trans hq)
    have hp := hs p hget
    refine ⟨hp.valid, hp.size, hp.contents, fun _ => ?_⟩
    have hnone := hp.probes hstate
    rw [hpaused] at hnone
    exact Nat.succ_le_succ hnone
  | renewed _ hget _ _ hinflights _ =>
    obtain rfl := Option.some.inj (hget.symm.trans hq)
    exact Progress.accounted_new hpos hlt (hmax ▸ hinflights)
  | gone _ hget _ =>
    rw [hget] at hq
    cases hq

/-- It stays after any number of changes. -/
theorem FlowCourse.maxInflight {y : ℕ} {s s' : Raft × Flight} (h : FlowCourse y s s') :
    s'.1.maxInflight = s.1.maxInflight := by
  induction h with
  | refl => rfl
  | tail _ hmove ih => exact hmove.maxInflight.trans ih

/-- And so the account agrees. -/
theorem FlowCourse.accounted {y : ℕ} {s s' : Raft × Flight} (h : FlowCourse y s s') (hpos : 1 ≤ s.1.maxInflight)
    (hlt : s.1.maxInflight < 2^31) (hs : Raft.Accounted y s) : Raft.Accounted y s' := by
  induction h with
  | refl => exact hs
  | tail hmoves hmove ih =>
    rw [← FlowCourse.maxInflight hmoves] at hpos hlt
    exact hmove.accounted hpos hlt ih

/-! ## The loop -/

namespace RaftLog

variable {l : RaftLog}

/-- The entries that the log returns are between the index that was asked for and its last one. -/
def Reads (l : RaftLog) : Prop := ∀ next maxSize, Ensures (l.entries next maxSize) fun q =>
  ∀ e ∈ q.2, next ≤ e.index ∧ e.index ≤ l.lastIndex

/-- They are in a log that fits together. -/
theorem Sound.reads (h : l.Sound) : l.Reads := by
  intro next maxSize q hq e he
  obtain hnext | hnext := Nat.lt_or_ge l.lastIndex next
  · unfold entries at hq
    rw [if_pos hnext] at hq
    cases hq
    cases he
  obtain hlow | hlow := Nat.lt_or_ge next l.firstIndex
  · have hcompacted := (h.layered.entries_compacted hlow maxSize).resolve_right (Nat.not_lt.mpr hnext)
    obtain rfl := Except.ok.inj (hcompacted.symm.trans hq)
    cases he
  · have hok := h.layered.entries_eq hlow (hnext.trans (Nat.le_succ _)) maxSize
    obtain rfl := Except.ok.inj (hok.symm.trans hq)
    exact h.mem_entries hok he

end RaftLog

namespace Raft

variable {r r' : Raft} {peer : ℕ}

/-- The log that a standing leaves alone reads as before. -/
theorem reads_of_standing (h : r'.standing = r.standing) (hr : r.raftLog.Reads) : r'.raftLog.Reads := by
  have hlog : ({ r'.raftLog with committed := 0 } : RaftLog) = { r.raftLog with committed := 0 } :=
    congrArg Standing.log h
  have hreads : ({ r'.raftLog with committed := 0 } : RaftLog).Reads := by
    rw [hlog]
    exact hr
  exact hreads

/-- A message of the loop pauses the peer, or goes further in the log. -/
theorem maybeSendAppend_advances (hr : r.raftLog.Reads) :
    Ensures (r.maybeSendAppend peer false) fun q => q.1 = true → q.2.raftLog = r.raftLog ∧
      ∃ p p', r.getProgress peer = some p ∧ q.2.getProgress peer = some p' ∧ p.isPaused = false ∧
        p.next ≤ r.raftLog.lastIndex ∧
          (p'.isPaused = true ∨ p.next < p'.next ∧ p'.next ≤ r.raftLog.lastIndex + 1) := by
  unfold maybeSendAppend
  refine Ensures.bind peerProgress_eq fun pr hget => ?_
  refine Ensures.ite (fun _ => Ensures.pure nofun) fun hpaused => ?_
  refine Ensures.bind (hr pr.next r.maxMsgSize) fun ⟨status, es⟩ hes => ?_
  refine Ensures.ite (fun _ => Ensures.pure nofun) fun hsend => ?_
  have hne : es ≠ [] := fun hnil => hsend ⟨hnil, nofun⟩
  obtain ⟨e₀, he₀⟩ := List.exists_mem_of_ne_nil es hne
  have hnext : pr.next ≤ r.raftLog.lastIndex := (hes e₀ he₀).1.trans (hes e₀ he₀).2
  have hput : ∀ (x : Message) (p' : Progress),
      p'.isPaused = true ∨ pr.next < p'.next ∧ p'.next ≤ r.raftLog.lastIndex + 1 → Ensures (do
        let r ← (r.putProgress peer p').send x
        return (true, r)) fun q => q.1 = true → q.2.raftLog = r.raftLog ∧
          ∃ p p', r.getProgress peer = some p ∧ q.2.getProgress peer = some p' ∧ p.isPaused = false ∧
            p.next ≤ r.raftLog.lastIndex ∧
              (p'.isPaused = true ∨ p.next < p'.next ∧ p'.next ≤ r.raftLog.lastIndex + 1) := by
    intro x p' hp'
    refine Ensures.bindEq fun r' hr' => Ensures.pure fun _ => ?_
    obtain ⟨rfl, -⟩ := send_eq hr'
    exact ⟨congrArg Outline.raftLog (r.putProgress_outline peer p'), pr, p', hget,
      getProgress_putProgress_self hget, Bool.not_eq_true _ ▸ hpaused, hnext, hp'⟩
  split
  · refine Ensures.bind (P := fun q : Message × Progress => q.2.isPaused = true ∨
      pr.next < q.2.next ∧ q.2.next ≤ r.raftLog.lastIndex + 1) ?_ fun q hq => hput q.1 q.2 hq
    unfold prepareAppend
    dsimp only
    cases hlast : es.getLast? with
    | none => exact absurd (List.getLast?_eq_none_iff.mp hlast) hne
    | some e =>
      obtain ⟨hlow, hhigh⟩ := hes e (List.mem_of_getLast? hlast)
      cases hstate : pr.state with
      | replicate =>
        refine Ensures.bind Ensures.any fun f _ => Ensures.pure (Or.inr ?_)
        exact ⟨Nat.lt_succ_of_le hlow, Nat.succ_le_succ hhigh⟩
      | probe =>
        refine Ensures.pure (Or.inl ?_)
        unfold Progress.isPaused Progress.setPause
        rw [hstate]
      | snapshot => exact Ensures.error
  · refine Ensures.ite (fun _ => Ensures.pure nofun) fun _ => ?_
    refine Ensures.bind (P := fun q : Message × Progress => q.2.isPaused = true ∨
      pr.next < q.2.next ∧ q.2.next ≤ r.raftLog.lastIndex + 1) ?_ fun q hq => hput q.1 q.2 hq
    unfold prepareSnapshot
    exact Ensures.ite (fun _ => Ensures.error) fun _ => Ensures.ok (Or.inl rfl)

end Raft

/-! ## Failures -/

/-- The failures of flow control: something is added to a full window, there is a message for a peer in an
unknown state, or a loop does not end. -/
@[simp] def Fatal.ofFlow : Fatal → Bool
  | .fullInflights | .unhandledProgressState | .outOfFuel => true
  | _ => false

/-- Another failure. -/
def Fatal.Apart (e : Fatal) : Prop := e.ofFlow = false

/-- That can be evaluated. -/
@[simp] theorem Fatal.apart_iff (e : Fatal) : e.Apart ↔ e.ofFlow = false := Iff.rfl

/-- The computation does not fail in one of these ways. -/
abbrev Flowing {α : Type} (x : Result α) : Prop := FailsOnly Fatal.Apart x

/-- What does not fail as a handler does not fail so either. -/
theorem failsBelow_flowing {α : Type} {x : Result α} (h : FailsBelow x) : Flowing x :=
  h.mono fun e he => by
    unfold Fatal.Below at he
    unfold Fatal.Apart
    cases e <;> first | rfl | cases he

namespace Raft

variable (r : Raft)

/-- `send`. -/
@[simp] theorem flowing_send (m : Message) : Flowing (r.send m) := failsBelow_flowing (r.failsBelow_send m)

/-- `maybe_send_append` adds nothing to a full window, and sends nothing to a peer that gets a snapshot. -/
@[simp] theorem flowing_maybeSendAppend (peer : ℕ) (sendIfEmpty : Bool) :
    Flowing (r.maybeSendAppend peer sendIfEmpty) := by
  have hprepare : ∀ (p : Progress) (t : ℕ) (es : List Entry), p.isPaused = false →
      Flowing (r.prepareAppend peer p t es) := by
    intro p t es hp
    unfold Progress.isPaused at hp
    unfold prepareAppend
    cases es.getLast? with
    | none => simp
    | some e =>
      cases hstate : p.state with
      | probe => simp
      | replicate =>
        rw [hstate] at hp
        simp only [InFlights.add, Progress.optimisticUpdate, hp]
        simp
      | snapshot =>
        rw [hstate] at hp
        cases hp
  unfold maybeSendAppend prepareSnapshot
  simp only [failsOnly_bind, failsBelow_flowing (r.failsBelow_peerProgress peer), failsOnly_ite, failsOnly_pure,
    failsBelow_flowing (r.raftLog.failsBelow_entries _ _), true_and, implies_true]
  intro p _ hpaused q _ _
  have hp := hprepare p
  split
  · simp [hp, hpaused]
  · simp

/-- `send_append`. -/
@[simp] theorem flowing_sendAppend (peer : ℕ) : Flowing (r.sendAppend peer) := by
  unfold sendAppend
  simp

/-- `bcast_append`. -/
@[simp] theorem flowing_bcastAppend : Flowing r.bcastAppend := by
  unfold bcastAppend
  simp

/-- The loop of `maybe_send_append` ends: before each message, it may send as many as there are entries from
the next one on. -/
theorem flowing_sendAppendLoop (peer : ℕ) : ∀ (fuel : ℕ) (r : Raft), r.raftLog.Reads → 1 ≤ fuel →
    (∀ p, r.getProgress peer = some p → p.isPaused = true ∨ r.raftLog.lastIndex + 2 ≤ fuel + p.next) →
      Flowing (sendAppendLoop peer fuel r)
  | fuel + 1, r, hr, _, hfuel => by
    unfold sendAppendLoop
    refine failsOnly_bind.mpr ⟨r.flowing_maybeSendAppend peer false, fun q hq => ?_⟩
    refine failsOnly_ite.mpr ⟨fun hsent => ?_, fun _ => failsOnly_pure _⟩
    obtain ⟨hlog, p, p', hget, hget', hpaused, hnext, hmore⟩ := maybeSendAppend_advances hr q hq hsent
    have hleft : r.raftLog.lastIndex + 2 ≤ fuel + 1 + p.next := by
      obtain h | h := hfuel p hget
      · rw [hpaused] at h
        cases h
      · exact h
    refine flowing_sendAppendLoop peer fuel q.2 (hlog ▸ hr) (by omega) fun p₁ hp₁ => ?_
    obtain rfl := Option.some.inj (hget'.symm.trans hp₁)
    rw [hlog]
    refine hmore.imp_right fun h => ?_
    have hlt := h.1
    omega

/-- `set_progress`. -/
@[simp] theorem flowing_setProgress (id matched next : ℕ) (b : Bool) :
    Flowing (r.setProgress id matched next b) := by
  unfold setProgress
  simp

/-- `maybe_commit`. -/
@[simp] theorem flowing_maybeCommit : Flowing r.maybeCommit := failsBelow_flowing r.failsBelow_maybeCommit

/-- The progress behind a pointer. -/
@[simp] theorem flowing_peerProgress (id : ℕ) : Flowing (r.peerProgress id) :=
  failsBelow_flowing (r.failsBelow_peerProgress id)

/-- `send_timeout_now`. -/
@[simp] theorem flowing_sendTimeoutNow (peer : ℕ) : Flowing (r.sendTimeoutNow peer) :=
  failsBelow_flowing (r.failsBelow_sendTimeoutNow peer)

/-- `append_entry`. -/
@[simp] theorem flowing_appendEntry (es : List Entry) : Flowing (r.appendEntry es) :=
  failsBelow_flowing (r.failsBelow_appendEntry es)

/-- The acknowledgement of a read. -/
@[simp] theorem flowing_ackRead (m : Message) : Flowing (r.ackRead m) := failsBelow_flowing (r.failsBelow_ackRead m)

/-- What the leader does after an acknowledgement that was news. -/
theorem flowing_sendOnAck (hr : r.raftLog.Reads) (peer : ℕ) (oldPaused : Bool) :
    Flowing (r.sendOnAck peer oldPaused) := by
  have hcommit : Flowing (r.commitOnAck peer oldPaused) := by
    unfold commitOnAck
    simp
  have hstanding : r.KeepsStanding (r.commitOnAck peer oldPaused) := r.keepsStanding_commitOnAck peer oldPaused
  unfold sendOnAck
  refine failsOnly_bind.mpr ⟨hcommit, fun r₁ h₁ => ?_⟩
  have hr₁ : r₁.raftLog.Reads := reads_of_standing (hstanding r₁ h₁) hr
  refine failsOnly_bind.mpr ⟨?_, fun r₂ _ => by simp⟩
  refine flowing_sendAppendLoop peer _ r₁ hr₁ (Nat.succ_pos _) fun p _ => Or.inr ?_
  exact Nat.le_add_right _ _

/-- `step_leader` on the answer to an append. -/
theorem flowing_stepLeaderAppResp (hr : r.raftLog.Reads) (m : Message) (p : Progress) :
    Flowing (r.stepLeaderAppResp m p) := by
  have hack : ∀ q : Progress, Flowing (progressOnAck q m.index) := fun q => by
    have hfree := failsBelow_flowing (q.inflights.failsBelow_freeTo m.index)
    unfold progressOnAck
    split <;> simp [hfree]
  have hsend : ∀ (q : Progress) (oldPaused : Bool),
      Flowing ((r.putProgress m.fromId q).sendOnAck m.fromId oldPaused) := fun q oldPaused => by
    refine flowing_sendOnAck _ ?_ m.fromId oldPaused
    rw [show (r.putProgress m.fromId q).raftLog = r.raftLog from
      congrArg Outline.raftLog (r.putProgress_outline m.fromId q)]
    exact hr
  unfold stepLeaderAppResp
  simp [hack, hsend]

/-- `step_leader` on the answer to a heartbeat. -/
@[simp] theorem flowing_stepLeaderHeartbeatResp (m : Message) (p : Progress) :
    Flowing (r.stepLeaderHeartbeatResp m p) := by
  have hfree : ∀ f : InFlights, Flowing f.freeFirstOne := fun f => failsBelow_flowing f.failsBelow_freeFirstOne
  unfold stepLeaderHeartbeatResp progressOnHeartbeat
  simp [hfree]

/-- `step_leader` on a request to transfer the leadership. -/
@[simp] theorem flowing_stepLeaderTransfer (m : Message) (p : Progress) :
    Flowing (r.stepLeaderTransfer m p) := by
  unfold stepLeaderTransfer startTransfer
  simp

/-- `step_leader`. -/
theorem flowing_stepLeader {m : Message} (hr : m.type = .msgAppResp → r.raftLog.Reads) :
    Flowing (r.stepLeader m) := by
  have hpeer : Flowing (r.stepLeaderPeer m) := by
    unfold stepLeaderPeer
    cases r.getProgress m.fromId with
    | none => simp
    | some p =>
      cases htype : m.type with
      | msgAppResp => exact r.flowing_stepLeaderAppResp (hr htype) m p
      | _ => simp
  have hheartbeat := failsBelow_flowing (r.failsBelow_bcastHeartbeatWithCtx r.readOnly.lastPendingRequestCtx)
  have hread := failsBelow_flowing (r.failsBelow_stepLeaderReadIndex m)
  unfold stepLeader bcastHeartbeat stepLeaderProp
  cases m.type <;> simp [hpeer, hheartbeat, hread]

/-- `become_leader`. -/
@[simp] theorem flowing_becomeLeader : Flowing r.becomeLeader := by
  unfold becomeLeader
  dsimp only
  split
  · simp
  · split <;> simp

/-- The requests for votes. -/
@[simp] theorem flowing_requestVotes (voteMsg : MessageType) (term : ℕ) (ctx : Bytes) :
    Flowing (r.requestVotes voteMsg term ctx) := by
  unfold requestVotes
  simp

/-- `campaign` for the votes of the next term. -/
@[simp] theorem flowing_campaignElection (ctx : Bytes) : Flowing (r.campaignElection ctx) := by
  unfold campaignElection becomeCandidate
  simp

/-- `campaign`. -/
@[simp] theorem flowing_campaign (t : CampaignType) : Flowing (r.campaign t) := by
  unfold campaign
  cases t <;> simp [campaignPreElection, becomePreCandidate]

/-- `step` on a request to campaign. -/
@[simp] theorem flowing_stepHup : Flowing r.stepHup := by
  unfold stepHup
  simp [failsBelow_flowing (r.raftLog.failsBelow_slice _ _ _)]

/-- `handle_append_entries`. -/
@[simp] theorem flowing_handleAppendEntries (m : Message) : Flowing (r.handleAppendEntries m) := by
  unfold handleAppendEntries
  simp only [failsOnly_ite, flowing_send, failsOnly_bind, true_and, implies_true,
    failsBelow_flowing (r.raftLog.failsBelow_maybeAppend _ _ _ _)]
  intro _ q _
  split <;> simp

/-- `handle_heartbeat`. -/
@[simp] theorem flowing_handleHeartbeat (m : Message) : Flowing (r.handleHeartbeat m) := by
  unfold handleHeartbeat
  simp [failsBelow_flowing (r.raftLog.failsBelow_commitTo _)]

/-- `restore_node`. -/
@[simp] theorem flowing_restoreNode (nodes : List ℕ) (b : Bool) : Flowing (r.restoreNode nodes b) := by
  unfold restoreNode
  simp

/-- `handle_snapshot`. -/
@[simp] theorem flowing_handleSnapshot (m : Message) : Flowing (r.handleSnapshot m) := by
  unfold handleSnapshot restore
  simp [failsBelow_flowing (r.raftLog.failsBelow_commitTo _)]

/-- `step_candidate`. -/
@[simp] theorem flowing_stepCandidate (m : Message) : Flowing (r.stepCandidate m) := by
  unfold stepCandidate stepCandidateVoteResp
  cases m.type <;> simp

/-- `step_follower`. -/
@[simp] theorem flowing_stepFollower (m : Message) : Flowing (r.stepFollower m) := by
  unfold stepFollower
  cases m.type <;> simp

/-- `step` past the check of the term. -/
theorem flowing_stepBody {m : Message} (hr : m.type = .msgAppResp → r.raftLog.Reads) :
    Flowing (r.stepBody m) := by
  have hrole : Flowing (r.stepRole m) := by
    unfold stepRole
    split
    · exact r.flowing_stepLeader hr
    · exact r.flowing_stepCandidate m
    · exact r.flowing_stepCandidate m
    · exact r.flowing_stepFollower m
  unfold stepBody
  split
  · simp
  · simp [failsBelow_flowing (r.failsBelow_stepVote m)]
  · simp [failsBelow_flowing (r.failsBelow_stepVote m)]
  · exact hrole

/-- `step`. -/
theorem flowing_step {m : Message} (hr : m.type = .msgAppResp → r.raftLog.Reads) : Flowing (r.step m) := by
  have hfollow : ∀ lead, Flowing ((r.becomeFollower m.term lead).stepBody m) := fun lead => by
    refine flowing_stepBody _ fun htype => ?_
    rw [show (r.becomeFollower m.term lead).raftLog = r.raftLog from r.reset_raftLog m.term]
    exact hr htype
  have hbody := r.flowing_stepBody hr
  have hhigher : Flowing (r.stepHigherTerm m >>= fun r => r.stepBody m) := by
    unfold stepHigherTerm
    split_ifs
    · exact hbody
    · refine failsOnly_bind.mpr ⟨?_, fun r₁ h₁ => ?_⟩
      · simp [failsBelow_flowing (failsBelow_msgTypeToString m.type)]
      · obtain ⟨_, _, h₁⟩ := bind_eq_ok.mp h₁
        cases h₁
        exact hfollow m.fromId
    · refine failsOnly_bind.mpr ⟨?_, fun r₁ h₁ => ?_⟩
      · simp [failsBelow_flowing (failsBelow_msgTypeToString m.type)]
      · obtain ⟨_, _, h₁⟩ := bind_eq_ok.mp h₁
        cases h₁
        exact hfollow 0
  unfold step
  refine failsOnly_ite.mpr ⟨fun _ => hbody, fun _ => failsOnly_ite.mpr ⟨fun _ => ?_, fun _ => ?_⟩⟩
  · exact failsOnly_ite.mpr ⟨fun _ => failsOnly_pure _, fun _ => hhigher⟩
  · refine failsOnly_ite.mpr ⟨fun _ => ?_, fun _ => hbody⟩
    simp [failsBelow_flowing (r.failsBelow_stepLowerTerm m)]

/-- `tick`. -/
@[simp] theorem flowing_tick : Flowing r.tick := by
  have hstep : ∀ (r₁ : Raft) (m : Message), m.type ≠ .msgAppResp → Flowing (r₁.step m) :=
    fun r₁ m hm => r₁.flowing_step fun h => absurd h hm
  unfold tick
  split
  · unfold tickHeartbeat tickQuorum tickCheckQuorum
    simp [hstep]
  · unfold tickElection
    simp [hstep]

/-- `add_node_or_learner`. -/
@[simp] theorem flowing_addNodeOrLearner (id : ℕ) (b : Bool) : Flowing (r.addNodeOrLearner id b) := by
  unfold addNodeOrLearner markActive
  cases r.getProgress id <;> simp

/-- `remove_node`. -/
@[simp] theorem flowing_removeNode (id : ℕ) : Flowing (r.removeNode id) := by
  unfold removeNode
  simp

end Raft

namespace Host

variable {c : Config} {h : Host}

/-- No event fails in one of these ways. -/
theorem flowing_handle (hlog : h.log.Sound) (e : HostEvent) : Flowing (h.handle e) := by
  have hstep : ∀ m, Flowing (h.node.stepRaft m) := fun m => by
    unfold RawNode.stepRaft
    simp [h.node.raft.flowing_step fun _ => hlog.reads]
  cases e with
  | step m =>
    unfold handle RawNode.step
    simp [hstep]
  | call m =>
    unfold handle
    simp [hstep]
  | tick =>
    unfold handle RawNode.tick
    simp
  | applyConfChange cc =>
    unfold handle RawNode.applyConfChange
    simp
  | ready =>
    unfold handle
    cases h.ready with
    | some rd => simp
    | none =>
      unfold RawNode.ready Ready.new
      simp [failsBelow_flowing (RaftLog.failsBelow_nextEntries _)]
  | persist =>
    unfold handle
    cases h.ready with
    | none => simp
    | some rd =>
      unfold Ready.persist
      simp [failsBelow_flowing (MemoryStorage.failsBelow_append _ _)]
  | advance =>
    unfold handle
    cases h.ready <;> simp
  | createSnapshot index cs data =>
    unfold handle
    simp [failsBelow_flowing (MemoryStorage.failsBelow_createSnapshot _ _ _ _)]
  | compact index =>
    unfold handle
    simp [failsBelow_flowing (MemoryStorage.failsBelow_compact _ _)]

/-- Nothing is on its way in a node that was just built. -/
theorem Built.starts (hb : Built c h) : h.node.raft.Starts := by
  refine hb.holds (P := Raft.Starts) (fun r t lead _ _ _ => ?_) (fun r l hr => hr) fun r id hr => ?_
  · intro y p hp
    have hp : (r.reset t).getProgress y = some p := hp
    rw [show (r.becomeFollower t lead).maxInflight = r.maxInflight from r.reset_maxInflight t]
    exact (Raft.fresh_reset hp).2.2
  · refine (Raft.reshapes_addNodeOrLearner id false).mono fun r' hr' => ?_
    obtain ⟨⟨prs, learnerPrs, isLearner, rfl⟩, hpeers⟩ := hr'
    intro y p' hp'
    obtain ⟨p, ⟨active, learner, rfl⟩, hp | rfl⟩ := hpeers y p' hp'
    · exact hr y p hp
    · rfl

end Host

/-- A leader of three whose peer has acknowledged the first entry of its term, and was sent two more. -/
def twoOnTheirWay : List (Turn Host HostEvent) × Host :=
  Trace.run Host.handle (Host.started voterConfig)
    [.call { type := .msgHup }, .step { type := .msgVoteResp, fromId := 3, toId := 1, term := 1 },
      .step { type := .msgAppResp, fromId := 3, toId := 1, term := 1, index := 1 },
      .call { type := .msgProp, fromId := 1, entries := [{}] },
      .call { type := .msgProp, fromId := 1, entries := [{}] }]

end RaftCpp
