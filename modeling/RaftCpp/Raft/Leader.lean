import RaftCpp.Library.Quorum
import RaftCpp.Raft.Moves

/-!
# What a leader does

The handlers of a leader in detail: what they do to the progress of a peer, to the pending reads, to the log,
and to the index of the last configuration change. `LeaderMove` lists it, with what each change requires, and
every handler of a leader is a sequence of such moves. Some of them are shared with the changes of the
membership and with the start of a leadership.
-/

namespace RaftCpp

open Outcome

/-- The ways to change the progress of a peer, of a node that was in the state `s` when it was made to act
and is in the state `r` now. -/
inductive PeerMove (c : Cause) (s r : Raft) (y : ℕ) : Progress → Progress → Prop
  /-- The peer was heard from. -/
  | heard (p : Progress) : PeerMove c s r y p { p with recentActive := true }
  /-- `become_probe`. -/
  | probe (p : Progress) : PeerMove c s r y p p.becomeProbe
  /-- `become_replicate`. -/
  | replicate (p : Progress) (hstate : p.state = .probe) : PeerMove c s r y p p.becomeReplicate
  /-- `set_pause`. -/
  | pause (p : Progress) : PeerMove c s r y p p.setPause
  /-- `resume`. -/
  | resume (p : Progress) : PeerMove c s r y p p.resume
  /-- `snapshot_failure`. -/
  | failed (p : Progress) : PeerMove c s r y p p.snapshotFailure
  /-- Messages enter the window, or leave it. -/
  | window (p : Progress) (f : InFlights) : PeerMove c s r y p { p with inflights := f }
  /-- The node has written to its own log. -/
  | own (p : Progress) (hy : y = r.id) :
      PeerMove c s r y p (p.maybeUpdate r.raftLog.lastIndex).2
  /-- The peer acknowledges entries. -/
  | acked (p : Progress) (m : Message) (hc : c = .step m) (htype : m.type = .msgAppResp)
      (hreject : m.reject = false) (hy : y = m.fromId) :
      PeerMove c s r y p (p.maybeUpdate m.index).2
  /-- The peer rejects entries. -/
  | rejected (p p₀ : Progress) (m : Message) (hc : c = .step m) (htype : m.type = .msgAppResp)
      (hreject : m.reject = true) (hy : y = m.fromId) (hget : s.getProgress y = some p₀)
      (hp : p = { p₀ with recentActive := true }) :
      PeerMove c s r y p (p.maybeDecreasesTo m.index m.rejectHint).2
  /-- Entries are sent to a peer that replicates. -/
  | sent (p : Progress) (es : List Entry) (e : Entry)
      (hes : r.raftLog.entries p.next r.maxMsgSize = .ok (.ok, es)) (he : es.getLast? = some e) :
      PeerMove c s r y p (p.optimisticUpdate e.index)
  /-- A snapshot is sent. -/
  | snapshot (p : Progress) (hne : r.raftLog.snapshot.isEmpty = false) :
      PeerMove c s r y p (p.becomeSnapshot r.raftLog.snapshot.metadata.index)

/-- Some changes of the progress of a peer. -/
abbrev PeerCourse (c : Cause) (s r : Raft) (y : ℕ) : Progress → Progress → Prop :=
  Relation.ReflTransGen (PeerMove c s r y)

/-- One change of the state of a leader that was in the state `s` when it was made to act. -/
inductive LeaderMove (c : Cause) (s : Raft) : Raft → Raft → Prop
  /-- Nothing but the timers, the vote, the transfer, and the size of the uncommitted entries changes. -/
  | idle {r : Raft} (election heartbeat transferee size : ℕ) :
      LeaderMove c s r { r with
        electionElapsed := election
        heartbeatElapsed := heartbeat
        leadTransferee := transferee
        uncommittedSize := size }
  /-- The node grants its vote. -/
  | grant {r : Raft} (m : Message) (hc : c = .step m) (htype : m.type = .msgVote)
      (hvote : r.canVote m = true) : LeaderMove c s r { r with electionElapsed := 0, vote := m.fromId }
  /-- A message is sent. -/
  | send {r r' : Raft} (x : Message) (hx : SendOK c r x) (hne : x.type ≠ .msgReadIndexResp)
      (h : r.send x = .ok r') : LeaderMove c s r r'
  /-- The progress of a peer changes. -/
  | peer {r : Raft} (y : ℕ) (p p' : Progress) (hget : r.getProgress y = some p)
      (h : PeerCourse c s r y p p') : LeaderMove c s r (r.putProgress y p')
  /-- `maybe_commit` raises the commit index. -/
  | commit {r : Raft} {l : RaftLog} (mci : ℕ)
      (hmci : r.sortedMatches[sub64 r.sortedMatches.length r.quorum]? = some mci)
      (h : r.raftLog.maybeCommit mci r.term = .ok (true, l)) : LeaderMove c s r { r with raftLog := l }
  /-- The configuration changes of a proposal are accepted or refused. -/
  | filter {r : Raft} (m : Message) (hc : c = .step m) (htype : m.type = .msgProp) :
      LeaderMove c s r { r with
        pendingConfIndex := (Raft.filterConfChanges r.raftLog.applied r.raftLog.lastIndex 0
          r.pendingConfIndex m.entries).1 }
  /-- Entries are appended: the empty one of a new leader, or those of a proposal that were accepted. -/
  | append {r : Raft} {l : RaftLog} (es : List Entry) (size : ℕ) (hlead : r.state = .leader)
      (hes : es = [{}] ∨ ∃ m, c = .step m ∧ m.type = .msgProp ∧ r.raftLog = s.raftLog ∧
        Raft.filterConfChanges s.raftLog.applied s.raftLog.lastIndex 0 s.pendingConfIndex m.entries =
          (r.pendingConfIndex, es))
      (h : r.raftLog.append (Raft.stampEntries r.term (r.raftLog.lastIndex + 1) es) = .ok l) :
      LeaderMove c s r { r with raftLog := l, uncommittedSize := size }
  /-- A read is served at once: by a voter that is alone, or under the lease. -/
  | serve {r r' : Raft} (m : Message) (hc : c = .step m) (htype : m.type = .msgReadIndex)
      (hnow : r.quorum ≤ 1 ∨ r.readOnly.option = .leaseBased) (h : r.stepLeaderReadIndex m = .ok r') :
      LeaderMove c s r r'
  /-- A read is put off until a quorum has confirmed the leader. -/
  | ask {r : Raft} (m : Message) (ro : ReadOnly) (hc : c = .step m) (htype : m.type = .msgReadIndex)
      (hquorum : r.quorum > 1) (hoption : r.readOnly.option = .safe)
      (hterm : r.raftLog.term r.raftLog.committed = .ok r.term)
      (h : r.readOnly.addRequest r.raftLog.committed m = .ok ro) :
      LeaderMove c s r { r with readOnly := ro }
  /-- A peer confirms the leader, and the reads that a quorum has confirmed are served. -/
  | confirm {r r' : Raft} (m : Message) (hc : c = .step m) (htype : m.type = .msgHeartbeatResp)
      (hknown : (s.getProgress m.fromId).isSome = true) (h : r.ackRead m = .ok r') :
      LeaderMove c s r r'

/-- A sequence of moves of a leader. -/
abbrev LeaderCourse (c : Cause) (s : Raft) : Raft → Raft → Prop :=
  Relation.ReflTransGen (LeaderMove c s)

variable {c : Cause} {s r r' : Raft}

/-- A single move. -/
theorem LeaderMove.course (h : LeaderMove c s r r') : LeaderCourse c s r r' :=
  Relation.ReflTransGen.single h

/-- A single change. -/
theorem PeerMove.course {y : ℕ} {p p' : Progress} (h : PeerMove c s r y p p') :
    PeerCourse c s r y p p' := Relation.ReflTransGen.single h

/-! ## Reading -/

/-- Only the reads and the messages change. -/
def Raft.OnlyReads (r r' : Raft) : Prop :=
  ∃ readStates msgs readOnly,
    r' = { r with readStates := readStates, msgs := msgs, readOnly := readOnly }

namespace Raft

/-- Nothing changes. -/
theorem OnlyReads.refl (r : Raft) : r.OnlyReads r := ⟨_, _, _, rfl⟩

/-- One change after another. -/
theorem OnlyReads.trans {r'' : Raft} (h : r.OnlyReads r') (h' : r'.OnlyReads r'') :
    r.OnlyReads r'' := by
  obtain ⟨rs, ms, ro, rfl⟩ := h
  obtain ⟨rs', ms', ro', rfl⟩ := h'
  exact ⟨rs', ms', ro', rfl⟩

/-- Serving a read adds to the reads that are ready or sends an answer. -/
theorem onlyReads_answerRead (req : Message) (index : ℕ) :
    Ensures (r.answerRead req index) r.OnlyReads := by
  unfold answerRead
  refine Ensures.ite (fun _ => ?_) fun _ r' h => ?_
  · exact Ensures.bind Ensures.any fun ctx _ => Ensures.pure ⟨_, _, _, rfl⟩
  · obtain ⟨rfl, -⟩ := send_eq h
    exact ⟨_, _, _, rfl⟩

/-- Acknowledging a read. -/
theorem onlyReads_ackRead (m : Message) : Ensures (r.ackRead m) r.OnlyReads := by
  unfold ackRead
  refine Ensures.ite (fun _ => Ensures.pure (.refl r)) fun _ => ?_
  refine Ensures.ite (fun _ => Ensures.pure ⟨_, _, _, rfl⟩) fun _ => ?_
  refine Ensures.bind Ensures.any fun q _ => ?_
  refine Ensures.foldlM _ (fun r₁ rs _ h₁ => ?_) _ ⟨_, _, _, rfl⟩
  exact (onlyReads_answerRead rs.req rs.index).mono fun r' hr' => h₁.trans hr'

/-- A read that is served at once. -/
theorem onlyReads_serve (m : Message) (hnow : r.quorum ≤ 1 ∨ r.readOnly.option = .leaseBased) :
    Ensures (r.stepLeaderReadIndex m) r.OnlyReads := by
  unfold stepLeaderReadIndex
  refine Ensures.ite (fun hq => ?_) fun _ => ?_
  · have hlease : r.readOnly.option = .leaseBased := hnow.resolve_left (Nat.not_le_of_gt hq)
    split
    · exact Ensures.pure (.refl r)
    · refine Ensures.ite (fun _ => Ensures.pure (.refl r)) fun _ => ?_
      simp only [hlease]
      exact onlyReads_answerRead m _
  · exact Ensures.bind Ensures.any fun ctx _ => Ensures.pure ⟨_, _, _, rfl⟩

/-- Serving a read is a move. -/
theorem steady_answerRead (req : Message) (index : ℕ) :
    Ensures (r.answerRead req index) (Steady c r) := by
  unfold answerRead
  refine Ensures.ite (fun _ => ?_) fun _ => steady_send trivial
  exact Ensures.bind Ensures.any fun ctx _ => Ensures.pure ((Move.read _).steady rfl)

/-- Acknowledging a read is a sequence of moves. -/
theorem steady_ackRead (m : Message) : Ensures (r.ackRead m) (Steady c r) := by
  unfold ackRead
  refine Ensures.ite (fun _ => Ensures.pure (Steady.refl c r)) fun _ => ?_
  have hro : ∀ ro, Steady c r { r with readOnly := ro } := fun ro => Steady.other rfl
  refine Ensures.ite (fun _ => Ensures.pure (hro _)) fun _ => ?_
  refine Ensures.bind Ensures.any fun q _ => ?_
  refine Ensures.foldlM _ (fun r₁ rs _ h₁ => ?_) _ (hro _)
  exact (steady_answerRead rs.req rs.index).mono fun r' hr' => h₁.trans hr'

/-- The proposed entries are appended as they are, or as empty entries. -/
theorem mem_filterConfChanges {applied lastIndex : ℕ} {e : Entry} :
    ∀ {i p : ℕ} {es : List Entry}, e ∈ (filterConfChanges applied lastIndex i p es).2 →
      e ∈ es ∨ e = {}
  | _, _, [], h => Or.inl h
  | i, p, e' :: es, h => by
    unfold filterConfChanges at h
    have hcons : ∀ {e₁ : Entry} {j q : ℕ}, (e₁ = e' ∨ e₁ = {}) →
        e ∈ e₁ :: (filterConfChanges applied lastIndex j q es).2 → e ∈ e' :: es ∨ e = {} := by
      intro e₁ j q he₁ h
      rcases List.mem_cons.mp h with rfl | h
      · exact he₁.imp_left fun he => by rw [he]; exact List.mem_cons_self
      · exact (mem_filterConfChanges h).imp_left (List.mem_cons_of_mem _)
    split_ifs at h
    · exact hcons (Or.inr rfl) h
    · exact hcons (Or.inl rfl) h
    · exact hcons (Or.inl rfl) h

/-- Serving a read at once is a move. -/
theorem steady_serve (m : Message) (hnow : r.quorum ≤ 1 ∨ r.readOnly.option = .leaseBased) :
    Ensures (r.stepLeaderReadIndex m) (Steady c r) := by
  unfold stepLeaderReadIndex
  refine Ensures.ite (fun hq => ?_) fun _ => ?_
  · have hlease : r.readOnly.option = .leaseBased := hnow.resolve_left (Nat.not_le_of_gt hq)
    split
    · exact Ensures.pure (Steady.refl c r)
    · refine Ensures.ite (fun _ => Ensures.pure (Steady.refl c r)) fun _ => ?_
      simp only [hlease]
      exact steady_answerRead m _
  · exact Ensures.bind Ensures.any fun ctx _ => Ensures.pure ((Move.read _).steady rfl)

end Raft

/-- `append` leaves the commit index alone. -/
theorem RaftLog.append_committed {l : RaftLog} (es : List Entry) :
    Ensures (l.append es) fun l' => l'.committed = l.committed := by
  unfold RaftLog.append
  split
  · exact Ensures.pure rfl
  · refine Ensures.ite (fun _ => Ensures.error) fun _ => ?_
    exact Ensures.bind Ensures.any fun _ _ => Ensures.pure rfl

/-- `commit_to` commits what it is told to, or nothing. -/
theorem RaftLog.commitTo_committed {l : RaftLog} (k : ℕ) : Ensures (l.commitTo k) fun l' =>
    l'.committed = l.committed ∨ l.committed < k ∧ l'.committed = k := by
  unfold RaftLog.commitTo
  refine Ensures.ite (fun hlt => ?_) fun _ => Ensures.ok (Or.inl rfl)
  exact Ensures.ite (fun _ => Ensures.error) fun _ => Ensures.ok (Or.inr ⟨hlt, rfl⟩)

/-- `maybe_commit` of the log raises the commit index, or changes nothing. -/
theorem RaftLog.maybeCommit_cases {l : RaftLog} (maxIndex term : ℕ) :
    Ensures (l.maybeCommit maxIndex term) fun p =>
      p.1 = false ∧ p.2 = l ∨ p.1 = true ∧ l.commitTo maxIndex = .ok p.2 := by
  unfold RaftLog.maybeCommit
  refine Ensures.ite (fun _ => ?_) fun _ => Ensures.pure (Or.inl ⟨rfl, rfl⟩)
  split
  · exact Ensures.error
  · refine Ensures.ite (fun _ => ?_) fun _ => Ensures.pure (Or.inl ⟨rfl, rfl⟩)
    intro p hp
    obtain ⟨l', hl', hp⟩ := bind_eq_ok.mp hp
    cases hp
    exact Or.inr ⟨rfl, hl'⟩

/-- A move of a leader is a sequence of moves that leave the role alone. -/
theorem LeaderMove.steady (h : LeaderMove c s r r') : Steady c r r' := by
  cases h with
  | idle election heartbeat transferee size => exact Steady.other rfl
  | grant m hc htype hvote => exact (Move.grant m hc htype hvote).steady rfl
  | send x hx hne h => exact Raft.steady_send hx _ h
  | peer y p p' hget h => exact Raft.steady_putProgress r y p'
  | commit mci hmci h =>
    obtain ⟨hfalse, -⟩ | ⟨-, hl⟩ := RaftLog.maybeCommit_cases mci r.term _ h
    · cases hfalse
    · exact (Move.log (LogMove.commit mci hl)).steady rfl
  | filter m hc htype => exact Steady.other rfl
  | @append l es size hlead hes h =>
    have hlog : LogMove c r l := by
      obtain rfl | ⟨m, hc, htype, -, hfilter⟩ := hes
      · exact LogMove.elected hlead h
      · refine LogMove.propose m es hc htype hlead (fun e he => ?_) h
        exact Raft.mem_filterConfChanges (by rw [hfilter]; exact he)
    exact ((Move.log hlog).steady rfl).trans (Steady.other rfl)
  | serve m hc htype hnow h => exact Raft.steady_serve m hnow _ h
  | ask m ro hc htype hquorum hoption hterm h => exact Steady.other rfl
  | confirm m hc htype hknown h => exact Raft.steady_ackRead m _ h

/-- Moves of a leader are moves that leave the role alone. -/
theorem LeaderCourse.steady (h : LeaderCourse c s r r') : Steady c r r' := by
  induction h with
  | refl => exact Steady.refl c r
  | tail _ hmove ih => exact ih.trans hmove.steady

/-- The role stays. -/
theorem LeaderCourse.state (h : LeaderCourse c s r r') : r'.state = r.state := h.steady.state

/-- The term stays. -/
theorem LeaderMove.term (h : LeaderMove c s r r') : r'.term = r.term := by
  have hreads : ∀ {r₁}, r.OnlyReads r₁ → r₁.term = r.term := by
    rintro _ ⟨_, _, _, rfl⟩
    rfl
  cases h with
  | send x hx hne h =>
    obtain ⟨rfl, -⟩ := Raft.send_eq h
    rfl
  | peer y p p' hget h => exact congrArg Outline.term (r.putProgress_outline y p')
  | serve m hc htype hnow h => exact hreads (Raft.onlyReads_serve m hnow _ h)
  | confirm m hc htype hknown h => exact hreads (Raft.onlyReads_ackRead m _ h)
  | _ => rfl

/-- The term stays. -/
theorem LeaderCourse.term (h : LeaderCourse c s r r') : r'.term = r.term := by
  induction h with
  | refl => rfl
  | tail _ hmove ih => exact hmove.term.trans ih

/-- A leader does not take back what is committed. -/
theorem LeaderMove.committed_le (h : LeaderMove c s r r') :
    r.raftLog.committed ≤ r'.raftLog.committed := by
  have hreads : ∀ {r₁}, r.OnlyReads r₁ → r.raftLog.committed ≤ r₁.raftLog.committed := by
    rintro _ ⟨_, _, _, rfl⟩
    exact le_refl _
  cases h with
  | send x hx hne h =>
    obtain ⟨rfl, -⟩ := Raft.send_eq h
    exact le_refl _
  | peer y p p' hget h =>
    have hlog : (r.putProgress y p').raftLog = r.raftLog :=
      congrArg Outline.raftLog (r.putProgress_outline y p')
    rw [hlog]
  | @commit l mci hmci h =>
    obtain ⟨hfalse, -⟩ | ⟨-, hl⟩ := RaftLog.maybeCommit_cases mci r.term _ h
    · cases hfalse
    · have hcases := RaftLog.commitTo_committed mci _ hl
      show r.raftLog.committed ≤ l.committed
      dsimp only at hcases
      omega
  | append es size hlead hes h => exact (RaftLog.append_committed _ _ h).ge
  | serve m hc htype hnow h => exact hreads (Raft.onlyReads_serve m hnow _ h)
  | confirm m hc htype hknown h => exact hreads (Raft.onlyReads_ackRead m _ h)
  | _ => exact le_refl _

/-- A leader does not take back what is committed. -/
theorem LeaderCourse.committed_le (h : LeaderCourse c s r r') :
    r.raftLog.committed ≤ r'.raftLog.committed := by
  induction h with
  | refl => exact le_refl _
  | tail _ hmove ih => exact ih.trans hmove.committed_le

namespace Raft

/-! ## Sending -/

/-- The progress that the pointer leads to. -/
theorem peerProgress_eq {y : ℕ} : Ensures (r.peerProgress y) fun p => r.getProgress y = some p := by
  intro p hp
  unfold peerProgress at hp
  split at hp
  · next h =>
    cases hp
    exact h
  · cases hp

/-- Sending a message is a move. -/
theorem leads_send {x : Message} (hx : SendOK c r x) (hne : x.type ≠ .msgReadIndexResp) :
    Ensures (r.send x) (LeaderCourse c s r) := fun _ h => (LeaderMove.send x hx hne h).course

/-- `maybe_send_append` sends at most one message, with entries of the log or a snapshot. -/
theorem leads_maybeSendAppend (hl : r.state = .leader ∨ c = .confChange) (peer : ℕ)
    (sendIfEmpty : Bool) :
    Ensures (r.maybeSendAppend peer sendIfEmpty) fun p => LeaderCourse c s r p.2 := by
  unfold maybeSendAppend
  refine Ensures.bind peerProgress_eq fun pr hget => ?_
  refine Ensures.ite (fun _ => Ensures.pure .refl) fun _ => ?_
  refine Ensures.bindEq fun ⟨status, es⟩ hes => ?_
  refine Ensures.ite (fun _ => Ensures.pure .refl) fun _ => ?_
  have hsend : ∀ (x : Message) (pr' : Progress), SendOK c r x ∧ x.type ≠ .msgReadIndexResp →
      PeerCourse c s r peer pr pr' →
      Ensures (do
        let r ← (r.putProgress peer pr').send x
        return (true, r)) fun p => LeaderCourse c s r p.2 := fun x pr' hx hpr => by
    obtain ⟨prs, learnerPrs, hput⟩ := r.putProgress_eq peer pr'
    have hx' : SendOK c (r.putProgress peer pr') x := by
      rw [hput]
      exact hx.1
    refine Ensures.bind (leads_send (s := s) hx' hx.2) fun r' hr' => Ensures.pure ?_
    exact (LeaderMove.peer peer pr pr' hget hpr).course.trans hr'
  -- A message with entries, or a snapshot where they are gone.
  split
  · next term hterm hok =>
    obtain rfl := Status.isOk_iff.mp hok
    refine Ensures.bind (P := fun q => (SendOK c r q.1 ∧ q.1.type ≠ .msgReadIndexResp) ∧
      PeerCourse c s r peer pr q.2) ?_ fun q hq => hsend q.1 q.2 hq.1 hq.2
    unfold prepareAppend
    have happ : SendOK c r
        { toId := peer, type := .msgApp, index := sub64 pr.next 1, logTerm := term, entries := es,
          commit := r.raftLog.committed } := ⟨hl, pr.next, r.maxMsgSize, hes, rfl, rfl⟩
    dsimp only
    split
    · exact Ensures.pure ⟨⟨happ, nofun⟩, .refl⟩
    · next e he =>
      split
      · refine Ensures.bind Ensures.any fun f _ => Ensures.pure ⟨⟨happ, nofun⟩, ?_⟩
        exact (PeerMove.sent pr es e hes he).course.tail (PeerMove.window _ f)
      · exact Ensures.pure ⟨⟨happ, nofun⟩, (PeerMove.pause pr).course⟩
      · exact Ensures.error
  · refine Ensures.ite (fun _ => Ensures.pure .refl) fun _ => ?_
    refine Ensures.bind (P := fun q => (SendOK c r q.1 ∧ q.1.type ≠ .msgReadIndexResp) ∧
      PeerCourse c s r peer pr q.2) ?_ fun q hq => hsend q.1 q.2 hq.1 hq.2
    unfold prepareSnapshot
    dsimp only
    refine Ensures.ite (fun _ => Ensures.error) fun hne => ?_
    have hsnap : r.raftLog.snapshot.isEmpty = false := by simpa using hne
    exact Ensures.ok ⟨⟨⟨hl, rfl, hsnap⟩, nofun⟩, (PeerMove.snapshot pr hsnap).course⟩

/-- `send_append`. -/
theorem leads_sendAppend (hl : r.state = .leader ∨ c = .confChange) (peer : ℕ) :
    Ensures (r.sendAppend peer) (LeaderCourse c s r) := by
  unfold sendAppend
  exact Ensures.bind (leads_maybeSendAppend hl peer true) fun p hp => Ensures.pure hp

/-- The loop of `maybe_send_append`. -/
theorem leads_sendAppendLoop (peer : ℕ) :
    ∀ (fuel : ℕ) {r : Raft}, (r.state = .leader ∨ c = .confChange) →
      Ensures (sendAppendLoop peer fuel r) (LeaderCourse c s r)
  | 0, _, _ => Ensures.error
  | fuel + 1, r, hl => by
    unfold sendAppendLoop
    refine Ensures.bind (leads_maybeSendAppend (s := s) hl peer false) fun p hp => ?_
    refine Ensures.ite (fun _ => ?_) fun _ => Ensures.pure hp
    exact (leads_sendAppendLoop peer fuel (hl.imp_left hp.state.trans)).mono fun r' hr' => hp.trans hr'

/-- A loop over the peers that leaves out the node itself. -/
theorem leads_forPeers {f : Raft → ℕ → Result Raft} {r : Raft}
    (hf : ∀ r₁ id, LeaderCourse c s r r₁ → Ensures (f r₁ id) (LeaderCourse c s r₁)) (ids : List ℕ) :
    Ensures (ids.foldlM (fun r id => if id = r.id then .ok r else f r id) r) (LeaderCourse c s r) := by
  refine Ensures.foldlM ids (fun r₁ id _ h₁ => ?_) r .refl
  refine Ensures.ite (fun _ => Ensures.ok h₁) fun _ => ?_
  exact (hf r₁ id h₁).mono fun r₂ h₂ => h₁.trans h₂

/-- `bcast_append`. -/
theorem leads_bcastAppend (hl : r.state = .leader ∨ c = .confChange) :
    Ensures r.bcastAppend (LeaderCourse c s r) := by
  unfold bcastAppend
  exact leads_forPeers (fun r₁ id h₁ => leads_sendAppend (hl.imp_left h₁.state.trans) id) _

/-- `send_heartbeat`. -/
theorem leads_sendHeartbeat (hl : r.state = .leader ∨ c = .confChange) (peer : ℕ) (ctx : Bytes) :
    Ensures (r.sendHeartbeat peer ctx) (LeaderCourse c s r) := by
  unfold sendHeartbeat
  exact Ensures.bind Ensures.any fun pr _ => leads_send hl nofun

/-- `bcast_heartbeat_with_ctx`. -/
theorem leads_bcastHeartbeatWithCtx (hl : r.state = .leader ∨ c = .confChange) (ctx : Bytes) :
    Ensures (r.bcastHeartbeatWithCtx ctx) (LeaderCourse c s r) := by
  unfold bcastHeartbeatWithCtx
  exact leads_forPeers (fun r₁ id h₁ => leads_sendHeartbeat (hl.imp_left h₁.state.trans) id ctx) _

/-- `send_timeout_now`. -/
theorem leads_sendTimeoutNow (hl : r.state = .leader ∨ c = .confChange) (peer : ℕ) :
    Ensures (r.sendTimeoutNow peer) (LeaderCourse c s r) := by
  unfold sendTimeoutNow
  exact leads_send hl nofun

/-! ## The log -/

/-- An element that was found is at its place. -/
theorem elemAt_eq {α : Type} {xs : List α} {i : ℕ} :
    Ensures (elemAt xs i) fun x => xs[i]? = some x := by
  intro x hx
  unfold elemAt at hx
  split at hx
  · next h =>
    cases hx
    exact h
  · cases hx

/-- A quorum of the voters matches at least the index that `maybe_commit` finds. -/
theorem quorum_le_countP {mci : ℕ}
    (hget : r.sortedMatches[sub64 r.sortedMatches.length r.quorum]? = some mci) :
    r.quorum ≤ r.prs.entries.countP fun e => decide (mci ≤ e.2.matched) := by
  have hle := Consensus.length_sub_le_countP (List.pairwise_insertionSort _ _) hget
  have hlen : r.sortedMatches.length = r.prs.keys.length := by
    simp [sortedMatches, AList.keys, List.keys]
  have hcount : r.sortedMatches.countP (fun x => decide (mci ≤ x)) =
      r.prs.entries.countP fun e => decide (mci ≤ e.2.matched) := by
    rw [sortedMatches, (List.perm_insertionSort _ _).countP_eq, List.countP_map]
    rfl
  obtain ⟨hi, -⟩ := List.getElem?_eq_some_iff.mp hget
  have hq : r.quorum ≤ r.sortedMatches.length := by
    unfold quorum
    omega
  rw [sub64_of_le hq] at hle
  rw [← hcount]
  unfold sortedMatches at hq hle ⊢
  omega

/-- `maybe_commit` raises the commit index, or changes nothing. -/
theorem leads_maybeCommit : Ensures r.maybeCommit fun p => LeaderCourse c s r p.2 := by
  unfold maybeCommit
  refine Ensures.bind elemAt_eq fun mci hmci => ?_
  refine Ensures.bindEq fun ⟨committed, l⟩ hl => Ensures.pure ?_
  obtain ⟨-, heq⟩ | ⟨htrue, -⟩ := RaftLog.maybeCommit_cases mci r.term _ hl
  · obtain rfl : l = r.raftLog := heq
    exact .refl
  · obtain rfl : committed = true := htrue
    exact (LeaderMove.commit mci hmci hl).course

/-- `append_entry` appends what it may, or changes nothing. -/
theorem leads_appendEntry (hl : r.state = .leader) {es : List Entry}
    (hes : es = [{}] ∨ ∃ m, c = .step m ∧ m.type = .msgProp ∧ r.raftLog = s.raftLog ∧
      filterConfChanges s.raftLog.applied s.raftLog.lastIndex 0 s.pendingConfIndex m.entries =
        (r.pendingConfIndex, es)) :
    Ensures (r.appendEntry es) fun p => LeaderCourse c s r p.2 ∧ (p.1 = false → p.2 = r) := by
  unfold appendEntry
  dsimp only
  cases hinc : r.increaseUncommittedSize (stampEntries r.term (r.raftLog.lastIndex + 1) es) with
  | none => exact Ensures.pure ⟨.refl, fun _ => rfl⟩
  | some r₁ =>
    obtain ⟨n, rfl⟩ := increaseUncommittedSize_eq hinc
    refine Ensures.bindEq fun l happ => ?_
    have h₁ : LeaderCourse c s r { r with uncommittedSize := n, raftLog := l } :=
      (LeaderMove.append es n hl hes happ).course
    refine Ensures.bind peerProgress_eq fun pr hget => ?_
    have hput := LeaderMove.peer (c := c) (s := s) _ pr _ hget (PeerMove.own pr rfl).course
    refine Ensures.bind (leads_maybeCommit (c := c) (s := s)) fun q hq => Ensures.pure ⟨?_, nofun⟩
    exact (h₁.tail hput).trans hq

/-- What counts towards the limit on uncommitted entries. -/
theorem leads_reduceUncommittedSize (es : List Entry) :
    LeaderCourse c s r (r.reduceUncommittedSize es) := by
  obtain ⟨size, hsize⟩ := r.reduceUncommittedSize_eq es
  rw [hsize]
  exact (LeaderMove.idle r.electionElapsed r.heartbeatElapsed r.leadTransferee size).course

/-! ## The messages -/

/-- `step_leader` on a proposal. -/
theorem leads_stepLeaderProp (hl : r.state = .leader) {m : Message} (hc : c = .step m)
    (htype : m.type = .msgProp) : Ensures (r.stepLeaderProp m) fun p => LeaderCourse c r r p.2 := by
  unfold stepLeaderProp
  refine Ensures.ite (fun _ => Ensures.error) fun _ => ?_
  refine Ensures.ite (fun _ => Ensures.pure .refl) fun _ => ?_
  refine Ensures.ite (fun _ => Ensures.pure .refl) fun _ => ?_
  have hfilter := LeaderMove.filter (c := c) (s := r) (r := r) m hc htype
  generalize hpair : filterConfChanges r.raftLog.applied r.raftLog.lastIndex 0 r.pendingConfIndex
    m.entries = pair at hfilter ⊢
  obtain ⟨n, es⟩ := pair
  refine Ensures.bind (leads_appendEntry (c := c) (s := r) (r := { r with pendingConfIndex := n }) hl
    (Or.inr ⟨m, hc, htype, rfl, hpair⟩)) fun p hp => ?_
  have hp' : LeaderCourse c r r p.2 := hfilter.course.trans hp.1
  refine Ensures.ite (fun _ => Ensures.pure hp') fun _ => ?_
  refine Ensures.bind (leads_bcastAppend (c := c) (s := r) (Or.inl (hp'.state.trans hl))) fun r₂ h₂ => ?_
  exact Ensures.pure (hp'.trans h₂)

/-- `step_leader` on a read request. -/
theorem leads_stepLeaderReadIndex (hl : r.state = .leader) {m : Message} (hc : c = .step m)
    (htype : m.type = .msgReadIndex) : Ensures (r.stepLeaderReadIndex m) (LeaderCourse c s r) := by
  by_cases hnow : r.quorum ≤ 1 ∨ r.readOnly.option = .leaseBased
  · exact fun r' h => (LeaderMove.serve m hc htype hnow h).course
  obtain ⟨hquorum, hoption⟩ := not_or.mp hnow
  have hsafe : r.readOnly.option = .safe := by
    cases hopt : r.readOnly.option with
    | safe => rfl
    | leaseBased => exact absurd hopt hoption
  unfold stepLeaderReadIndex
  refine Ensures.ite (fun hq => ?_) fun hq => absurd (Nat.lt_of_not_le hquorum) hq
  split
  · exact Ensures.pure .refl
  · next term hterm =>
    refine Ensures.ite (fun _ => Ensures.pure .refl) fun hown => ?_
    obtain rfl := not_not.mp hown
    simp only [hsafe]
    refine Ensures.bindEq fun ro hro => ?_
    refine Ensures.bind Ensures.any fun ctx _ => ?_
    have hask := LeaderMove.ask (c := c) (s := s) m ro hc htype hq hsafe hterm hro
    have hl₁ : ({ r with readOnly := ro } : Raft).state = .leader := hl
    exact (leads_bcastHeartbeatWithCtx (Or.inl hl₁) ctx).mono fun r' hr' => hask.course.trans hr'

/-- What the leader does after an acknowledgement that was news. -/
theorem leads_sendOnAck (hl : r.state = .leader) (peer : ℕ) (oldPaused : Bool) :
    Ensures (r.sendOnAck peer oldPaused) (LeaderCourse c s r) := by
  unfold sendOnAck
  have hcommit : Ensures (r.commitOnAck peer oldPaused) (LeaderCourse c s r) := by
    unfold commitOnAck
    refine Ensures.bind (leads_maybeCommit (c := c) (s := s)) fun p hp => ?_
    have hl₁ := hp.state.trans hl
    refine Ensures.ite (fun _ => ?_) fun _ => ?_
    · exact (leads_bcastAppend (Or.inl hl₁)).mono fun r' hr' => hp.trans hr'
    refine Ensures.ite (fun _ => ?_) fun _ => Ensures.pure hp
    exact (leads_sendAppend (Or.inl hl₁) peer).mono fun r' hr' => hp.trans hr'
  refine Ensures.bind hcommit fun r₁ h₁ => ?_
  have hl₁ := h₁.state.trans hl
  refine Ensures.bind (leads_sendAppendLoop (c := c) (s := s) peer _ (Or.inl hl₁)) fun r₂ h₂ => ?_
  refine Ensures.bind Ensures.any fun pr _ => ?_
  have h₁₂ : LeaderCourse c s r r₂ := h₁.trans h₂
  refine Ensures.ite (fun _ => ?_) fun _ => Ensures.pure h₁₂
  exact (leads_sendTimeoutNow (Or.inl (h₁₂.state.trans hl)) peer).mono fun r' hr' => h₁₂.trans hr'

/-- `step_leader` on the answer to an append. -/
theorem leads_stepLeaderAppResp (hl : r.state = .leader) {m : Message} (hc : c = .step m)
    (htype : m.type = .msgAppResp) {pr : Progress} (hget : r.getProgress m.fromId = some pr) :
    Ensures (r.stepLeaderAppResp m pr) (LeaderCourse c r r) := by
  have hput : ∀ p, PeerCourse c r r m.fromId pr p → LeaderCourse c r r (r.putProgress m.fromId p) :=
    fun p hp => (LeaderMove.peer m.fromId pr p hget hp).course
  have hheard : PeerCourse c r r m.fromId pr { pr with recentActive := true } :=
    (PeerMove.heard pr).course
  unfold stepLeaderAppResp
  dsimp only
  by_cases hreject : m.reject = true
  · rw [if_pos hreject]
    have hrejected := hheard.tail (PeerMove.rejected _ pr m hc htype hreject rfl hget rfl)
    generalize Progress.maybeDecreasesTo _ m.index m.rejectHint = q at hrejected ⊢
    refine Ensures.ite (fun _ => ?_) fun _ => Ensures.pure (hput _ hrejected)
    have hput' : LeaderCourse c r r (r.putProgress m.fromId
        (if q.2.state = .replicate then q.2.becomeProbe else q.2)) := by
      split_ifs
      · exact hput _ (hrejected.tail (PeerMove.probe _))
      · exact hput _ hrejected
    exact (leads_sendAppend (Or.inl (hput'.state.trans hl)) m.fromId).mono fun r' hr' => hput'.trans hr'
  · rw [if_neg hreject]
    have hacked := hheard.tail (PeerMove.acked _ m hc htype (by simpa using hreject) rfl)
    generalize Progress.maybeUpdate _ m.index = q at hacked ⊢
    refine Ensures.ite (fun _ => ?_) fun _ => Ensures.pure (hput _ hacked)
    refine Ensures.bind (P := PeerCourse c r r m.fromId pr) ?_ fun p hp => ?_
    · unfold progressOnAck
      split
      · next hstate => exact Ensures.ok (hacked.tail (PeerMove.replicate _ hstate))
      · refine Ensures.ite (fun _ => Ensures.ok ?_) fun _ => Ensures.ok hacked
        exact hacked.tail (PeerMove.probe _)
      · refine Ensures.bind Ensures.any fun f _ => Ensures.pure ?_
        exact hacked.tail (PeerMove.window _ f)
    · refine (leads_sendOnAck (c := c) (s := r) ((hput p hp).state.trans hl) m.fromId _).mono
        fun r' hr' => ?_
      exact (hput p hp).trans hr'

/-- `step_leader` on the answer to a heartbeat. -/
theorem leads_stepLeaderHeartbeatResp (hl : r.state = .leader) {m : Message} (hc : c = .step m)
    (htype : m.type = .msgHeartbeatResp) {pr : Progress} (hget : r.getProgress m.fromId = some pr) :
    Ensures (r.stepLeaderHeartbeatResp m pr) (LeaderCourse c r r) := by
  unfold stepLeaderHeartbeatResp
  refine Ensures.bind (P := PeerCourse c r r m.fromId pr) ?_ fun p hp => ?_
  · unfold progressOnHeartbeat
    have hresumed : PeerCourse c r r m.fromId pr ({ pr with recentActive := true } : Progress).resume :=
      (PeerMove.heard pr).course.tail (PeerMove.resume _)
    dsimp only
    refine Ensures.ite (fun _ => ?_) fun _ => Ensures.ok hresumed
    exact Ensures.bind Ensures.any fun f _ => Ensures.pure (hresumed.tail (PeerMove.window _ f))
  have h₁ : LeaderCourse c r r (r.putProgress m.fromId p) :=
    (LeaderMove.peer m.fromId pr p hget hp).course
  have hconfirm : ∀ r₁, Ensures (r₁.ackRead m) (LeaderCourse c r r₁) := fun r₁ r' h =>
    (LeaderMove.confirm m hc htype (by rw [hget]; rfl) h).course
  refine Ensures.ite (fun _ => ?_) fun _ => (hconfirm _).mono fun r' hr' => h₁.trans hr'
  refine Ensures.bind (leads_sendAppend (c := c) (s := r) (Or.inl (h₁.state.trans hl)) m.fromId)
    fun r₂ h₂ => ?_
  exact (hconfirm r₂).mono fun r' hr' => h₁.trans (h₂.trans hr')

/-- `step_leader` on a request to transfer the leadership. -/
theorem leads_stepLeaderTransfer (hl : r.state = .leader) (m : Message) (pr : Progress) :
    Ensures (r.stepLeaderTransfer m pr) (LeaderCourse c s r) := by
  have hstart : ∀ {r₁ : Raft}, LeaderCourse c s r r₁ →
      Ensures (r₁.startTransfer m.fromId pr) (LeaderCourse c s r) := fun {r₁} h₁ => by
    unfold startTransfer
    refine Ensures.ite (fun _ => Ensures.ok h₁) fun _ => ?_
    have h₂ : LeaderCourse c s r { r₁ with electionElapsed := 0, leadTransferee := m.fromId } :=
      h₁.tail (LeaderMove.idle 0 r₁.heartbeatElapsed m.fromId r₁.uncommittedSize)
    have hl₂ := h₂.state.trans hl
    refine Ensures.ite (fun _ => ?_) fun _ => ?_
    · exact (leads_sendTimeoutNow (Or.inl hl₂) _).mono fun r' hr' => h₂.trans hr'
    · exact (leads_sendAppend (Or.inl hl₂) _).mono fun r' hr' => h₂.trans hr'
  unfold stepLeaderTransfer
  refine Ensures.ite (fun _ => Ensures.ok .refl) fun _ => ?_
  refine Ensures.ite (fun _ => ?_) fun _ => hstart .refl
  refine Ensures.ite (fun _ => Ensures.ok .refl) fun _ => hstart ?_
  exact (LeaderMove.idle r.electionElapsed r.heartbeatElapsed 0 r.uncommittedSize).course

/-- `step_leader` on the messages that concern the progress of their sender. -/
theorem leads_stepLeaderPeer (hl : r.state = .leader) {m : Message} (hc : c = .step m) :
    Ensures (r.stepLeaderPeer m) (LeaderCourse c r r) := by
  unfold stepLeaderPeer
  cases hget : r.getProgress m.fromId with
  | none => exact Ensures.ok .refl
  | some pr =>
    have hput : ∀ p, PeerCourse c r r m.fromId pr p → LeaderCourse c r r (r.putProgress m.fromId p) :=
      fun p hp => (LeaderMove.peer m.fromId pr p hget hp).course
    dsimp only
    cases htype : m.type with
    | msgAppResp => exact leads_stepLeaderAppResp hl hc htype hget
    | msgHeartbeatResp => exact leads_stepLeaderHeartbeatResp hl hc htype hget
    | msgSnapStatus =>
      refine Ensures.ok ?_
      unfold stepLeaderSnapStatus
      split_ifs
      · exact .refl
      · have hfailed := (PeerMove.failed (c := c) (s := r) (r := r) (y := m.fromId) pr).course
        exact hput _ ((hfailed.tail (PeerMove.probe _)).tail (PeerMove.pause _))
      · exact hput _ ((PeerMove.probe pr).course.tail (PeerMove.pause _))
    | msgUnreachable =>
      refine Ensures.ite (fun _ => Ensures.ok ?_) fun _ => Ensures.ok .refl
      exact hput _ (PeerMove.probe pr).course
    | msgTransferLeader => exact leads_stepLeaderTransfer hl m pr
    | _ => exact Ensures.ok .refl

/-- `step_leader`, except for a check of the quorum. -/
theorem leads_stepLeader (hl : r.state = .leader) {m : Message} (hc : c = .step m)
    (hcheck : m.type ≠ .msgCheckQuorum) :
    Ensures (r.stepLeader m) fun p => LeaderCourse c r r p.2 := by
  unfold stepLeader
  cases htype : m.type with
  | msgBeat =>
    unfold bcastHeartbeat
    exact Ensures.bind (leads_bcastHeartbeatWithCtx (c := c) (s := r) (Or.inl hl) _) fun r' hr' =>
      Ensures.pure hr'
  | msgCheckQuorum => exact absurd htype hcheck
  | msgProp => exact leads_stepLeaderProp hl hc htype
  | msgReadIndex =>
    exact Ensures.bind (leads_stepLeaderReadIndex (c := c) (s := r) hl hc htype) fun r' hr' =>
      Ensures.pure hr'
  | _ => exact Ensures.bind (leads_stepLeaderPeer (c := c) hl hc) fun r' hr' => Ensures.pure hr'

/-- `step` on a request for a vote. -/
theorem leads_stepVote {m : Message} (hc : c = .step m) :
    Ensures (r.stepVote m) (LeaderCourse c s r) := by
  unfold stepVote
  refine Ensures.ite (fun _ => Ensures.pure .refl) fun hlearner => ?_
  have hl : r.isLearner = false := by simpa using hlearner
  refine Ensures.bindEq fun respType hresp => ?_
  have htype : m.type = .msgVote ∧ respType = .msgVoteResp ∨
      m.type = .msgPreVote ∧ respType = .msgPreVoteResp := by
    unfold voteRespMsgType at hresp
    split at hresp
    · next h => exact Or.inl ⟨h, (Except.ok.inj hresp).symm⟩
    · next h => exact Or.inr ⟨h, (Except.ok.inj hresp).symm⟩
    · cases hresp
  have hne : respType ≠ .msgReadIndexResp := by
    obtain ⟨-, rfl⟩ | ⟨-, rfl⟩ := htype
    · exact nofun
    · exact nofun
  refine Ensures.ite (fun hcan => ?_) fun _ => ?_
  · refine Ensures.bindEq fun r₁ hr₁ => ?_
    have hsend : SendOK c r { toId := m.fromId, term := m.term, type := respType } := by
      obtain ⟨ht, rfl⟩ | ⟨ht, rfl⟩ := htype
      · exact fun _ => ⟨m, hc, ht, rfl, rfl, hl⟩
      · exact fun _ => ⟨m, hc, ht, rfl, rfl, hl⟩
    have h₁ : LeaderCourse c s r r₁ := leads_send hsend hne r₁ hr₁
    have hcan₁ : r₁.canVote m = true := by
      obtain ⟨rfl, -⟩ := send_eq hr₁
      exact hcan.1
    refine Ensures.ite (fun hvote => Ensures.pure ?_) fun _ => Ensures.pure h₁
    exact h₁.tail (LeaderMove.grant m hc hvote hcan₁)
  · apply leads_send
    · obtain ⟨-, rfl⟩ | ⟨-, rfl⟩ := htype
      · exact nofun
      · exact nofun
    · exact hne

/-- `step` on a message of a lower term. -/
theorem leads_stepLowerTerm (m : Message) : Ensures (r.stepLowerTerm m) (LeaderCourse c s r) := by
  unfold stepLowerTerm
  refine Ensures.ite (fun _ => leads_send trivial nofun) fun _ => ?_
  refine Ensures.ite (fun _ => leads_send nofun nofun) fun _ => ?_
  exact Ensures.bind Ensures.any fun _ _ => Ensures.pure .refl

end Raft

end RaftCpp
