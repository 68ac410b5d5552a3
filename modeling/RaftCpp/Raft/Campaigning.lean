import RaftCpp.Raft.Entries
import RaftCpp.Raft.Host

/-!
# Elections and configuration changes

A request to campaign is put off while a committed configuration change is still to be applied. A follower
that is told to take over campaigns all the same.
-/

namespace RaftCpp

open Outcome

variable {c : Cause} {r r' : Raft}

/-- A configuration change is committed and not applied yet. -/
def RaftLog.HasPendingConf (l : RaftLog) : Prop := ∃ e ∈ l.unappliedEntries, e.type = .entryConfChange

instance (l : RaftLog) : Decidable l.HasPendingConf :=
  inferInstanceAs (Decidable (∃ e ∈ l.unappliedEntries, e.type = .entryConfChange))

namespace Raft

/-- A node that may campaign on a request has no configuration change to apply. -/
theorem MayHup.not_hasPendingConf (h : r.MayHup) : ¬r.raftLog.HasPendingConf := by
  obtain ⟨es, hslice, hconf⟩ := h
  rintro ⟨e, he, htype⟩
  obtain ⟨i, hi, hentry⟩ := List.mem_filterMap.mp he
  have hrange := List.mem_range'_1.mp hi
  have hmem : e ∈ es := RaftLog.mem_of_slice hslice hrange.1 (by omega) hentry
  refine hconf ⟨?_, by omega⟩
  unfold numOfPendingConf
  exact List.countP_pos_iff.mpr ⟨e, hmem, by rw [htype]; rfl⟩

/-! ## Leaving the role of a follower -/

/-- A campaign for votes makes a candidate or a leader. -/
theorem campaignElection_state (ctx : Bytes) :
    Ensures (r.campaignElection ctx) fun r' => r'.state ≠ .follower := by
  unfold campaignElection becomeCandidate
  refine Ensures.bind (P := fun r₁ => r₁.state = .candidate) ?_ fun r₁ h₁ => ?_
  · exact Ensures.ite (fun _ => Ensures.error) fun _ => Ensures.ok rfl
  · have h₂ : (r₁.poll r₁.id true).2.state = .candidate := h₁
    dsimp only
    refine Ensures.ite (fun hq => ?_) fun _ => ?_
    · refine (moves_becomeLeader (c := .tick) h₂ hq).mono fun r' hr' => ?_
      rw [hr'.2]
      exact nofun
    · refine (steady_requestVotes (c := .tick) h₂ fun r₃ x hst hterm hx hxt => ?_).mono
        fun r' hr' => ?_
      · unfold SendOK
        simp only [hx]
        exact ⟨hxt.trans hterm.symm, hst⟩
      · rw [hr'.state, h₂]
        exact nofun

/-- What a follower does past the check of the term: it stays one, unless it is asked to campaign and
may, or is told to take over and can. -/
theorem stepBody_of_follower {m : Message} (hstate : r.state = .follower) :
    Ensures (r.stepBody m) fun p =>
      if m.type = .msgTimeoutNow ∧ r.promotable then p.2.state ≠ .follower
      else p.2.state = .follower ∨ r.MayHup := by
  by_cases htake : m.type = .msgTimeoutNow ∧ r.promotable
  · simp only [if_pos htake]
    unfold stepBody stepRole
    simp only [htake.1, hstate]
    unfold stepFollower
    simp only [htake.1, htake.2, if_true]
    exact Ensures.bind (campaignElection_state _) fun r' hr' => Ensures.pure hr'
  simp only [if_neg htake]
  have hsteady : ∀ {x : Result (Status × Raft)}, Ensures x (fun p => Steady (.step m) r p.2) →
      Ensures x fun p => p.2.state = .follower ∨ r.MayHup := fun hx =>
    hx.mono fun p hp => Or.inl (hp.state.trans hstate)
  by_cases hnow : m.type = .msgTimeoutNow
  · have hprom : r.promotable = false := by simpa [hnow] using htake
    unfold stepBody stepRole
    simp only [hnow, hstate]
    unfold stepFollower
    simp only [hnow, hprom]
    exact hsteady (Ensures.pure (Steady.refl _ r))
  unfold stepBody stepRole
  simp only [hstate]
  cases htype : m.type with
  | msgHup =>
    refine Ensures.bind (P := fun r' => r'.state = .follower ∨ r.MayHup) ?_ fun r' hr' =>
      Ensures.pure hr'
    unfold stepHup
    refine Ensures.ite (fun _ => Ensures.pure (Or.inl hstate)) fun _ => ?_
    refine Ensures.bindEq fun ⟨status, es⟩ hslice => ?_
    refine Ensures.ite (fun _ => Ensures.error) fun hst => ?_
    refine Ensures.ite (fun _ => Ensures.pure (Or.inl hstate)) fun hconf => ?_
    obtain rfl := Status.isOk_iff.mp (not_not.mp hst)
    exact fun r' _ => Or.inr ⟨es, hslice, hconf⟩
  | msgVote | msgPreVote =>
    refine hsteady (Ensures.bind (leads_stepVote (s := r) rfl) fun r' hr' => ?_)
    exact Ensures.pure hr'.steady
  | _ => exact hsteady (steady_stepFollower rfl hstate hnow)

/-- A node follows, and a message tells it to take over, which it can: the message is of no lower term,
and the node is a voter. -/
def TakesOver (r : Raft) (m : Message) : Prop :=
  r.state = .follower ∧ m.type = .msgTimeoutNow ∧ r.promotable = true ∧
    (m.term = 0 ∨ r.term ≤ m.term)

instance (r : Raft) (m : Message) : Decidable (r.TakesOver m) :=
  inferInstanceAs (Decidable (_ ∧ _ ∧ _ ∧ _))

/-- Following in another term changes neither the log nor the membership. -/
theorem mayHup_becomeFollower {t lead : ℕ} (h : (r.becomeFollower t lead).MayHup) : r.MayHup := by
  have hlog : (r.becomeFollower t lead).raftLog = r.raftLog := r.reset_raftLog t
  unfold MayHup at h
  rw [hlog] at h
  exact h

/-- Following in another term keeps a voter a voter. -/
theorem promotable_becomeFollower (r : Raft) (t lead : ℕ) :
    (r.becomeFollower t lead).promotable = r.promotable := by
  unfold promotable
  rw [Bool.eq_iff_iff, AList.lookup_isSome, AList.lookup_isSome]
  show (r.reset t).id ∈ (r.reset t).prs ↔ _
  rw [reset_id, mem_reset_prs]

/-- What a follower does on a message: it stays one, unless it may campaign on a request, or takes
over. -/
theorem step_of_follower {m : Message} (hstate : r.state = .follower) :
    Ensures (r.step m) fun p =>
      if r.TakesOver m then p.2.state ≠ .follower else p.2.state = .follower ∨ r.MayHup := by
  -- The message may take the node to a higher term first.
  have hbody : ∀ r₁ : Raft, r₁.state = .follower → r₁.promotable = r.promotable →
      (r₁.MayHup → r.MayHup) → (m.term = 0 ∨ r.term ≤ m.term) →
      Ensures (r₁.stepBody m) fun p =>
        if r.TakesOver m then p.2.state ≠ .follower else p.2.state = .follower ∨ r.MayHup :=
    fun r₁ hst₁ hprom hmay hterm => (stepBody_of_follower hst₁).mono fun p hp => by
      have hiff : r.TakesOver m ↔ m.type = .msgTimeoutNow ∧ r₁.promotable = true := by
        rw [hprom]
        exact ⟨fun h => ⟨h.2.1, h.2.2.1⟩, fun h => ⟨hstate, h.1, h.2, hterm⟩⟩
      by_cases htake : r.TakesOver m
      · rw [if_pos htake]
        rw [if_pos (hiff.mp htake)] at hp
        exact hp
      · rw [if_neg htake]
        rw [if_neg fun h => htake (hiff.mpr h)] at hp
        exact hp.imp_right hmay
  have hstay : ∀ {x : Result (Status × Raft)}, ¬r.TakesOver m →
      Ensures x (fun p => p.2.state = .follower) → Ensures x fun p =>
        if r.TakesOver m then p.2.state ≠ .follower else p.2.state = .follower ∨ r.MayHup :=
    fun htake hx => hx.mono fun p hp => by
      rw [if_neg htake]
      exact Or.inl hp
  unfold step
  refine Ensures.ite (fun h => hbody r hstate rfl (fun h => h) (Or.inl h)) fun hzero => ?_
  refine Ensures.ite (fun hlt => ?_) fun hge => ?_
  · refine Ensures.ite (fun hlease => ?_) fun _ => ?_
    · refine hstay (fun htake => ?_) (Ensures.pure hstate)
      simp [inLease, htake.2.1] at hlease
    refine Ensures.bind (P := fun r₁ => r₁ = r ∨ ∃ t lead, r₁ = r.becomeFollower t lead) ?_ ?_
    · unfold stepHigherTerm
      refine Ensures.ite (fun _ => Ensures.pure (Or.inl rfl)) fun _ => ?_
      refine Ensures.bind Ensures.any fun _ _ => ?_
      refine Ensures.ite (fun _ => Ensures.pure ?_) fun _ => Ensures.pure ?_
      · exact Or.inr ⟨_, _, rfl⟩
      · exact Or.inr ⟨_, _, rfl⟩
    · rintro r₁ (rfl | ⟨t, lead, rfl⟩)
      · exact hbody r₁ hstate rfl (fun h => h) (Or.inr (Nat.le_of_lt hlt))
      · exact hbody _ rfl (r.promotable_becomeFollower t lead) mayHup_becomeFollower
          (Or.inr (Nat.le_of_lt hlt))
  · refine Ensures.ite (fun hlow => ?_) fun hle => hbody r hstate rfl (fun h => h) (Or.inr (by omega))
    refine hstay (fun htake => ?_) ?_
    · rcases htake.2.2.2 with h | h
      · exact hzero h
      · omega
    · refine Ensures.bind (leads_stepLowerTerm (c := .tick) (s := r) m) fun r' hr' => ?_
      exact Ensures.pure (hr'.state.trans hstate)

/-- What a follower does on a tick: it stays one, or may campaign. -/
theorem tick_of_follower (hstate : r.state = .follower) :
    Ensures r.tick fun r' => r'.state = .follower ∨ r.MayHup := by
  unfold tick
  simp only [hstate]
  unfold tickElection
  refine Ensures.ite (fun _ => ?_) fun _ => Ensures.pure (Or.inl hstate)
  refine Ensures.bind (step_of_follower (r := { r with electionElapsed := 0 }) hstate) fun p hp =>
    Ensures.pure ?_
  rw [if_neg fun h : TakesOver _ _ => by cases h.2.1] at hp
  exact hp

end Raft

/-! ## Runs -/

/-- A follower is told to take over while a configuration change is to be applied. -/
def HostEvent.TakesOverEarly (h : Host) : HostEvent → Prop
  | .step m | .call m => h.node.raft.TakesOver m ∧ h.node.raft.raftLog.HasPendingConf
  | _ => False

instance (h : Host) (e : HostEvent) : Decidable (e.TakesOverEarly h) :=
  match e with
  | .step m | .call m =>
    inferInstanceAs (Decidable (h.node.raft.TakesOver m ∧ h.node.raft.raftLog.HasPendingConf))
  | .tick | .applyConfChange _ | .ready | .persist | .advance | .createSnapshot _ _ _ | .compact _ =>
    .isFalse id

/-- If the step takes a follower into a campaign, no configuration change is to be applied before it. -/
def Host.WaitsForConf (t : Turn Host HostEvent) : Prop :=
  t.before.node.raft.state = .follower → t.after.node.raft.state ≠ .follower →
    ¬t.before.node.raft.raftLog.HasPendingConf

instance (t : Turn Host HostEvent) : Decidable (Host.WaitsForConf t) :=
  inferInstanceAs (Decidable (_ → _ → ¬t.before.node.raft.raftLog.HasPendingConf))

/-- A step takes a follower into a campaign with a configuration change to apply exactly if it tells the
follower to take over early. -/
theorem Host.waitsForConf_iff {h h' : Host} {e : HostEvent} (hh : h.handle e = .ok h') :
    Host.WaitsForConf ⟨h, e, h'⟩ ↔ ¬e.TakesOverEarly h := by
  unfold WaitsForConf
  have hstep : ∀ {m : Message} {p : Status × Raft}, h.node.raft.step m = .ok p →
      ((h.node.raft.state = .follower → p.2.state ≠ .follower →
        ¬h.node.raft.raftLog.HasPendingConf) ↔
      ¬(h.node.raft.TakesOver m ∧ h.node.raft.raftLog.HasPendingConf)) := fun {m p} hp => by
    constructor
    · rintro hwait ⟨htake, hconf⟩
      have hleft := Raft.step_of_follower htake.1 p hp
      simp only [if_pos htake] at hleft
      exact hwait htake.1 hleft hconf
    · intro hnot hstate hleft hconf
      have hp := Raft.step_of_follower hstate p hp
      simp only [if_neg fun htake => hnot ⟨htake, hconf⟩] at hp
      rcases hp with hst | hmay
      · exact hleft hst
      · exact hmay.not_hasPendingConf hconf
  have hplain : (h.node.raft.state = .follower → h'.node.raft.state = .follower ∨
      h.node.raft.MayHup) → ((h.node.raft.state = .follower → h'.node.raft.state ≠ .follower →
        ¬h.node.raft.raftLog.HasPendingConf) ↔ ¬False) := fun hf => by
    refine ⟨fun _ => id, fun _ hstate hleft => ?_⟩
    exact ((hf hstate).resolve_left hleft).not_hasPendingConf
  cases e with
  | step m =>
    obtain ⟨p, hp, hh⟩ := bind_eq_ok.mp hh
    cases hh
    unfold RawNode.step RawNode.stepRaft at hp
    split_ifs at hp with hlocal hpeer
    · -- A message that is rejected does not tell the node to take over.
      cases hp
      have htype : m.type ≠ .msgTimeoutNow := fun h => by simp [Message.isLocalMsg, h] at hlocal
      exact ⟨fun _ h => htype h.1.2.1, fun _ hst hne => absurd hst hne⟩
    · obtain ⟨q, hq, hp⟩ := bind_eq_ok.mp hp
      cases hp
      exact hstep hq
    · cases hp
      have htype : m.type ≠ .msgTimeoutNow := fun h => by simp [Message.isResponseMsg, h] at hpeer
      exact ⟨fun _ h => htype h.1.2.1, fun _ hst hne => absurd hst hne⟩
  | call m =>
    obtain ⟨p, hp, hh⟩ := bind_eq_ok.mp hh
    cases hh
    unfold RawNode.stepRaft at hp
    obtain ⟨q, hq, hp⟩ := bind_eq_ok.mp hp
    cases hp
    exact hstep hq
  | tick =>
    obtain ⟨n, hn, hh⟩ := bind_eq_ok.mp hh
    cases hh
    unfold RawNode.tick at hn
    obtain ⟨r, hr, hn⟩ := bind_eq_ok.mp hn
    cases hn
    exact hplain fun hstate => Raft.tick_of_follower hstate r hr
  | applyConfChange cc =>
    obtain ⟨p, hp, hh⟩ := bind_eq_ok.mp hh
    cases hh
    refine hplain fun hstate => Or.inl ?_
    exact (RawNode.steady_applyConfChange h.node cc p hp).1.state.trans hstate
  | ready | persist | advance | createSnapshot _ _ _ | compact _ =>
    exact hplain fun hstate => Or.inl (((handled hh).state_eq rfl).trans hstate)

/-- Elections wait for configuration changes in a run, exactly if no follower is told to take over while one
is to be applied. -/
theorem elections_wait_iff {h₀ h : Host} {ts : List (Turn Host HostEvent)}
    (hrun : Host.Run h₀ ts h) :
    (∀ t ∈ ts, Host.WaitsForConf t) ↔ ∀ t ∈ ts, ¬t.event.TakesOverEarly t.before :=
  hrun.forall_iff fun _ => Host.waitsForConf_iff

/-- The leader's message with a committed configuration change. -/
def confChangeMsg : Message :=
  { type := .msgApp, fromId := 2, toId := 1, term := 1, commit := 1
    entries := [{ type := .entryConfChange, term := 1, index := 1, data := [1] }] }

/-- A voter gets a committed configuration change, and its election timeout passes. -/
def timedOut : List (Turn Host HostEvent) × Host :=
  Trace.run Host.handle (Host.started voterConfig) [.step confChangeMsg, .tick, .tick, .tick]

/-- The voter waits. -/
theorem elections_wait_timedOut : timedOut.1.length = 4 ∧ ∀ t ∈ timedOut.1, Host.WaitsForConf t :=
  ⟨by decide +kernel, (elections_wait_iff (Trace.of_run _ _ _)).mpr (by decide +kernel)⟩

/-- A voter gets a committed configuration change, and is told to take over. -/
def tookOver : List (Turn Host HostEvent) × Host :=
  Trace.run Host.handle (Host.started voterConfig)
    [.step confChangeMsg, .step { type := .msgTimeoutNow, fromId := 2, toId := 1, term := 1 }]

/-- The voter does not wait. -/
theorem took_over_early : ¬ ∀ (c : Config) (h₀ h : Host) (ts : List (Turn Host HostEvent)),
    Host.boot c = .ok h₀ → Host.Run h₀ ts h → (∀ t ∈ ts, t.event.IsPeerOrTick) →
    ∀ t ∈ ts, Host.WaitsForConf t := by
  intro hall
  have hwaits := hall voterConfig _ tookOver.2 tookOver.1 (Host.boot_started (by decide +kernel))
    (Trace.of_run _ _ _) (by decide +kernel)
  exact absurd hwaits (by decide +kernel)

end RaftCpp
