import RaftCpp.Raft.Delivery

/-!
# Requests to campaign

On `MsgHup`, `step` reads the entries between `applied` and `committed`, to look for configuration changes
that are not applied yet. These entries are there, except while a snapshot waits to be installed: it is
committed but not applied, and the log starts behind it.
-/

namespace RaftCpp

open Outcome

/-- The failures of reading entries that the log does not hold: of `step` on `MsgHup`, and of `slice`. -/
def Fatal.OfSlice (f : Fatal) : Prop :=
  f = .unappliedEntries ∨ f = .assertion ∨ f = .sliceOutOfBound

instance (f : Fatal) : Decidable f.OfSlice := inferInstanceAs (Decidable (_ ∨ _ ∨ _))

namespace RaftLog

variable {l : RaftLog}

/-- The entries that `step` reads on `MsgHup`. -/
def unapplied (l : RaftLog) : Result (Status × List Entry) :=
  l.slice (l.applied + 1) (l.committed + 1) unlimited

/-- Without a snapshot to install, they are in the log. -/
theorem Sound.unapplied_ok (h : l.Sound) (hnone : l.unstable.snapshot = none) :
    ∃ es, l.unapplied = .ok (.ok, es) := by
  have hfirst : l.firstIndex ≤ l.applied + 1 := by
    rw [firstIndex_of_none hnone]
    exact Nat.succ_le_succ (h.compacted hnone)
  have hle := h.applied_le
  have hcommitted := h.committed_le
  obtain ⟨es, hes, -⟩ := h.slice_ok hfirst (Nat.succ_le_succ hle) (Nat.succ_le_succ hcommitted) unlimited
  exact ⟨es, hes⟩

/-- With one, the first of them is below the start of the log. -/
theorem Sound.unapplied_pending (h : l.Sound) {s : Snapshot} (hs : l.unstable.snapshot = some s) :
    l.unapplied = .ok (MemoryStorage.errCompacted, []) := by
  have happlied := h.pending_applied s hs
  have hle := h.applied_le
  have hcheck : l.mustCheckOutOfBounds (l.applied + 1) (l.committed + 1) =
      .ok MemoryStorage.errCompacted := by
    unfold mustCheckOutOfBounds
    rw [if_neg (by omega), firstIndex_of_some hs, if_pos (by omega)]
  unfold unapplied slice
  rw [hcheck]
  rfl

end RaftLog

namespace Raft

variable {r : Raft} {m : Message}

/-- A computation that fails in no such way. -/
abbrev Sliced {α : Type} (x : Result α) (P : α → Prop) : Prop := Secures Fatal.OfSlice x P

/-- `send`. -/
theorem sliced_send (r : Raft) (m : Message) : Sliced (r.send m) fun _ => True := by
  unfold send
  dsimp only
  refine Secures.ite (fun _ => Secures.ite (fun _ => Secures.error (by decide)) fun _ => ?_) fun _ => ?_
  · exact Secures.ok trivial
  · refine Secures.ite (fun _ => Secures.error (by decide)) fun _ => ?_
    exact Secures.ite (fun _ => Secures.ok trivial) fun _ => Secures.ok trivial

/-- The requests for votes. -/
theorem sliced_requestVotes (r : Raft) (t : MessageType) (term : ℕ) (ctx : Bytes) :
    Sliced (r.requestVotes t term ctx) fun _ => True := by
  refine Secures.foldlM _ (fun r id _ _ => ?_) r trivial
  exact Secures.ite (fun _ => Secures.ok trivial) fun _ => sliced_send r _

/-- `maybe_commit`. -/
theorem sliced_maybeCommit (r : Raft) : Sliced r.maybeCommit fun _ => True := by
  unfold maybeCommit
  refine Secures.bind (P := fun _ => True) ?_ fun mci _ => ?_
  · unfold elemAt
    split
    · exact Secures.ok trivial
    · exact Secures.error (by decide)
  refine Secures.bind (P := fun _ => True) ?_ fun _ _ => Secures.pure trivial
  unfold RaftLog.maybeCommit
  refine Secures.ite (fun _ => ?_) fun _ => Secures.pure trivial
  split
  · exact Secures.error (by decide)
  refine Secures.ite (fun _ => ?_) fun _ => Secures.pure trivial
  refine Secures.bind (P := fun _ => True) ?_ fun _ _ => Secures.pure trivial
  unfold RaftLog.commitTo
  refine Secures.ite (fun _ => ?_) fun _ => Secures.ok trivial
  exact Secures.ite (fun _ => Secures.error (by rintro (h | h | h) <;> cases h)) fun _ => Secures.ok trivial

/-- `append_entry` adds at the end of the log. -/
theorem sliced_appendEntry (h : r.raftLog.Sound) (es : List Entry) :
    Sliced (r.appendEntry es) fun _ => True := by
  unfold appendEntry
  dsimp only
  split
  · exact Secures.pure trivial
  case h_2 r₁ hinc =>
    obtain ⟨n, rfl⟩ := increaseUncommittedSize_eq hinc
    have hidx := (stampEntries_spec r.term (r.raftLog.lastIndex + 1) es).1
    rw [RaftLog.append_at_end h hidx]
    refine Secures.bind (P := fun _ => True) (Secures.ok trivial) fun l _ => ?_
    refine Secures.bind (P := fun _ => True) ?_ fun pr _ => ?_
    · unfold peerProgress
      split
      · exact Secures.ok trivial
      · exact Secures.error (by decide)
    · exact Secures.bind (sliced_maybeCommit _) fun _ _ => Secures.pure trivial

/-- `become_leader`. -/
theorem sliced_becomeLeader (h : r.raftLog.Sound) : Sliced r.becomeLeader fun _ => True := by
  unfold becomeLeader
  refine Secures.ite (fun _ => Secures.error (by decide)) fun _ => ?_
  dsimp only
  split
  · exact Secures.error (by decide)
  · have hlog : r.takeLead.raftLog = r.raftLog := reset_raftLog r r.term
    refine Secures.bind (sliced_appendEntry ?_ _) fun p _ => ?_
    · exact hlog.symm ▸ h
    · exact Secures.ite (fun _ => Secures.error (by decide)) fun _ => Secures.pure trivial

/-- `campaign` for votes. -/
theorem sliced_campaignElection (h : r.raftLog.Sound) (ctx : Bytes) :
    Sliced (r.campaignElection ctx) fun _ => True := by
  unfold campaignElection
  refine Secures.bind (P := fun r' => r'.raftLog = r.raftLog) ?_ fun r' hr' => ?_
  · unfold becomeCandidate
    exact Secures.ite (fun _ => Secures.error (by decide)) fun _ => Secures.ok (reset_raftLog r _)
  · refine Secures.ite (fun _ => sliced_becomeLeader ?_) fun _ => sliced_requestVotes _ _ _ _
    exact hr'.symm ▸ h

/-- `campaign`. -/
theorem sliced_campaign (h : r.raftLog.Sound) (t : CampaignType) :
    Sliced (r.campaign t) fun _ => True := by
  cases t with
  | preElection =>
    refine Secures.bind (P := fun r' => r'.raftLog = r.raftLog) ?_ fun r' hr' => ?_
    · unfold becomePreCandidate
      exact Secures.ite (fun _ => Secures.error (by decide)) fun _ => Secures.ok rfl
    · refine Secures.ite (fun _ => sliced_campaignElection ?_ _) fun _ => sliced_requestVotes _ _ _ _
      exact hr'.symm ▸ h
  | election => exact sliced_campaignElection h []
  | transfer => exact sliced_campaignElection h kCampaignTransfer

/-- A request to campaign reaches no such failure if the unapplied entries are in the log. -/
theorem sliced_stepHup (h : r.raftLog.Sound)
    (hok : r.state = .leader ∨ r.raftLog.unstable.snapshot = none) :
    Sliced r.stepHup fun _ => True := by
  unfold stepHup
  refine Secures.ite (fun _ => Secures.pure trivial) fun hstate => ?_
  obtain ⟨es, hes⟩ := h.unapplied_ok (hok.resolve_left hstate)
  refine Secures.bind (P := fun p => p = (.ok, es)) ?_ fun p hp => ?_
  · rw [show r.raftLog.slice _ _ _ = r.raftLog.unapplied from rfl, hes]
    exact Secures.ok rfl
  · rw [hp]
    refine Secures.ite (fun hst => absurd rfl hst) fun _ => ?_
    exact Secures.ite (fun _ => Secures.pure trivial) fun _ => sliced_campaign h _

/-- Otherwise it is the fatal one. -/
theorem stepHup_pending (h : r.raftLog.Sound) (hstate : r.state ≠ .leader) {s : Snapshot}
    (hs : r.raftLog.unstable.snapshot = some s) : r.stepHup = .error .unappliedEntries := by
  have hunapplied := h.unapplied_pending hs
  unfold RaftLog.unapplied at hunapplied
  unfold stepHup
  rw [if_neg hstate, hunapplied]
  rfl

/-- A node steps into a request to campaign as `step` does after the terms. -/
theorem step_hup (hm : m.type = .msgHup) (hterm : m.term = 0) : r.step m = (do
    let r ← r.stepHup
    return (.ok, r)) := by
  unfold step stepBody
  rw [if_pos hterm, hm]

/-- A request to campaign reaches no failure of reading the unapplied entries, nor of `slice`, if and only
if the node leads or no snapshot waits to be installed. -/
theorem step_hup_iff (h : r.raftLog.Sound) (hm : m.type = .msgHup) (hterm : m.term = 0) :
    (∀ f, r.step m = .error f → ¬f.OfSlice) ↔
      r.state = .leader ∨ r.raftLog.unstable.snapshot = none := by
  rw [step_hup hm hterm]
  constructor
  · intro hsafe
    by_contra hnot
    obtain ⟨hstate, hsome⟩ := not_or.mp hnot
    obtain ⟨s, hs⟩ := Option.ne_none_iff_exists'.mp hsome
    rw [stepHup_pending h hstate hs] at hsafe
    exact hsafe .unappliedEntries rfl (Or.inl rfl)
  · intro hok
    exact (Secures.bind (sliced_stepHup h hok) fun _ _ => Secures.pure (P := fun _ => True) trivial).avoids

/-- The next tick makes the node campaign. -/
def TimesOut (r : Raft) : Prop :=
  r.state ≠ .leader ∧ r.promotable ∧ r.electionElapsed + 1 ≥ r.randomizedElectionTimeout

instance (r : Raft) : Decidable r.TimesOut := inferInstanceAs (Decidable (_ ∧ _ ∧ _))

/-- Such a tick. -/
theorem tick_of_timesOut (h : r.TimesOut) : r.tick = (do
    let (_, r) ← { r with electionElapsed := 0 }.step { fromId := r.id, type := .msgHup }
    return r) := by
  obtain ⟨hstate, hpromotable, helapsed⟩ := h
  rw [tick_election hstate]
  unfold tickElection
  exact if_pos ⟨hpromotable, helapsed⟩

end Raft

namespace Host

/-- The node may be made to campaign, by its application or by its clock, without a failure of reading
the unapplied entries, or of `slice`. -/
structure HupsSafely (h : Host) : Prop where
  /-- `campaign`. -/
  campaign : ∀ f, h.node.campaign = .error f → ¬f.OfSlice
  /-- `tick`, when the election timeout has passed. -/
  tick : h.node.raft.TimesOut → ∀ f, h.node.tick = .error f → ¬f.OfSlice

variable {h : Host}

/-- It may if and only if it leads or no snapshot waits to be installed. -/
theorem Sound.hupsSafely_iff (hs : h.Sound) :
    h.HupsSafely ↔ h.node.raft.state = .leader ∨ h.log.unstable.snapshot = none := by
  -- The node of the interface fails as the node inside does.
  have hcampaign : ∀ f, h.node.campaign = .error f ↔
      h.node.raft.step { type := .msgHup } = .error f := by
    intro f
    unfold RawNode.campaign RawNode.stepRaft
    cases h.node.raft.step { type := .msgHup } with
    | error f' =>
      constructor
      · exact fun hf => congrArg Except.error (Except.error.inj hf)
      · exact fun hf => congrArg Except.error (Except.error.inj hf)
    | ok p => exact iff_of_false nofun nofun
  have htick : h.node.raft.TimesOut → ∀ f, h.node.tick = .error f →
      ({ h.node.raft with electionElapsed := 0 } : Raft).step
        { fromId := h.node.raft.id, type := .msgHup } = .error f := by
    intro htimes f hf
    unfold RawNode.tick at hf
    rw [Raft.tick_of_timesOut htimes] at hf
    revert hf
    cases ({ h.node.raft with electionElapsed := 0 } : Raft).step
      { fromId := h.node.raft.id, type := .msgHup } with
    | error f' => exact fun hf => congrArg Except.error (Except.error.inj hf)
    | ok p => exact nofun
  have hiff := Raft.step_hup_iff (r := h.node.raft) (m := { type := .msgHup }) hs.log rfl rfl
  have hiff₀ := Raft.step_hup_iff (r := { h.node.raft with electionElapsed := 0 })
    (m := { fromId := h.node.raft.id, type := .msgHup }) hs.log rfl rfl
  constructor
  · intro hsafe
    exact hiff.mp fun f hf => hsafe.campaign f ((hcampaign f).mpr hf)
  · intro hok
    constructor
    · exact fun f hf => hiff.mpr hok f ((hcampaign f).mp hf)
    · exact fun htimes f hf => hiff₀.mpr hok f (htick htimes f hf)

end Host

/-! ## Every election timeout of a run -/

namespace Raft

variable {r : Raft} {m : Message}

/-- The handlers of the roles install a snapshot only as a follower. -/
theorem stepBody_snap (hm : m.type = .msgSnap) : Ensures (r.stepBody m) fun p =>
    p.2.state = .follower ∨ p.2.raftLog.unstable.snapshot = r.raftLog.unstable.snapshot := by
  have hbody : r.stepBody m = r.stepRole m := by
    unfold stepBody
    rw [hm]
  have hhandle : ∀ r₁ : Raft, r₁.state = .follower → Ensures (do
      let r ← r₁.handleSnapshot m
      return (Status.ok, r)) fun p : Status × Raft =>
        p.2.state = .follower ∨ p.2.raftLog.unstable.snapshot = r.raftLog.unstable.snapshot := by
    intro r₁ hr₁
    refine Ensures.bind (steady_handleSnapshot (c := .step m) rfl hm) fun r₂ hr₂ => Ensures.pure (Or.inl ?_)
    exact hr₂.state.trans hr₁
  rw [hbody]
  unfold stepRole
  cases hstate : r.state with
  | follower =>
    unfold stepFollower
    rw [hm]
    exact hhandle _ hstate
  | candidate | preCandidate =>
    unfold stepCandidate
    rw [hm]
    exact hhandle _ rfl
  | leader =>
    unfold stepLeader stepLeaderPeer
    rw [hm]
    dsimp only
    refine Ensures.bind (P := fun r' => r' = r) ?_ fun r' hr' => Ensures.pure (Or.inr (by rw [hr']))
    split
    · exact Ensures.ok rfl
    · exact Ensures.ok rfl

/-- After a message, the node follows, or no snapshot came to be installed. -/
theorem step_snapshot (r : Raft) (m : Message) : Ensures (r.step m) fun p =>
    p.2.state = .follower ∨ p.2.raftLog.unstable.snapshot = r.raftLog.unstable.snapshot := by
  by_cases hm : m.type = .msgSnap
  · unfold step
    refine Ensures.ite (fun _ => stepBody_snap hm) fun _ => ?_
    refine Ensures.ite (fun _ => ?_) fun _ => ?_
    · refine Ensures.ite (fun _ => Ensures.pure (Or.inr rfl)) fun _ => ?_
      -- The node enters the term of the message first, which leaves the log alone.
      refine Ensures.bind (P := fun r₁ => r₁.raftLog = r.raftLog) ?_ fun r₁ hr₁ => ?_
      · unfold stepHigherTerm
        refine Ensures.ite (fun _ => Ensures.pure rfl) fun _ => ?_
        refine Ensures.bind Ensures.any fun _ _ => ?_
        refine Ensures.ite (fun _ => Ensures.pure ?_) fun _ => Ensures.pure ?_
        · exact reset_raftLog r m.term
        · exact reset_raftLog r m.term
      · rw [← hr₁]
        exact stepBody_snap hm
    · refine Ensures.ite (fun _ => ?_) fun _ => stepBody_snap hm
      refine Ensures.bind (P := fun r₁ => r₁ = r) ?_ fun r₁ hr₁ => Ensures.pure (Or.inr (by rw [hr₁]))
      unfold stepLowerTerm
      rw [hm, if_neg (by simp), if_neg (by simp)]
      exact Ensures.bind Ensures.any fun _ _ => Ensures.pure rfl
  · refine (moves_step rfl).mono fun p hp => Or.inr ?_
    refine Course.snapshot_eq (c := .step m) hp fun m' hm' => ?_
    cases hm'
    exact hm

end Raft

namespace Host

variable {h h' h₀ : Host} {e : HostEvent} {c : Config}

/-- The node leads, or no snapshot waits to be installed. -/
def AwaitsNone (h : Host) : Prop :=
  h.node.raft.state = .leader ∨ h.log.unstable.snapshot = none

/-- A snapshot comes to be installed only in a node that follows. -/
theorem handle_snapshot (hh : h.handle e = .ok h') (hnone : h.log.unstable.snapshot = none) :
    h'.node.raft.state = .follower ∨ h'.log.unstable.snapshot = none := by
  have hstep : ∀ m, Ensures (h.node.stepRaft m) fun p =>
      p.2.raft.state = .follower ∨ p.2.raft.raftLog.unstable.snapshot = none := by
    intro m
    refine Ensures.bind (Raft.step_snapshot h.node.raft m) fun p hp => Ensures.pure ?_
    exact hp.imp_right fun heq => heq.trans hnone
  have hhandled := handled hh
  cases hhandled with
  | @moved e c n hc hmoves =>
    cases e with
    | step m =>
      obtain ⟨p, hp, hh⟩ := bind_eq_ok.mp hh
      cases hh
      unfold RawNode.step at hp
      split_ifs at hp
      · cases hp
        exact Or.inr hnone
      · exact hstep m p hp
      · cases hp
        exact Or.inr hnone
    | call m =>
      obtain ⟨p, hp, hh⟩ := bind_eq_ok.mp hh
      cases hh
      exact hstep m p hp
    | tick | applyConfChange cc =>
      cases hc
      exact Or.inr ((Course.snapshot_eq hmoves nofun).trans hnone)
    | _ => cases hc
  | ready _ hn =>
    obtain ⟨-, -, -, -, -, size, rfl⟩ := RawNode.ready_eq hn
    exact Or.inr hnone
  | @advance rd _ => exact Or.inr (RaftLog.advance_snapshot hnone rd)
  | _ => exact Or.inr hnone

/-- A node that was just built follows. -/
theorem Built.follows (hb : Built c h) : h.node.raft.state = .follower := by
  refine hb.holds (P := fun r => r.state = .follower) (fun r t lead _ _ _ => rfl) (fun r l hr => hr) ?_
  intro r id hr
  refine (Raft.steady_addNodeOrLearner id false).mono fun r' hr' => ?_
  exact hr'.state.trans hr

/-- As long as the node may be made to campaign in every state, or leads or awaits no snapshot in every
state, the parts of the log fit together: no round is overtaken by a newer snapshot. -/
theorem Sound.run_awaitsNone {ts : List (Turn Host HostEvent)} (hs : h₀.Sound)
    (hfollows : h₀.node.raft.state = .follower) (hrun : Host.Run h₀ ts h)
    (horder : ∀ t ∈ ts, t.event.Orderly t.before)
    (hawaits : ∀ t ∈ ts, t.before.HupsSafely ∨ t.before.AwaitsNone) :
    (∀ t ∈ ts, t.before.Sound) ∧ h.Sound := by
  have hstart : h₀.AwaitsNone → h₀.log.unstable.snapshot = none := by
    intro hnone
    refine hnone.resolve_left fun hlead => ?_
    rw [hfollows] at hlead
    cases hlead
  have hinv := hrun.invariant
    (P := fun h => h.Sound ∧ (h.AwaitsNone → h.log.unstable.snapshot = none))
    (Q := fun t => t.event.Orderly t.before ∧ (t.before.HupsSafely ∨ t.before.AwaitsNone))
    ?_ (fun t ht => ⟨horder t ht, hawaits t ht⟩) ⟨hs, hstart⟩
  · exact ⟨fun t ht => (hinv.1 t ht).1, hinv.2.1⟩
  · rintro ⟨before, e, after⟩ hh ⟨horderly, hok⟩ ⟨hsound, hnone⟩
    have hnone : before.log.unstable.snapshot = none :=
      hnone (hok.elim hsound.hupsSafely_iff.mp fun hawaits => hawaits)
    constructor
    · refine hsound.handle hh horderly ?_
      rintro ⟨-, rd, -, s, hsome, -⟩
      rw [hnone] at hsome
      cases hsome
    · intro hafter
      obtain hlead | hnone' := hafter
      · obtain hfollower | hnone' := handle_snapshot hh hnone
        · rw [hlead] at hfollower
          cases hfollower
        · exact hnone'
      · exact hnone'

end Host

variable {c : Config} {h₀ h : Host} {ts : List (Turn Host HostEvent)}

/-- In every run from a node's start, the node may be made to campaign in every state if and only if it
leads or no snapshot waits to be installed in every state. -/
theorem hups_safely_iff (hbuilt : Host.Built c h₀) (hst : c.storage.Consistent)
    (happ : c.AppliedFits) (hrun : Host.Run h₀ ts h)
    (horder : ∀ t ∈ ts, t.event.Orderly t.before) :
    ((∀ t ∈ ts, t.before.HupsSafely) ∧ h.HupsSafely) ↔
      (∀ t ∈ ts, t.before.AwaitsNone) ∧ h.AwaitsNone := by
  have hstart := hbuilt.sound hst happ
  constructor
  · intro hsafe
    have hsound := hstart.run_awaitsNone hbuilt.follows hrun horder fun t ht => Or.inl (hsafe.1 t ht)
    constructor
    · exact fun t ht => (hsound.1 t ht).hupsSafely_iff.mp (hsafe.1 t ht)
    · exact hsound.2.hupsSafely_iff.mp hsafe.2
  · intro hawaits
    have hsound := hstart.run_awaitsNone hbuilt.follows hrun horder fun t ht => Or.inr (hawaits.1 t ht)
    constructor
    · exact fun t ht => (hsound.1 t ht).hupsSafely_iff.mpr (hawaits.1 t ht)
    · exact hsound.2.hupsSafely_iff.mpr hawaits.2

/-- A voter accepts a snapshot of its leader, and installs it. -/
def acceptsSnapshot : List (Turn Host HostEvent) × Host :=
  Trace.run Host.handle (Host.started voterConfig)
    [.step { type := .msgSnap, fromId := 2, toId := 1, term := 1
             snapshot := { metadata :=
               { index := 5, term := 1, confState := { nodes := [1, 2, 3] } } } },
      .ready, .persist, .advance]

/-- The voter may be made to campaign throughout if and only if it awaits no snapshot throughout. -/
theorem hups_safely_iff_acceptsSnapshot :
    ((∀ t ∈ acceptsSnapshot.1, t.before.HupsSafely) ∧ acceptsSnapshot.2.HupsSafely) ↔
      (∀ t ∈ acceptsSnapshot.1, t.before.AwaitsNone) ∧ acceptsSnapshot.2.AwaitsNone :=
  hups_safely_iff (Host.boot_built (Host.boot_started (by decide +kernel)))
    MemoryStorage.empty_consistent (Or.inl rfl) (Trace.of_run _ _ _) (by decide +kernel)

/-- It may not, before it has advanced. -/
theorem hup_fails : ¬ ∀ (c : Config) (h₀ h : Host) (ts : List (Turn Host HostEvent)),
    Host.Built c h₀ → c.storage.Consistent → c.AppliedFits → Host.Run h₀ ts h →
    (∀ t ∈ ts, t.event.Orderly t.before) → (∀ t ∈ ts, t.before.HupsSafely) ∧ h.HupsSafely := by
  intro hall
  obtain ⟨hsafe, -⟩ := hall voterConfig _ acceptsSnapshot.2 acceptsSnapshot.1
    (Host.boot_built (Host.boot_started (by decide +kernel))) MemoryStorage.empty_consistent (Or.inl rfl)
    (Trace.of_run _ _ _) (by decide +kernel)
  have hfails : ∃ t ∈ acceptsSnapshot.1, ¬Avoids Fatal.unappliedEntries t.before.node.campaign := by
    decide +kernel
  obtain ⟨t, ht, hfatal⟩ := hfails
  exact hfatal fun herror => (hsafe t ht).campaign _ herror (Or.inl rfl)

end RaftCpp
