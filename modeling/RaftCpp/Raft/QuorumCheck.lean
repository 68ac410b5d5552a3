import RaftCpp.Raft.Activity

/-!
# The check of the quorum

A leader that checks its quorum counts the voters that it has heard from, and steps down if they are too
few. As it never forgets whom it has heard from, it steps down on the first check or not at all: once it
has passed the check, it passes every later one in its term, even if it hears from nobody any more.
-/

namespace RaftCpp

open Outcome

variable {r r' : Raft}

namespace Raft

/-- A tick at the election timeout of a leader decides its role. -/
theorem tick_checkQuorum (hl : r.state = .leader) (hcheck : r.checkQuorum = true)
    (hdue : r.electionTimeout ≤ r.electionElapsed + 1) :
    Ensures r.tick fun r' => r'.state = if r.checkQuorumActive then .leader else .follower := by
  unfold tick
  rw [hl]
  show Ensures r.tickHeartbeat _
  unfold tickHeartbeat
  refine Ensures.bind (P := fun r₁ => r₁.state = if r.checkQuorumActive then .leader else .follower)
    ?_ fun r₁ h₁ => ?_
  · unfold tickQuorum
    rw [if_pos hdue]
    refine Ensures.bind (P := fun r₁ => r₁.state = if r.checkQuorumActive then .leader else .follower)
      ?_ fun r₁ h₁ => ?_
    · unfold tickCheckQuorum
      rw [if_pos hcheck, step_checkQuorum (by exact hl) (by rfl) (Or.inl rfl)]
      exact Ensures.pure (afterCheck_state (by exact hl))
    · apply Ensures.ite
      · exact fun _ => Ensures.pure h₁
      · exact fun _ => Ensures.pure h₁
  · apply Ensures.ite
    · exact fun _ => Ensures.pure h₁
    intro hst
    have hst := not_not.mp hst
    apply Ensures.ite
    · intro _
      -- The leader sends its heartbeats, and stays one.
      refine Ensures.bind (P := fun q => q.2.state = .leader) ?_ fun q hq => Ensures.pure ?_
      · rw [step_beat (by exact hst) rfl rfl]
        refine Ensures.bind (leads_bcastHeartbeatWithCtx (c := .tick) (s := r) (Or.inl (by exact hst)) _)
          fun r₂ h₂ => ?_
        exact Ensures.pure (h₂.state.trans hst)
      · exact hq.trans (hst.symm.trans h₁)
    · exact fun _ => Ensures.pure h₁

end Raft

/-! ## Runs -/

/-- A leader that checks its quorum processes a check: at the election timeout, or on a message. -/
def HostEvent.ChecksQuorum (h : Host) (e : HostEvent) : Prop :=
  h.node.raft.state = .leader ∧ h.node.raft.checkQuorum = true ∧
    match e with
    | .tick => h.node.raft.electionTimeout ≤ h.node.raft.electionElapsed + 1
    | .call m => m.type = .msgCheckQuorum ∧ (m.term = 0 ∨ m.term = h.node.raft.term)
    | _ => False

instance (h : Host) (e : HostEvent) : Decidable (e.ChecksQuorum h) :=
  match e with
  | .tick => inferInstanceAs (Decidable (_ ∧ _ ∧ h.node.raft.electionTimeout ≤ _))
  | .call m => inferInstanceAs (Decidable (_ ∧ _ ∧ m.type = _ ∧ (_ ∨ _)))
  | .step _ | .applyConfChange _ | .ready | .persist | .advance | .createSnapshot _ _ _ | .compact _ =>
    inferInstanceAs (Decidable (_ ∧ _ ∧ False))

/-- The sender of the answer to an append or to a heartbeat. -/
def HostEvent.hears : HostEvent → Option ℕ
  | .step m | .call m =>
    if m.type = .msgAppResp ∨ m.type = .msgHeartbeatResp then some m.fromId else none
  | _ => none

namespace Host

/-- Two consecutive checks of the quorum by a leader, and what happens in between: the node leads its
term throughout, and the membership does not change. -/
def Window (first : Turn Host HostEvent) (ts : List (Turn Host HostEvent))
    (last : Turn Host HostEvent) : Prop :=
  first.event.ChecksQuorum first.before ∧ last.event.ChecksQuorum last.before ∧
    (∀ t ∈ ts, ¬ t.event.ChecksQuorum t.before ∧ t.event.cause ≠ some .confChange) ∧
    ∀ t ∈ first :: ts, t.after.node.raft.state = .leader ∧
      t.after.node.raft.term = t.before.node.raft.term

instance (first : Turn Host HostEvent) (ts : List (Turn Host HostEvent))
    (last : Turn Host HostEvent) : Decidable (Window first ts last) :=
  inferInstanceAs (Decidable (_ ∧ _ ∧ _ ∧ _))

/-- The voters that the node has heard from, and the node itself, are fewer than the quorum. -/
def Quiet (h : Host) (ts : List (Turn Host HostEvent)) : Prop :=
  (insert h.node.raft.id
    (h.node.raft.prs.keys.filter (· ∈ ts.filterMap (·.event.hears))).toFinset).card <
      h.node.raft.quorum

instance (h : Host) (ts : List (Turn Host HostEvent)) : Decidable (h.Quiet ts) :=
  inferInstanceAs (Decidable (_ < _))

/-- If the leader has heard from too few voters, the check makes it a follower. -/
def StepsDown (ts : List (Turn Host HostEvent)) (last : Turn Host HostEvent) : Prop :=
  last.before.Quiet ts → last.after.node.raft.state = .follower

instance (ts : List (Turn Host HostEvent)) (last : Turn Host HostEvent) :
    Decidable (StepsDown ts last) :=
  inferInstanceAs (Decidable (_ → _))

/-- A check of the quorum decides the role. -/
theorem state_of_check {h h' : Host} {e : HostEvent} (hh : h.handle e = .ok h')
    (hc : e.ChecksQuorum h) :
    h'.node.raft.state = if h.node.raft.checkQuorumActive then .leader else .follower := by
  obtain ⟨hl, hcheck, hdue⟩ := hc
  cases e with
  | tick =>
    obtain ⟨n, hn, hh⟩ := bind_eq_ok.mp hh
    cases hh
    obtain ⟨r, hr, hn⟩ := bind_eq_ok.mp hn
    cases hn
    exact Raft.tick_checkQuorum hl hcheck hdue r hr
  | call m =>
    obtain ⟨p, hp, hh⟩ := bind_eq_ok.mp hh
    cases hh
    obtain ⟨q, hq, hp⟩ := bind_eq_ok.mp hp
    cases hp
    rw [Raft.step_checkQuorum hl hdue.1 hdue.2] at hq
    cases hq
    exact Raft.afterCheck_state hl
  | _ => exact hdue.elim

/-- Whatever happens to a leader that goes on leading its term, short of a change of the membership, it
does not forget whom it has heard from. -/
theorem keepsActive {h h' : Host} {e : HostEvent} (hh : h.handle e = .ok h')
    (hconf : e.cause ≠ some .confChange) (hl : h.node.raft.state = .leader)
    (hl' : h'.node.raft.state = .leader) (hterm : h'.node.raft.term = h.node.raft.term) :
    KeepsActive h.node.raft h'.node.raft := by
  cases hcause : e.cause with
  | some c =>
    have hne : c ≠ .confChange := fun hc => hconf (by rw [hcause, hc])
    exact (leads_handle hcause hne hh hl hl' hterm).keepsActive
  | none =>
    obtain ⟨l, msgs, readStates, size, heq, -⟩ := (handled hh).frame hcause
    rw [heq]
    exact .of_eq rfl rfl rfl

/-- A leader that has passed the check of its quorum passes the next one. -/
theorem passes_again {h₀ h : Host} {first last : Turn Host HostEvent}
    {ts : List (Turn Host HostEvent)} (hrun : Run h₀ (first :: ts ++ [last]) h)
    (hw : Window first ts last) : last.after.node.raft.state = .leader := by
  obtain ⟨hfirst, hlast, hbetween, hleads⟩ := hw
  obtain ⟨g, hts, hend⟩ := Trace.of_append hrun
  -- The leader passed the first check, as it still leads.
  have hpassed : first.before.node.raft.checkQuorumActive = true := by
    by_contra hact
    have hst := state_of_check (hrun.step_mem List.mem_cons_self) hfirst
    rw [if_neg hact, (hleads first List.mem_cons_self).1] at hst
    cases hst
  have hconf : ∀ t ∈ first :: ts, t.event.cause ≠ some .confChange := by
    intro t ht
    rcases List.mem_cons.mp ht with rfl | ht
    · intro hc
      obtain ⟨-, -, hdue⟩ := hfirst
      cases he : t.event with
      | applyConfChange cc =>
        rw [he] at hdue
        exact hdue
      | _ =>
        rw [he] at hc
        cases hc
    · exact (hbetween t ht).2
  have hinv := Trace.invariant
    (P := fun h : Host => h.node.raft.state = .leader ∧ h.node.raft.checkQuorumActive = true)
    (Q := fun t => t.event.cause ≠ some .confChange ∧ t.after.node.raft.state = .leader ∧
      t.after.node.raft.term = t.before.node.raft.term)
    (fun t ht hQ hP =>
      ⟨hQ.2.1, (keepsActive ht hQ.1 hP.1 hQ.2.1 hQ.2.2).checkQuorumActive hP.2⟩)
    hts (fun t ht => ⟨hconf t ht, hleads t ht⟩)
  cases hts with
  | cons hstep hts =>
    cases hend with
    | cons hcheck hnil =>
      have hact := (hinv ⟨hfirst.1, hpassed⟩).2.2
      rw [state_of_check hcheck hlast, if_pos hact]

end Host

/-- The check of the quorum never makes a leader step down that has passed it before in its term: a run
between two consecutive checks in which the leader hears from too few voters leaves it the leader. -/
theorem never_steps_down {h₀ h : Host} {first last : Turn Host HostEvent}
    {ts : List (Turn Host HostEvent)} (hrun : Host.Run h₀ (first :: ts ++ [last]) h)
    (hw : Host.Window first ts last) (hquiet : last.before.Quiet ts) :
    ¬ Host.StepsDown ts last := by
  intro hdown
  have hst := hdown hquiet
  rw [Host.passes_again hrun hw] at hst
  cases hst

/-! ## A leader that is left alone -/

/-- The parameters of one of three voters that checks its quorum as a leader. -/
def checkingConfig : Config := { voterConfig with checkQuorum := true }

/-- One of three voters is elected, hears from another one, and lets its clock tick once. -/
def heardOnce : List (Turn Host HostEvent) × Host :=
  Trace.run Host.handle (Host.started checkingConfig)
    [.call { type := .msgHup },
      .step { type := .msgVoteResp, fromId := 2, toId := 1, term := 1 },
      .step { type := .msgAppResp, fromId := 2, toId := 1, term := 1, index := 1 }, .tick]

/-- A tick of a node. -/
def Host.tickTurn (h : Host) : Turn Host HostEvent := ⟨h, .tick, h.next .tick⟩

/-- The next tick is a check. -/
def firstCheck : Turn Host HostEvent := heardOnce.2.tickTurn

/-- The tick after it is none. -/
def quietTick : Turn Host HostEvent := firstCheck.after.tickTurn

/-- The one after that is a check. -/
def secondCheck : Turn Host HostEvent := quietTick.after.tickTurn

/-- The leader hears from nobody during these ticks. -/
theorem quiet_run : Host.Run heardOnce.2 (firstCheck :: [quietTick] ++ [secondCheck])
    secondCheck.after :=
  .cons (Host.handle_next (by decide +kernel)) <| .cons (Host.handle_next (by decide +kernel)) <|
    .cons (Host.handle_next (by decide +kernel)) (.nil _)

/-- The leader does not step down. -/
theorem never_steps_down_heardOnce : ¬ Host.StepsDown [quietTick] secondCheck :=
  never_steps_down quiet_run (by decide +kernel) (by decide +kernel)

/-- A leader that hears from too few voters between two checks of its quorum need not step down. -/
theorem unchecked_quorum : ¬ ∀ (c : Config) (h₀ h : Host) (pre ts : List (Turn Host HostEvent))
    (first last : Turn Host HostEvent), Host.boot c = .ok h₀ →
    Host.Run h₀ (pre ++ (first :: ts ++ [last])) h → Host.Window first ts last →
    Host.StepsDown ts last := by
  intro hall
  have hdown := hall checkingConfig _ _ heardOnce.1 [quietTick] firstCheck secondCheck
    (Host.boot_started (by decide +kernel)) ((Trace.of_run _ _ _).append quiet_run)
    (by decide +kernel)
  exact absurd hdown (by decide +kernel)

end RaftCpp
