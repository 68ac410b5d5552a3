import RaftCpp.Raft.Subordinate

/-!
# Leaderships

A leadership begins with the step in which a node wins an election, and lasts as long as the node leads the
term. Neither a proposal, nor a read request, nor the answer to an append begins one.
-/

namespace RaftCpp

open Outcome

/-- The messages that a leader works on: proposals, read requests, and the answers to appends. -/
def MessageType.IsWork (t : MessageType) : Prop := t = .msgProp ∨ t = .msgReadIndex ∨ t = .msgAppResp

namespace Raft

variable {r : Raft} {m : Message}

/-- Such a message does not make a node a leader, past the check of the term. -/
theorem stepBody_work (htype : m.type.IsWork) (hl : r.state ≠ .leader) :
    Ensures (r.stepBody m) fun q => q.2.state ≠ .leader := by
  have hdropped : Ensures (r.stepCandidate m) fun q => q.2.state ≠ .leader := by
    unfold stepCandidate
    obtain htype | htype | htype := htype <;> simp only [htype] <;> exact Ensures.pure hl
  have hrole : Ensures (r.stepRole m) fun q => q.2.state ≠ .leader := by
    unfold stepRole
    split
    · next hst => exact absurd hst hl
    · exact hdropped
    · exact hdropped
    · next hst =>
      have hnow : m.type ≠ .msgTimeoutNow := by
        obtain htype | htype | htype := htype <;> simp [htype]
      refine (steady_stepFollower (c := .step m) rfl hst hnow).mono fun q hq => ?_
      rw [hq.state, hst]
      exact nofun
  unfold stepBody
  obtain htype | htype | htype := htype <;> simp only [htype] <;> exact hrole

/-- Such a message does not make a node a leader. -/
theorem step_work (htype : m.type.IsWork) :
    Ensures (r.step m) fun q => q.2.state = .leader → r.state = .leader ∧ q.2.term = r.term := by
  apply step_ensures
  · by_cases hl : r.state = .leader
    · refine (leads_stepBody hl m).mono fun q hq hl' => ?_
      obtain hleads | heq := hq
      · exact ⟨hl, hleads.term⟩
      · rw [heq] at hl'
        cases hl'
    · exact (stepBody_work htype hl).mono fun q hq hl' => absurd hl' hq
  · intro lead _ _
    have hfollow : (r.becomeFollower m.term lead).state ≠ .leader := nofun
    exact (stepBody_work htype hfollow).mono fun q hq hl' => absurd hl' hq
  · exact fun hl => ⟨hl, rfl⟩
  · have hleads : Ensures (r.stepLowerTerm m) (LeaderCourse (.step m) r r) := leads_stepLowerTerm m
    exact hleads.mono fun r' hr' hl' => ⟨hr'.state.symm.trans hl', hr'.term⟩

/-- A leader ignores such a message of another term, unless it ends its leadership. -/
theorem step_staleWork (htype : m.type.IsWork) (hzero : m.term ≠ 0) (hterm : m.term ≠ r.term) :
    Ensures (r.step m) fun q => q.2.state = .leader → q.2 = r := by
  unfold step
  rw [if_neg hzero]
  refine Ensures.ite (fun _ => ?_) fun hle => ?_
  · refine Ensures.ite (fun _ => Ensures.pure fun _ => rfl) fun _ => ?_
    -- The node enters the term of the message as a follower.
    refine Ensures.bind (P := fun r₁ => r₁.state ≠ .leader) ?_ fun r₁ hr₁ => ?_
    · unfold stepHigherTerm
      rw [if_neg (by obtain htype | htype | htype := htype <;> simp [htype])]
      refine Ensures.bind Ensures.any fun _ _ => ?_
      exact Ensures.ite (fun _ => Ensures.pure nofun) fun _ => Ensures.pure nofun
    · exact (stepBody_work htype hr₁).mono fun q hq hl => absurd hl hq
  · refine Ensures.ite (fun _ => ?_) fun hge => absurd (by omega) hterm
    unfold stepLowerTerm
    rw [if_neg (by obtain htype | htype | htype := htype <;> simp [htype]),
      if_neg (by obtain htype | htype | htype := htype <;> simp [htype])]
    refine Ensures.bind (P := fun r₁ => r₁ = r) ?_ fun r₁ hr₁ => Ensures.pure fun _ => hr₁
    exact Ensures.bind Ensures.any fun _ _ => Ensures.pure rfl

end Raft

namespace Host

/-- The node takes the lead of a term in the step. -/
def TakesLead (t : Turn Host HostEvent) : Prop :=
  t.after.node.raft.state = .leader ∧ ¬(t.before.node.raft.state = .leader ∧
    t.after.node.raft.term = t.before.node.raft.term)

instance (t : Turn Host HostEvent) : Decidable (TakesLead t) := inferInstanceAs (Decidable (_ ∧ ¬_))

/-- The node leads the term. -/
def LeadsTerm (h : Host) (term : ℕ) : Prop :=
  h.node.raft.state = .leader ∧ h.node.raft.term = term

instance (h : Host) (term : ℕ) : Decidable (h.LeadsTerm term) := inferInstanceAs (Decidable (_ ∧ _))

variable {h h' : Host} {e : HostEvent}

/-- A node that leads after such a message led its term before. -/
theorem leads_of_work {c : Cause} {m : Message} (hc : e.cause = some c) (hm : c = .step m)
    (htype : m.type.IsWork) (hh : h.handle e = .ok h') (hl' : h'.node.raft.state = .leader) :
    h.node.raft.state = .leader ∧ h'.node.raft.term = h.node.raft.term := by
  subst hm
  obtain heq | ⟨status, hstep⟩ := stepped hc hh
  · rw [heq] at hl' ⊢
    exact ⟨hl', rfl⟩
  · exact Raft.step_work htype _ hstep hl'

/-- A node that takes the lead wins an election, but not on such a message. -/
theorem elects (hh : h.handle e = .ok h') (ht : TakesLead ⟨h, e, h'⟩) :
    ∃ c, e.cause = some c ∧ (∀ m, c = .step m → ¬m.type.IsWork) ∧
      Raft.Wins c h.node.raft h.node.raft h'.node.raft := by
  obtain ⟨hl', hnew⟩ := ht
  have hsame : ¬(h'.node.raft.state = h.node.raft.state ∧ h'.node.raft.term = h.node.raft.term) :=
    fun hs => hnew ⟨hs.1 ▸ hl', hs.2⟩
  cases hcause : e.cause with
  | none =>
    obtain ⟨l, msgs, readStates, size, heq, -⟩ := (handled hh).frame hcause
    rw [heq] at hsame
    exact absurd ⟨rfl, rfl⟩ hsame
  | some c =>
    have hne : c ≠ .confChange := by
      rintro rfl
      cases e with
      | applyConfChange cc =>
        obtain ⟨p, hp, hh⟩ := bind_eq_ok.mp hh
        cases hh
        obtain ⟨⟨r₁, ⟨⟨prs, lprs, b, rfl⟩, -⟩, hleads⟩, -⟩ :=
          h.node.leads_applyConfChange (s := h.node.raft) cc p hp
        exact hsame ⟨hleads.state, hleads.term⟩
      | _ => cases hcause
    have hwork : ∀ m, c = .step m → ¬m.type.IsWork := fun m hm htype =>
      hnew (leads_of_work hcause hm htype hh hl')
    cases turns_handle hcause hne hh with
    | leads hl hleads => exact absurd ⟨hleads.state, hleads.term⟩ hsame
    | obeys m hm hob => exact absurd hl' hob.state
    | wins hwins => exact ⟨c, rfl, hwork, hwins⟩

end Host

end RaftCpp
