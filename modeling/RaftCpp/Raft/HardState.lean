import RaftCpp.Raft.Host

/-!
# The term and the vote

No handler lowers the term, or takes back a vote in its term, with one exception: a candidate that gets a
leader's message without a term follows the sender into the term zero.
-/

namespace RaftCpp

open Outcome

variable {c : Cause} {r r' r'' : Raft}

/-- The term is not lower, and a vote in the same term is the same. -/
structure HardKept (r r' : Raft) : Prop where
  /-- The term is not lower. -/
  term_le : r.term ≤ r'.term
  /-- In the same term, a vote stays. -/
  vote_eq : r'.term = r.term → r.vote ≠ 0 → r'.vote = r.vote

instance : Decidable (HardKept r r') :=
  decidable_of_iff (r.term ≤ r'.term ∧ (r'.term = r.term → r.vote ≠ 0 → r'.vote = r.vote))
    ⟨fun h => ⟨h.1, h.2⟩, fun h => ⟨h.1, h.2⟩⟩

namespace HardKept

/-- Nothing changes. -/
theorem refl (r : Raft) : HardKept r r := ⟨Nat.le_refl _, fun _ _ => rfl⟩

/-- Neither the term nor the vote changes. -/
theorem of_eq (hterm : r'.term = r.term) (hvote : r'.vote = r.vote) : HardKept r r' :=
  ⟨Nat.le_of_eq hterm.symm, fun _ _ => hvote⟩

/-- The term is higher. -/
theorem of_lt (h : r.term < r'.term) : HardKept r r' :=
  ⟨Nat.le_of_lt h, fun heq => absurd heq (Nat.ne_of_gt h)⟩

/-- One change after another. -/
theorem trans (h : HardKept r r') (h' : HardKept r' r'') : HardKept r r'' := by
  refine ⟨Nat.le_trans h.term_le h'.term_le, fun hterm hvote => ?_⟩
  have hterm' : r'.term = r.term := by
    have h₁ := h.term_le
    have h₂ := h'.term_le
    omega
  have hvote' := h.vote_eq hterm' hvote
  rw [← hvote'] at hvote ⊢
  exact h'.vote_eq (hterm.trans hterm'.symm) hvote

end HardKept

/-! ## The moves -/

namespace Raft

/-- Following in the current term. -/
theorem hardKept_becomeFollower (r : Raft) (lead : ℕ) : HardKept r (r.becomeFollower r.term lead) :=
  HardKept.of_eq (r.reset_term r.term) ((r.reset_vote r.term).trans (if_pos rfl))

end Raft

/-- A move keeps the term and the vote, unless it trusts a message without a term. -/
theorem Move.hardKept (h : Move c r r') (hc : ∀ m, c = .step m → r.trusts m = false) :
    HardKept r r' := by
  cases h with
  | other h => exact HardKept.of_eq (congrArg Outline.term h) (congrArg Outline.vote h)
  | send x hx h =>
    obtain ⟨rfl, -⟩ := Raft.send_eq h
    exact HardKept.of_eq rfl rfl
  | read rs => exact HardKept.of_eq rfl rfl
  | follow t lead h =>
    rcases h with rfl | ⟨m, hm, rfl, h | h⟩
    · exact r.hardKept_becomeFollower lead
    · exact HardKept.of_lt (Nat.lt_of_lt_of_eq h (r.reset_term m.term).symm)
    · rw [hc m hm] at h
      cases h
  | heard m hm htype hstate => exact HardKept.of_eq rfl rfl
  | poll hc hstate h hpre => exact HardKept.of_eq rfl rfl
  | campaign hstate h =>
    exact HardKept.of_lt (Nat.lt_of_lt_of_eq (Nat.lt_succ_self _) (r.reset_term _).symm)
  | voteSelf hstate => exact HardKept.of_eq rfl rfl
  | answer m hm htype hterm hstate => exact HardKept.of_eq rfl rfl
  | lead hstate hcount => exact HardKept.of_eq (r.reset_term r.term) ((r.reset_vote r.term).trans (if_pos rfl))
  | grant m hm htype hvote =>
    refine ⟨Nat.le_refl _, fun _ hne => ?_⟩
    -- A vote is granted again only to the node that has it.
    simp only [Raft.canVote, htype, Bool.or_eq_true, beq_iff_eq, Bool.and_eq_true,
      reduceCtorEq, false_and, or_false] at hvote
    rcases hvote with h | ⟨h, -⟩
    · exact h.symm
    · exact absurd h hne
  | log h => exact HardKept.of_eq rfl rfl
  | members hm h =>
    exact HardKept.of_eq (congrArg Outline.term h) (congrArg Outline.vote h)

/-- Moves that never trust a message without a term keep the term and the vote. -/
theorem Course.hardKept (h : Course c r r') (hc : ∀ m, c = .step m → ∀ r : Raft, r.trusts m = false) :
    HardKept r r' := by
  induction h with
  | refl => exact HardKept.refl r
  | tail _ hmove ih => exact ih.trans (hmove.hardKept fun m hm => hc m hm _)

namespace Steady

/-- A node that keeps following trusts no message without a term. -/
theorem hardKept (h : Steady c r r') (hstate : r.state = .follower) : HardKept r r' := by
  induction h with
  | refl => exact HardKept.refl r
  | tail hsteady hmove ih =>
    refine ih.trans (hmove.1.hardKept fun m _ => ?_)
    unfold Raft.trusts
    rw [Steady.state hsteady, hstate]
    rfl

/-- A node that keeps following stays in its term, if the message is of no higher one. -/
theorem term_eq (h : Steady c r r') (hstate : r.state = .follower)
    (hterm : ∀ m, c = .step m → m.term ≤ r.term) : r'.term = r.term := by
  induction h with
  | refl => rfl
  | tail hsteady hmove ih =>
    rename_i r₁ r₂
    have hst₁ : r₁.state = .follower := (Steady.state hsteady).trans hstate
    rw [← ih]
    obtain ⟨hmove, hst⟩ := hmove
    rw [hst₁] at hst
    cases hmove with
    | other h => exact congrArg Outline.term h
    | send x hx h =>
      obtain ⟨rfl, -⟩ := Raft.send_eq h
      rfl
    | follow t lead h =>
      refine ((r₁.reset_term t).trans ?_)
      rcases h with h | ⟨m, hm, -, h | h⟩
      · exact h
      · have hle := hterm m hm
        omega
      · simp [Raft.trusts, hst₁] at h
    | campaign hne h => cases hst
    | lead hcand hcount => rw [hcand] at hst₁; cases hst₁
    | members hm h => exact congrArg Outline.term h
    | _ => rfl

end Steady

/-! ## Steps -/

namespace Raft

/-- A leader's message without a term goes to the handler of the role. -/
theorem step_eq_stepRole {m : Message} (hterm : m.term = 0)
    (htype : m.type = .msgApp ∨ m.type = .msgHeartbeat ∨ m.type = .msgSnap) :
    r.step m = r.stepRole m := by
  unfold step stepBody
  rw [if_pos hterm]
  rcases htype with h | h | h <;> rw [h]

/-- A message that is not trusted keeps the term and the vote. -/
theorem hardKept_step_of_not_trusts {m : Message} (htrust : r.trusts m = false) :
    Ensures (r.step m) fun p => HardKept r p.2 := by
  by_cases hplain : m.term = 0 ∧ (m.type = .msgApp ∨ m.type = .msgHeartbeat ∨ m.type = .msgSnap)
  · obtain ⟨hterm, htype⟩ := hplain
    rw [step_eq_stepRole hterm htype]
    unfold stepRole
    -- Only a candidate would trust it.
    cases hstate : r.state with
    | leader =>
      unfold stepLeader stepLeaderPeer
      rcases htype with h | h | h <;> simp only [h] <;> cases r.getProgress m.fromId <;>
        exact Ensures.pure (HardKept.refl r)
    | follower =>
      have hnow : m.type ≠ .msgTimeoutNow := by
        rcases htype with h | h | h <;> rw [h] <;> simp
      exact (steady_stepFollower rfl hstate hnow).mono fun p hp => hp.hardKept hstate
    | candidate =>
      rcases htype with h | h | h <;> simp [trusts, hterm, h, hstate] at htrust
    | preCandidate =>
      rcases htype with h | h | h <;> simp [trusts, hterm, h, hstate] at htrust
  · refine (moves_step rfl).mono fun p hp => hp.hardKept fun m' hm' r' => ?_
    cases hm'
    rw [← Bool.not_eq_true]
    intro h
    simp only [trusts, Bool.and_eq_true, Bool.or_eq_true, beq_iff_eq] at h
    exact hplain ⟨h.1.2, by rw [← or_assoc]; exact h.2⟩

/-- A message that is trusted takes the node to the term zero. -/
theorem step_trusted {m : Message} (htrust : r.trusts m = true) :
    Ensures (r.step m) fun p => p.2.term = 0 ∧ HardKept (r.becomeFollower 0 m.fromId) p.2 := by
  simp only [trusts, Bool.and_eq_true, Bool.or_eq_true, beq_iff_eq, or_assoc] at htrust
  obtain ⟨⟨hstate, hterm⟩, htype⟩ := htrust
  have hsteady : ∀ {x : Result Raft}, Ensures x (Steady (.step m) (r.becomeFollower 0 m.fromId)) →
      Ensures (do let r' ← x; return (Status.ok, r')) fun p =>
        p.2.term = 0 ∧ HardKept (r.becomeFollower 0 m.fromId) p.2 := fun hx =>
    Ensures.bind hx fun r' hr' => Ensures.pure ⟨by
      refine (hr'.term_eq rfl ?_).trans (r.reset_term 0)
      rintro m' ⟨⟩
      rw [hterm]
      exact Nat.zero_le _, hr'.hardKept rfl⟩
  have hrole : r.stepRole m = r.stepCandidate m := by
    unfold stepRole
    rcases hstate with h | h <;> rw [h]
  rw [step_eq_stepRole hterm htype, hrole]
  unfold stepCandidate
  rcases htype with h | h | h
  · simp only [h, hterm]
    exact hsteady (steady_handleAppendEntries rfl h)
  · simp only [h, hterm]
    exact hsteady (steady_handleHeartbeat m)
  · simp only [h, hterm]
    exact hsteady (steady_handleSnapshot rfl h)

/-- `step` keeps the term and the vote exactly if it does not trust the message, or the node is in the
term zero already. -/
theorem hardKept_step_iff {m : Message} {p : Status × Raft} (h : r.step m = .ok p) :
    HardKept r p.2 ↔ ¬(r.trusts m = true ∧ r.term ≠ 0) := by
  cases htrust : r.trusts m with
  | false => simp [hardKept_step_of_not_trusts htrust p h]
  | true =>
    obtain ⟨hterm, hkept⟩ := step_trusted htrust p h
    constructor
    · rintro hr ⟨-, hne⟩
      have hle := hr.term_le
      omega
    · intro hne
      have hzero : r.term = 0 := by simpa using hne
      have hfollow := r.hardKept_becomeFollower m.fromId
      rw [hzero] at hfollow
      exact hfollow.trans hkept

end Raft

/-! ## Runs -/

namespace HostEvent

/-- A candidate that is not in the term zero gets a leader's message without a term. -/
def TakesTermZero (h : Host) : HostEvent → Prop
  | .step m | .call m => h.node.raft.trusts m = true ∧ h.node.raft.term ≠ 0
  | _ => False

instance (h : Host) (e : HostEvent) : Decidable (e.TakesTermZero h) :=
  match e with
  | .step m | .call m => inferInstanceAs (Decidable (h.node.raft.trusts m = true ∧ _))
  | .tick | .applyConfChange _ | .ready | .persist | .advance | .createSnapshot _ _ _ | .compact _ =>
    .isFalse id

end HostEvent

/-- A message that would be trusted is accepted. -/
theorem RawNode.step_of_trusts {n : RawNode} {m : Message} (h : n.raft.trusts m = true) :
    n.step m = n.stepRaft m := by
  simp only [Raft.trusts, Bool.and_eq_true, Bool.or_eq_true, beq_iff_eq, or_assoc] at h
  unfold RawNode.step Message.isLocalMsg Message.isResponseMsg
  rcases h.2 with h | h | h <;> simp [h]

/-- Without a message, the term and the vote are kept. -/
theorem Host.Handled.hardKept {h h' : Host} {e : HostEvent} (hd : Host.Handled h e h')
    (hcause : ∀ m, e.cause ≠ some (.step m)) : HardKept h.node.raft h'.node.raft := by
  cases hd with
  | moved hc hmoves => exact hmoves.hardKept fun m hm => absurd (hm ▸ hc) (hcause m)
  | nothing _ => exact HardKept.refl _
  | ready hnone hn =>
    obtain ⟨-, -, -, -, -, size, rfl⟩ := RawNode.ready_eq hn
    exact HardKept.of_eq rfl rfl
  | persist hsome hs => exact HardKept.of_eq rfl rfl
  | advance hsome => exact HardKept.of_eq rfl rfl
  | createSnapshot hs => exact HardKept.of_eq rfl rfl
  | compact hs => exact HardKept.of_eq rfl rfl

/-- An event keeps the term and the vote exactly if it is not such a message. -/
theorem Host.hardKept_handle_iff {h h' : Host} {e : HostEvent} (hh : h.handle e = .ok h') :
    HardKept h.node.raft h'.node.raft ↔ ¬e.TakesTermZero h := by
  have hstep : ∀ {m n}, h.node.stepRaft m = .ok n →
      (HardKept h.node.raft n.2.raft ↔
        ¬(h.node.raft.trusts m = true ∧ h.node.raft.term ≠ 0)) := fun hn => by
    unfold RawNode.stepRaft at hn
    obtain ⟨p, hp, hn⟩ := bind_eq_ok.mp hn
    cases hn
    exact Raft.hardKept_step_iff hp
  have hplain : HardKept h.node.raft h'.node.raft → (HardKept h.node.raft h'.node.raft ↔ ¬False) :=
    fun hk => ⟨fun _ => id, fun _ => hk⟩
  cases e with
  | step m =>
    obtain ⟨p, hp, hh⟩ := bind_eq_ok.mp hh
    cases hh
    cases htrust : h.node.raft.trusts m with
    | true =>
      rw [RawNode.step_of_trusts htrust] at hp
      exact hstep hp
    | false =>
      -- It may also be rejected, which changes nothing.
      have hkept : HardKept h.node.raft p.2.raft := by
        unfold RawNode.step at hp
        split_ifs at hp
        · cases hp
          exact HardKept.refl _
        · exact (hstep hp).mpr (by simp [htrust])
        · cases hp
          exact HardKept.refl _
      simp [HostEvent.TakesTermZero, htrust, hkept]
  | call m =>
    obtain ⟨p, hp, hh⟩ := bind_eq_ok.mp hh
    cases hh
    exact hstep hp
  | _ => exact hplain ((handled hh).hardKept nofun)

/-- A voter that campaigns, and then hears from another candidate. -/
def campaigning : List (Turn Host HostEvent) × Host :=
  Trace.run Host.handle (Host.started voterConfig)
    [.tick, .tick, .step { type := .msgVote, fromId := 2, toId := 1, term := 1 }]

/-- A voter that campaigns, and then gets a heartbeat without a term. -/
def misled : List (Turn Host HostEvent) × Host :=
  Trace.run Host.handle (Host.started voterConfig)
    [.tick, .tick, .step { type := .msgHeartbeat, fromId := 2, toId := 1 }]

end RaftCpp
