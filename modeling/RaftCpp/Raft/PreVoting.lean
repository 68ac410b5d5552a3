import RaftCpp.Library.Quorum
import RaftCpp.Raft.Fleet

/-!
# Polls

With pre-votes, a node polls the voters before it enters a new term. The answers to a poll and those to an
election before it are counted by the same handler, which looks at neither the type nor the term of the
answer. Where no answer to something else is counted in a poll, no node enters a term as a candidate
without the grants of a majority for this term.
-/

namespace RaftCpp

open Consensus Outcome

/-- A node has sent another one a grant of a pre-vote for a term. -/
def Granted (net : List Message) (y i t : ℕ) : Prop :=
  ∃ m ∈ net, m.type = .msgPreVoteResp ∧ m.reject = false ∧ m.fromId = y ∧ m.toId = i ∧ m.term = t

/-- A majority of the voters, to which the node itself belongs, has granted it a pre-vote for a term. -/
def PreVoted (V : Finset ℕ) (net : List Message) (i t : ℕ) : Prop :=
  i ∈ V ∧ (majority V).IsQuorum {y | y = i ∨ Granted net y i t}

instance (net : List Message) (y i t : ℕ) : Decidable (Granted net y i t) :=
  inferInstanceAs (Decidable (∃ m ∈ net, _ ∧ _ ∧ _ ∧ _ ∧ _))

instance (V : Finset ℕ) (net : List Message) (i t : ℕ) : Decidable (PreVoted V net i t) :=
  haveI : DecidablePred (· ∈ {y | y = i ∨ Granted net y i t}) := fun y =>
    inferInstanceAs (Decidable (y = i ∨ Granted net y i t))
  decidable_of_iff (i ∈ V ∧ V.card < 2 * (V.filter (· ∈ {y | y = i ∨ Granted net y i t})).card)
    (and_congr_right fun _ => majority_isQuorum_iff.symm)

/-- If the message is a grant, a voter grants, and says for which term. -/
def Message.GrantOf (V : Finset ℕ) (m : Message) : Prop :=
  m.type = .msgVoteResp ∨ m.type = .msgPreVoteResp → m.reject = false → m.fromId ∈ V ∧ m.term ≠ 0

/-- A node that polls counts a grant that does not answer the poll: it answers an election, or a poll for
another term. -/
def Raft.StrayGrant (r : Raft) (m : Message) : Prop :=
  r.state = .preCandidate ∧ m.reject = false ∧ r.votes.lookup m.fromId = none ∧
    (m.type = .msgVoteResp ∧ m.term = r.term ∨
      m.type = .msgPreVoteResp ∧ r.term ≤ m.term ∧ m.term ≠ r.term + 1)

instance (r : Raft) (m : Message) : Decidable (r.StrayGrant m) :=
  inferInstanceAs (Decidable (_ ∧ _ ∧ _ ∧ (_ ∨ _)))

variable {V : Finset ℕ} {net net' : List Message} {i t : ℕ} {c : Cause} {r r' r₀ : Raft}

/-- A grant stays sent. -/
theorem Granted.mono {y : ℕ} (h : Granted net y i t) (hnet : net ⊆ net') : Granted net' y i t := by
  obtain ⟨m, hm, hrest⟩ := h
  exact ⟨m, hnet hm, hrest⟩

/-! ## Steps of a node -/

/-- The causes that do not change the membership. -/
def Cause.KeepsMembers (c : Cause) : Prop := c ≠ .confChange ∧ ∀ m, c = .step m → m.type ≠ .msgSnap

/-- A node counts in its polls what was granted for them. -/
structure Polling (V : Finset ℕ) (net : List Message) (i : ℕ) (r : Raft) : Prop where
  /-- The identity. -/
  id : r.id = i
  /-- The node polls before an election. -/
  preVote : r.preVote = true
  /-- The grants in a poll. -/
  votes : r.state = .preCandidate → ∀ y, r.votes.lookup y = some true →
    y = i ∨ y ∈ V ∧ Granted net y i (r.term + 1)
  /-- Only a voter campaigns. -/
  voter : r.state ≠ .follower → i ∈ V
  /-- The grants that the node sends. -/
  msgs : ∀ m ∈ r.msgs, m.GrantOf V

/-- What is kept while a node acts, from the state it was in. -/
structure PollingSince (V : Finset ℕ) (net : List Message) (i : ℕ) (c : Cause) (r₀ r : Raft) : Prop
    extends Polling V net i r where
  /-- The membership. -/
  members : c.KeepsMembers → r.prs.keys.toFinset = V ∧ r.quorum = V.card / 2 + 1 ∧
    (r.isLearner = false → i ∈ V)
  /-- A candidate was one before, or has won a poll. -/
  entered : r.state = .candidate ∨ r.state = .leader →
    (r₀.state = .candidate ∨ r₀.state = .leader) ∧ r.term = r₀.term ∨ PreVoted V net i r.term
  /-- While it counts an answer, a node is in the poll that it was in before. -/
  answering : (∃ m, c = .step m ∧ (m.type = .msgVoteResp ∨ m.type = .msgPreVoteResp)) →
    r.state = .preCandidate → r₀.state = .preCandidate ∧ r.term = r₀.term ∧
      ∀ y b, r₀.votes.lookup y = some b → r.votes.lookup y = some b

/-- What a node may be made to act on: no request to take over, a request to campaign only if it is a
voter, and of the answers only those that were sent to it and are not stray. -/
def Cause.Regular (V : Finset ℕ) (net : List Message) (i : ℕ) (r₀ : Raft) : Cause → Prop
  | .tick => i ∈ V
  | .confChange => True
  | .step m => m.type ≠ .msgTimeoutNow ∧ (m.type = .msgHup → i ∈ V) ∧
    (m.type = .msgVoteResp ∨ m.type = .msgPreVoteResp → m ∈ net ∧ m.toId = i ∧ ¬r₀.StrayGrant m)

/-- Where a node campaigns of its own, it is a voter. -/
theorem Cause.Regular.voter (hc : c.Regular V net i r₀) (h : c.AsksToCampaign) : i ∈ V := by
  rcases h with rfl | ⟨m, rfl, htype⟩
  · exact hc
  · exact hc.2.1 htype

/-- Where answers are counted, the membership is kept. -/
theorem Cause.CountsAnswers.keepsMembers (h : c.CountsAnswers) : c.KeepsMembers := by
  have hstep : ∀ m : Message, m.type ≠ .msgSnap → (Cause.step m).KeepsMembers := fun m hm =>
    ⟨nofun, fun m' h => by cases h; exact hm⟩
  rcases h with (rfl | ⟨m, rfl, htype⟩) | ⟨m, rfl, htype | htype⟩
  · exact ⟨nofun, nofun⟩
  · exact hstep m (by rw [htype]; exact nofun)
  · exact hstep m (by rw [htype]; exact nofun)
  · exact hstep m (by rw [htype]; exact nofun)

/-- The answers after another one is counted. -/
theorem Raft.lookup_poll (r : Raft) (x y : ℕ) (v : Bool) :
    (r.poll x v).2.votes.lookup y =
      if y = x ∧ r.votes.lookup x = none then some v else r.votes.lookup y := by
  unfold Raft.poll
  dsimp only
  cases hx : r.votes.lookup x with
  | none =>
    dsimp only
    rw [AList.lookup_insert_eq]
    by_cases hy : y = x
    · rw [if_pos hy, if_pos ⟨hy, rfl⟩]
    · rw [if_neg hy, if_neg fun h => hy h.1]
  | some b => rw [if_neg fun h => by cases h.2]

namespace PollingSince

/-- A change of what the moves are not about. -/
theorem congr (h : PollingSince V net i c r₀ r) (ho : r'.outline = r.outline) :
    PollingSince V net i c r₀ r' := by
  have hid : r'.id = r.id := congrArg Outline.id ho
  have hterm : r'.term = r.term := congrArg Outline.term ho
  have hstate : r'.state = r.state := congrArg Outline.state ho
  have hvotes : r'.votes = r.votes := congrArg Outline.votes ho
  have hmsgs : r'.msgs = r.msgs := congrArg Outline.msgs ho
  have hpre : r'.preVote = r.preVote := congrArg Outline.preVote ho
  have hvoters : r'.prs.keys.toFinset = r.prs.keys.toFinset := congrArg Outline.voters ho
  have hquorum : r'.quorum = r.quorum := congrArg Outline.quorum ho
  have hlearner : r'.isLearner = r.isLearner := congrArg Outline.isLearner ho
  constructor
  · constructor
    · rw [hid]
      exact h.id
    · rw [hpre]
      exact h.preVote
    · rw [hstate, hvotes, hterm]
      exact h.votes
    · rw [hstate]
      exact h.voter
    · rw [hmsgs]
      exact h.msgs
  · rw [hvoters, hquorum, hlearner]
    exact h.members
  · rw [hstate, hterm]
    exact h.entered
  · rw [hstate, hterm, hvotes]
    exact h.answering

/-- A node that follows has no poll. -/
theorem becomeFollower (h : PollingSince V net i c r₀ r) (t lead : ℕ) :
    PollingSince V net i c r₀ (r.becomeFollower t lead) := by
  constructor
  · constructor
    · exact (r.reset_id t).trans h.id
    · exact (r.reset_preVote t).trans h.preVote
    · exact nofun
    · exact fun hne => absurd rfl hne
    · rw [show (r.becomeFollower t lead).msgs = r.msgs from r.reset_msgs t]
      exact h.msgs
  · intro hc
    obtain ⟨hvoters, hquorum, hlearner⟩ := h.members hc
    refine ⟨?_, (r.reset_quorum t).trans hquorum, ?_⟩
    · rw [← hvoters]
      ext y
      simp only [List.mem_toFinset, AList.mem_keys.symm]
      exact r.mem_reset_prs t y
    · rw [show (r.becomeFollower t lead).isLearner = r.isLearner from r.reset_isLearner t]
      exact hlearner
  · rintro (hst | hst) <;> cases hst
  · exact fun _ hst => by cases hst

/-- A poll that a node wins has the grants of a majority. -/
theorem preVoted (h : PollingSince V net i c r₀ r) (hc : c.KeepsMembers) (hstate : r.state = .preCandidate)
    (hcount : r.quorum = r.votes.entries.countP (·.2)) : PreVoted V net i (r.term + 1) := by
  obtain ⟨-, hquorum, -⟩ := h.members hc
  have hi : i ∈ V := h.voter (by rw [hstate]; exact nofun)
  obtain ⟨T, hT, hTk⟩ := r.votes.exists_finset_card fun b => b
  have hgrant : ∀ y ∈ T, y = i ∨ y ∈ V ∧ Granted net y i (r.term + 1) := fun y hy => by
    obtain ⟨b, hb, htrue⟩ := hTk y hy
    exact h.votes hstate y (htrue ▸ hb)
  refine ⟨hi, majority_isQuorum (S := T) (fun y hy => ?_) ?_ fun y hy => ?_⟩
  · rcases hgrant y hy with rfl | ⟨hV, -⟩
    · exact hi
    · exact hV
  · rw [hT, ← hcount, hquorum]
    omega
  · exact (hgrant y hy).imp_right And.right

/-- A node counts its own vote. -/
theorem voteSelf (h : PollingSince V net i c r₀ r) : PollingSince V net i c r₀ (r.poll r.id true).2 := by
  constructor
  · refine ⟨h.id, h.preVote, fun hstate y hy => ?_, h.voter, h.msgs⟩
    rw [Raft.lookup_poll] at hy
    split_ifs at hy with hself
    · exact Or.inl (hself.1.trans h.id)
    · exact h.votes hstate y hy
  · exact h.members
  · exact h.entered
  · intro hc hstate
    obtain ⟨hst, hterm, hkept⟩ := h.answering hc hstate
    refine ⟨hst, hterm, fun y b hy => ?_⟩
    rw [Raft.lookup_poll, if_neg, hkept y b hy]
    rintro ⟨rfl, hnone⟩
    rw [hkept _ b hy] at hnone
    cases hnone

/-- A node counts an answer that it may count. -/
theorem answer (h : PollingSince V net i c r₀ r) (hreg : c.Regular V net i r₀)
    (hnet : ∀ m ∈ net, m.GrantOf V) {m : Message} (hc : c = .step m)
    (htype : m.type = .msgVoteResp ∨ m.type = .msgPreVoteResp)
    (hterm : m.term = 0 ∨ m.term = r.term ∨ (m.type = .msgPreVoteResp ∧ r.term < m.term)) :
    PollingSince V net i c r₀ (r.poll m.fromId (!m.reject)).2 := by
  subst hc
  obtain ⟨hm, hto, hstray⟩ := hreg.2.2 htype
  have hans := h.answering ⟨m, rfl, htype⟩
  constructor
  · refine ⟨h.id, h.preVote, fun hstate y hy => ?_, h.voter, h.msgs⟩
    have hpoll : r.state = .preCandidate := hstate
    obtain ⟨hst, hterm₀, hkept⟩ := hans hpoll
    rw [Raft.lookup_poll] at hy
    split_ifs at hy with hnew
    · -- The answer is the first one of its sender, and a grant.
      obtain ⟨rfl, hnone⟩ := hnew
      have hreject : m.reject = false := by simpa using hy
      have hnone₀ : r₀.votes.lookup m.fromId = none := by
        cases hb : r₀.votes.lookup m.fromId with
        | none => rfl
        | some b =>
          rw [hkept _ b hb] at hnone
          cases hnone
      obtain ⟨hV, hpos⟩ := hnet m hm htype hreject
      have hnot := fun hbad => hstray ⟨hst, hreject, hnone₀, hbad⟩
      rw [← hterm₀] at hnot
      -- It is a grant of a pre-vote for the term of the poll.
      have hgrant : m.type = .msgPreVoteResp ∧ m.term = r.term + 1 := by
        rcases hterm with hzero | heq | ⟨hpre, hlt⟩
        · exact absurd hzero hpos
        · rcases htype with ht | ht
          · exact absurd (Or.inl ⟨ht, heq⟩) hnot
          · exact absurd (Or.inr ⟨ht, Nat.le_of_eq heq.symm, by omega⟩) hnot
        · refine ⟨hpre, ?_⟩
          by_contra hne
          exact hnot (Or.inr ⟨hpre, Nat.le_of_lt hlt, hne⟩)
      exact Or.inr ⟨hV, m, hm, hgrant.1, hreject, rfl, hto, hgrant.2⟩
    · exact h.votes hpoll y hy
  · exact h.members
  · exact h.entered
  · intro _ hstate
    obtain ⟨hst, hterm₀, hkept⟩ := hans hstate
    refine ⟨hst, hterm₀, fun y b hy => ?_⟩
    rw [Raft.lookup_poll, if_neg, hkept y b hy]
    rintro ⟨rfl, hnone⟩
    rw [hkept _ b hy] at hnone
    cases hnone

/-- A grant that a node sends is that of a voter. -/
theorem send (h : PollingSince V net i c r₀ r) {x : Message} (hx : SendOK c r x)
    (hsend : r.send x = .ok r') : PollingSince V net i c r₀ r' := by
  obtain ⟨rfl, hpos, -⟩ := Raft.send_eq hsend
  refine ⟨⟨h.id, h.preVote, h.votes, h.voter, fun m hm => ?_⟩, h.members, h.entered, h.answering⟩
  rcases List.mem_append.mp hm with hm | hm
  · exact h.msgs m hm
  obtain rfl := List.mem_singleton.mp hm
  intro htype hreject
  have hxtype : x.type = .msgVoteResp ∨ x.type = .msgPreVoteResp := by
    unfold Raft.fillIn at htype
    split_ifs at htype <;> exact htype
  have hvote : Raft.isVoteType x.type = true := by
    rcases hxtype with ht | ht <;> rw [ht] <;> rfl
  have hfill : r.fillIn x = { x with fromId := r.id } := by
    unfold Raft.fillIn
    rw [if_pos (Or.inl hvote)]
  rw [hfill] at hreject ⊢
  -- Only a node that is no learner grants, and on a request, which does not change the membership.
  have hgrant : ∃ m, c = .step m ∧ (m.type = .msgVote ∨ m.type = .msgPreVote) ∧ r.isLearner = false := by
    unfold SendOK at hx
    rcases hxtype with ht | ht
    · simp only [ht] at hx
      obtain ⟨m, hc, hm, -, -, hl⟩ := hx hreject
      exact ⟨m, hc, Or.inl hm, hl⟩
    · simp only [ht] at hx
      obtain ⟨m, hc, hm, -, -, hl⟩ := hx hreject
      exact ⟨m, hc, Or.inr hm, hl⟩
  obtain ⟨m, rfl, hm, hl⟩ := hgrant
  have hkeeps : (Cause.step m).KeepsMembers := by
    refine ⟨nofun, fun m' h => ?_⟩
    cases h
    rcases hm with hm | hm <;> rw [hm] <;> exact nofun
  refine ⟨?_, hpos hvote⟩
  rw [show ({ x with fromId := r.id } : Message).fromId = i from h.id]
  exact (h.members hkeeps).2.2 hl

/-- What a move keeps. -/
theorem move (h : PollingSince V net i c r₀ r) (hreg : c.Regular V net i r₀)
    (hnet : ∀ m ∈ net, m.GrantOf V) (hmove : Move c r r') : PollingSince V net i c r₀ r' := by
  cases hmove with
  | other ho => exact h.congr ho
  | send x hx hsend => exact h.send hx hsend
  | follow t lead _ => exact h.becomeFollower t lead
  | poll hc hstate hhup hpre =>
    refine ⟨⟨h.id, h.preVote, fun _ y hy => ?_, fun _ => hreg.voter hc, h.msgs⟩, h.members, ?_, ?_⟩
    · rw [AList.lookup_empty] at hy
      cases hy
    · rintro (hst | hst) <;> cases hst
    · rintro ⟨m, rfl, htype⟩ -
      rcases hc with hc | ⟨m', hc, hm'⟩
      · cases hc
      · cases hc
        rw [hm'] at htype
        simp at htype
  | campaign hstate hcamp =>
    cases hcamp with
    | hup _ _ hpre => exact absurd (hpre.symm.trans h.preVote) Bool.false_ne_true
    | timeoutNow m hc htype _ =>
      subst hc
      exact absurd htype hreg.1
    | polled hc hst hcount =>
      have hwon := h.preVoted hc.keepsMembers hst hcount
      have hb := h.becomeFollower (r.term + 1) 0
      refine ⟨⟨hb.id, hb.preVote, nofun, fun _ => hwon.1, hb.msgs⟩, hb.members, fun _ => Or.inr ?_,
        fun _ hst => by cases hst⟩
      rw [show ({ r.reset (r.term + 1) with vote := r.id, state := .candidate } : Raft).term = r.term + 1
        from r.reset_term _]
      exact hwon
  | voteSelf _ => exact h.voteSelf
  | answer m hc htype hterm _ => exact h.answer hreg hnet hc htype hterm
  | lead hstate _ =>
    have hb := h.becomeFollower r.term 0
    refine ⟨⟨hb.id, hb.preVote, nofun, fun _ => h.voter (by rw [hstate]; exact nofun), hb.msgs⟩,
      hb.members, fun _ => ?_, fun _ hst => by cases hst⟩
    rw [show r.takeLead.term = r.term from r.reset_term _]
    exact h.entered (Or.inl hstate)
  | members hc ho =>
    have hid : r'.id = r.id := congrArg Outline.id ho
    have hterm : r'.term = r.term := congrArg Outline.term ho
    have hstate : r'.state = r.state := congrArg Outline.state ho
    have hvotes : r'.votes = r.votes := congrArg Outline.votes ho
    have hmsgs : r'.msgs = r.msgs := congrArg Outline.msgs ho
    have hpre : r'.preVote = r.preVote := congrArg Outline.preVote ho
    refine ⟨⟨hid.trans h.id, hpre.trans h.preVote, ?_, ?_, ?_⟩, fun hkeeps => ?_, ?_, ?_⟩
    · rw [hstate, hvotes, hterm]
      exact h.votes
    · rw [hstate]
      exact h.voter
    · rw [hmsgs]
      exact h.msgs
    · rcases hc with hc | ⟨m, hc, htype⟩
      · exact absurd hc hkeeps.1
      · exact absurd htype (hkeeps.2 m hc)
    · rw [hstate, hterm]
      exact h.entered
    · rw [hstate, hterm, hvotes]
      exact h.answering
  | _ => exact ⟨⟨h.id, h.preVote, h.votes, h.voter, h.msgs⟩, h.members, h.entered, h.answering⟩

/-- What moves keep. -/
theorem course (h : PollingSince V net i c r₀ r) (hreg : c.Regular V net i r₀)
    (hnet : ∀ m ∈ net, m.GrantOf V) (hcourse : Course c r r') : PollingSince V net i c r₀ r' := by
  induction hcourse with
  | refl => exact h
  | tail _ hmove ih => exact ih.move hreg hnet hmove

end PollingSince

/-- What a node that polls has kept so far, when it begins to act. -/
theorem Polling.since (h : Polling V net i r) (hvoters : r.prs.keys.toFinset = V)
    (hlearner : r.isLearner = false → i ∈ V) (c : Cause) : PollingSince V net i c r r := by
  refine ⟨h, fun _ => ⟨hvoters, ?_, hlearner⟩, fun hst => Or.inl ⟨hst, rfl⟩,
    fun _ hst => ⟨hst, rfl, fun _ _ hy => hy⟩⟩
  rw [← hvoters, List.toFinset_card_of_nodup r.prs.keys_nodup]
  rfl

/-- A follower that is no voter only counts the ticks. -/
theorem Raft.tick_of_not_voter (hstate : r.state = .follower) (hid : r.id = i)
    (hvoters : r.prs.keys.toFinset = V) (hi : i ∉ V) :
    r.tick = .ok { r with electionElapsed := r.electionElapsed + 1 } := by
  have hnot : r.promotable = false := by
    unfold Raft.promotable
    rw [Option.isSome_eq_false_iff, Option.isNone_iff_eq_none, AList.lookup_eq_none, hid]
    intro hmem
    apply hi
    rw [← hvoters, List.mem_toFinset]
    exact AList.mem_keys.mp hmem
  have hprom : ({ r with electionElapsed := r.electionElapsed + 1 } : Raft).promotable = false := hnot
  rw [Raft.tick_election (by rw [hstate]; exact nofun)]
  unfold Raft.tickElection
  simp only [hprom, Bool.false_eq_true, false_and, if_false]
  rfl

/-- A step of a node keeps its polls, and takes it into the role of a candidate only with the grants of a
majority. -/
theorem Polling.handle {h h' : Host} {e : HostEvent} (hp : Polling V net i h.node.raft)
    (hvoters : h.node.raft.prs.keys.toFinset = V) (hlearner : h.node.raft.isLearner = false → i ∈ V)
    (hnet : ∀ m ∈ net, m.GrantOf V)
    (hreg : ∀ c, e.cause = some c → c ≠ .tick → (∀ m, e = .step m → m.isLocalMsg = false) →
      c.Regular V net i h.node.raft)
    (hh : h.handle e = .ok h') : Polling V net i h'.node.raft ∧
      (h'.node.raft.state = .candidate ∨ h'.node.raft.state = .leader →
        (h.node.raft.state = .candidate ∨ h.node.raft.state = .leader) ∧
          h'.node.raft.term = h.node.raft.term ∨ PreVoted V net i h'.node.raft.term) := by
  by_cases htick : e = .tick ∧ i ∉ V
  · -- A node that is no voter follows, and goes on doing so.
    obtain ⟨rfl, hi⟩ := htick
    have hstate : h.node.raft.state = .follower := by
      by_contra hne
      exact hi (hp.voter hne)
    unfold Host.handle RawNode.tick at hh
    rw [Raft.tick_of_not_voter hstate hp.id hvoters hi] at hh
    cases hh
    exact ⟨⟨hp.id, hp.preVote, hp.votes, hp.voter, hp.msgs⟩, fun hst => Or.inl ⟨hst, rfl⟩⟩
  by_cases hlocal : ∃ m, e = .step m ∧ m.isLocalMsg = true
  · -- Such a message is rejected.
    obtain ⟨m, rfl, hm⟩ := hlocal
    unfold Host.handle RawNode.step at hh
    simp only [hm, if_true] at hh
    cases hh
    exact ⟨hp, fun hst => Or.inl ⟨hst, rfl⟩⟩
  have hnotLocal : ∀ m, e = .step m → m.isLocalMsg = false := fun m hm => by
    cases hl : m.isLocalMsg with
    | true => exact absurd ⟨m, hm, hl⟩ hlocal
    | false => rfl
  cases Host.handled hh with
  | moved hc hmoves =>
    rename_i c n
    have hc' : c.Regular V net i h.node.raft := by
      by_cases hct : c = .tick
      · subst hct
        have he : e = .tick := by cases e <;> cases hc; rfl
        by_contra hi
        exact htick ⟨he, hi⟩
      · exact hreg c hc hct hnotLocal
    have hsince := (hp.since hvoters hlearner c).course hc' hnet hmoves
    exact ⟨hsince.toPolling, hsince.entered⟩
  | ready hnone hn =>
    obtain ⟨-, -, -, -, -, size, rfl⟩ := RawNode.ready_eq hn
    exact ⟨⟨hp.id, hp.preVote, hp.votes, hp.voter, nofun⟩, fun hst => Or.inl ⟨hst, rfl⟩⟩
  | _ => exact ⟨⟨hp.id, hp.preVote, hp.votes, hp.voter, hp.msgs⟩, fun hst => Or.inl ⟨hst, rfl⟩⟩

/-- The polls of a node when more was sent. -/
theorem Polling.mono (h : Polling V net i r) (hnet : net ⊆ net') : Polling V net' i r :=
  ⟨h.id, h.preVote, fun hst y hy => (h.votes hst y hy).imp_right fun hg => ⟨hg.1, hg.2.mono hnet⟩,
    h.voter, h.msgs⟩

/-! ## The start of a node -/

/-- The configurations of the nodes of a fleet that polls before elections. -/
def PollsAs (i : ℕ) (c : Config) : Prop := c.id = i ∧ c.preVote = true

/-- A node that follows has no poll. -/
theorem Polling.of_follower (hid : r.id = i) (hpre : r.preVote = true) (hstate : r.state = .follower)
    (hmsgs : r.msgs = []) : Polling V net i r := by
  refine ⟨hid, hpre, fun h => ?_, fun h => absurd hstate h, fun m hm => ?_⟩
  · rw [hstate] at h
    cases h
  · rw [hmsgs] at hm
    cases hm

/-- A node that has just started follows, and has no poll. -/
theorem Host.Built.polling {h : Host} {cfg : Config} (hb : Host.Built cfg h) (hcfg : PollsAs i cfg) :
    Polling V [] i h.node.raft ∧ h.node.raft.state = .follower := by
  refine hb.holds (P := fun r => Polling V [] i r ∧ r.state = .follower) ?_ ?_ ?_
  · intro r t lead hid hpre hmsgs
    have hf := Raft.idle_becomeFollower hid hpre hmsgs t lead
    exact ⟨Polling.of_follower (hf.id.trans hcfg.1) (hf.preVote.trans hcfg.2) hf.state hf.msgs, hf.state⟩
  · intro r l hr
    exact ⟨⟨hr.1.id, hr.1.preVote, hr.1.votes, hr.1.voter, hr.1.msgs⟩, hr.2⟩
  · -- Adding a peer is a change of the membership.
    intro r id hr
    refine (Raft.steady_addNodeOrLearner id false).mono fun r₂ h₂ => ?_
    have hsince : PollingSince V [] i .confChange r r :=
      ⟨hr.1, fun hkeeps => absurd rfl hkeeps.1, fun hst => Or.inl ⟨hst, rfl⟩,
        fun _ hst => ⟨hst, rfl, fun _ _ hy => hy⟩⟩
    exact ⟨(hsince.course trivial nofun h₂.moves).toPolling, h₂.state.trans hr.2⟩

/-! ## Runs of a fleet -/

namespace FleetEvent

/-- A node counts a stray grant in its poll, or is asked to campaign without being a voter. -/
def Strays (V : Finset ℕ) (F : Fleet) : FleetEvent → Prop
  | .deliver m => (F.raft m.toId).StrayGrant m
  | .act i (.call m) => m.type = .msgHup ∧ i ∉ V
  | _ => False

instance (V : Finset ℕ) (F : Fleet) (e : FleetEvent) : Decidable (e.Strays V F) :=
  match e with
  | .deliver m => inferInstanceAs (Decidable ((F.raft m.toId).StrayGrant m))
  | .act i (.call m) => inferInstanceAs (Decidable (m.type = .msgHup ∧ i ∉ V))
  | .act _ (.step _) | .act _ .tick | .act _ (.applyConfChange _) | .act _ .ready | .act _ .persist
  | .act _ .advance | .act _ (.createSnapshot _ _ _) | .act _ (.compact _) | .restart _ _ =>
    .isFalse fun h => h

/-- A node is told to take over the leadership. -/
def Transfers : FleetEvent → Prop
  | .deliver m => m.type = .msgTimeoutNow
  | _ => False

instance (e : FleetEvent) : Decidable e.Transfers :=
  match e with
  | .deliver m => inferInstanceAs (Decidable (m.type = .msgTimeoutNow))
  | .act _ _ | .restart _ _ => .isFalse fun h => h

end FleetEvent

namespace Fleet

variable {members : Finset ℕ} {F F' : Fleet} {e : FleetEvent}

/-- A step takes a node into a term as a candidate, and perhaps on as the leader. -/
def Campaigns (t : Turn Fleet FleetEvent) (i : ℕ) : Prop :=
  ((t.after.raft i).state = .candidate ∨ (t.after.raft i).state = .leader) ∧
    ¬(((t.before.raft i).state = .candidate ∨ (t.before.raft i).state = .leader) ∧
      (t.after.raft i).term = (t.before.raft i).term)

instance (t : Turn Fleet FleetEvent) (i : ℕ) : Decidable (Campaigns t i) :=
  inferInstanceAs (Decidable ((_ ∨ _) ∧ ¬((_ ∨ _) ∧ _)))

/-- No node enters a term as a candidate without the grants of a majority for this term. -/
def Guarded (members V : Finset ℕ) (t : Turn Fleet FleetEvent) : Prop :=
  ∀ i ∈ members, Campaigns t i → PreVoted V t.before.net i (t.after.raft i).term

instance (members V : Finset ℕ) (t : Turn Fleet FleetEvent) : Decidable (Guarded members V t) :=
  inferInstanceAs (Decidable (∀ i ∈ members, Campaigns t i → PreVoted V _ i _))

/-- The nodes of a fleet count in their polls what was granted for them. -/
structure Polls (members V : Finset ℕ) (F : Fleet) : Prop where
  /-- The nodes. -/
  hosts : ∀ i ∈ members, Polling V F.net i (F.raft i)
  /-- The grants that were sent. -/
  net : ∀ m ∈ F.net, m.GrantOf V

/-- An event that can happen and is not stray makes its node act on something regular. -/
theorem regular_of_enabled {config : ℕ → Config → Prop} (hen : Enabled members config F e)
    (htransfer : ¬e.Transfers) (hstray : ¬e.Strays V F) {e' : HostEvent} (he : e.atNode = some e')
    (hc : e'.cause = some c) (hne : c ≠ .tick) (hlocal : ∀ m, e' = .step m → m.isLocalMsg = false) :
    c.Regular V F.net e.node (F.raft e.node) := by
  cases e with
  | act i e₁ =>
    cases he
    cases e' with
    | call m =>
      cases hc
      have htype : HostEvent.isCallType m.type = true := hen.2.2
      refine ⟨fun h => ?_, fun h => ?_, fun h => ?_⟩
      · rw [h] at htype
        cases htype
      · by_contra hi
        exact hstray ⟨h, hi⟩
      · rcases h with h | h <;> rw [h] at htype <;> cases htype
    | tick =>
      cases hc
      exact absurd rfl hne
    | applyConfChange cc =>
      cases hc
      exact trivial
    | step m => exact absurd hen.2 id
    | _ => cases hc
  | deliver m =>
    cases he
    cases hc
    refine ⟨htransfer, fun h => ?_, fun _ => ⟨hen.2, rfl, hstray⟩⟩
    have hl := hlocal m rfl
    unfold Message.isLocalMsg at hl
    rw [h] at hl
    cases hl
  | restart i h => cases he

/-- A step keeps the polls of the fleet, and takes a node into a term as a candidate only with the grants
of a majority. -/
theorem Polls.handle (h : F.Polls members V) (hen : Enabled members PollsAs F e)
    (hvoters : F.HasVoters members V) (htransfer : ¬e.Transfers) (hstray : ¬e.Strays V F)
    (hh : F.handle e = .ok F') : F'.Polls members V ∧ Guarded members V ⟨F, e, F'⟩ := by
  rcases handle_cases hh with ⟨e', h', he, hh', rfl⟩ | ⟨j, h', rfl, rfl⟩
  · have hnode : e.node ∈ members := by
      cases e with
      | act i e₁ | deliver m | restart i h₁ => exact hen.1
    obtain ⟨hV, hl⟩ := hvoters e.node hnode
    obtain ⟨hpolling, hentered⟩ := (h.hosts e.node hnode).handle hV hl h.net
      (fun c hc hne hlocal => regular_of_enabled hen htransfer hstray he hc hne hlocal) hh'
    have hsent : ∀ m ∈ Host.handedMsgs ⟨F.hosts e.node, e', h'⟩, m.GrantOf V := fun m hm =>
      (h.hosts e.node hnode).msgs m (Host.handedMsgs_subset hh' hm)
    refine ⟨⟨fun i hi => ?_, fun m hm => ?_⟩, fun i hi hcamp => ?_⟩
    · show Polling V _ i (Function.update F.hosts e.node h' i).node.raft
      by_cases hie : i = e.node
      · rw [hie, Function.update_self]
        exact hpolling.mono (List.subset_append_left _ _)
      · rw [Function.update_of_ne hie]
        exact (h.hosts i hi).mono (List.subset_append_left _ _)
    · rcases List.mem_append.mp hm with hm | hm
      · exact h.net m hm
      · exact hsent m hm
    · unfold Campaigns raft at hcamp
      unfold raft
      dsimp only at hcamp ⊢
      by_cases hie : i = e.node
      · rw [hie, Function.update_self] at hcamp
        rw [hie, Function.update_self]
        exact (hentered hcamp.1).resolve_left hcamp.2
      · rw [Function.update_of_ne hie] at hcamp
        exact absurd ⟨hcamp.1, rfl⟩ hcamp.2
  · -- A node that has just started follows.
    obtain ⟨hj, c, hc, hb⟩ := hen
    obtain ⟨hnew, hfollow⟩ := hb.polling (V := V) hc
    have hnew : Polling V F.net j h'.node.raft := hnew.mono (List.nil_subset _)
    refine ⟨⟨fun i hi => ?_, h.net⟩, fun i hi hcamp => ?_⟩
    · show Polling V _ i (Function.update F.hosts j h' i).node.raft
      by_cases hij : i = j
      · rw [hij, Function.update_self]
        exact hnew
      · rw [Function.update_of_ne hij]
        exact h.hosts i hi
    · unfold Campaigns raft at hcamp
      dsimp only at hcamp
      by_cases hij : i = j
      · rw [hij, Function.update_self, hfollow] at hcamp
        rcases hcamp.1 with hst | hst <;> cases hst
      · rw [Function.update_of_ne hij] at hcamp
        exact absurd ⟨hcamp.1, rfl⟩ hcamp.2

/-- A fleet whose members have just started has no poll. -/
theorem Started.polls (h : F.Started members PollsAs) : F.Polls members V := by
  refine ⟨fun i hi => ?_, fun m hm => ?_⟩
  · obtain ⟨c, hc, hb⟩ := h.hosts i hi
    exact (hb.polling hc).1.mono (List.nil_subset _)
  · rw [h.net] at hm
    cases hm

end Fleet

/-- The guard of pre-votes: in a run of nodes that poll before elections, with a fixed set of voters and
without transfers of the leadership, no node enters a term as a candidate without the grants of a majority
for this term, as long as no stray grant is counted in a poll and only voters are asked to campaign. -/
theorem prevote_guards {members V : Finset ℕ} {F₀ F : Fleet} {ts : List (Turn Fleet FleetEvent)}
    (hstart : F₀.Started members PollsAs) (hrun : Fleet.Run members PollsAs F₀ ts F)
    (hvoters : ∀ t ∈ ts, t.before.HasVoters members V) (htransfer : ∀ t ∈ ts, ¬t.event.Transfers)
    (hstray : ∀ t ∈ ts, ¬t.event.Strays V t.before) :
    ∀ t ∈ ts, Fleet.Guarded members V t := by
  have hpolls := (hrun.trace.invariant (P := Fleet.Polls members V)
    (Q := fun t => t ∈ ts) (fun t ht hmem h => (h.handle (hrun.enabled t hmem) (hvoters t hmem)
      (htransfer t hmem) (hstray t hmem) ht).1) (fun t ht => ht) hstart.polls).1
  intro t ht
  exact ((hpolls t ht).handle (hrun.enabled t ht) (hvoters t ht) (htransfer t ht) (hstray t ht)
    (hrun.trace.step_mem ht)).2

/-! ## Three voters -/

/-- The parameters of three voters that poll before elections. -/
def pollingConfig (i : ℕ) : Config := { voterConfig with id := i, preVote := true }

/-- The three voters when they start. -/
def pollingTrio : Fleet where
  hosts i := Host.started (pollingConfig i)

/-- They have just started. -/
theorem pollingTrio_started : pollingTrio.Started {1, 2, 3} PollsAs where
  net := rfl
  hosts i hi := by
    refine ⟨pollingConfig i, ⟨rfl, rfl⟩, Host.boot_built (Host.boot_started ?_)⟩
    revert i
    decide +kernel

/-- The first voter polls, is granted a pre-vote by the third one, and campaigns. -/
def pollsAndCampaigns : List (Fleet → FleetEvent) :=
  Fleet.asks 1 :: Fleet.round 1 ++ Fleet.delivers 0 :: Fleet.round 3 ++
    Fleet.delivers 2 :: Fleet.round 1

/-- The run of the three voters. -/
def polledTrio : List (Turn Fleet FleetEvent) × Fleet :=
  Trace.play Fleet.handle pollingTrio pollsAndCampaigns

/-- The events of a script are those of a run. -/
theorem pollingTrio_run {fs : List (Fleet → FleetEvent)}
    (h : ∀ t ∈ (Trace.play Fleet.handle pollingTrio fs).1, Fleet.IsPlay {1, 2, 3} t.before t.event) :
    Fleet.Run {1, 2, 3} PollsAs pollingTrio (Trace.play Fleet.handle pollingTrio fs).1
      (Trace.play Fleet.handle pollingTrio fs).2 :=
  ⟨Trace.of_play _ _ _, fun t ht => (h t ht).enabled⟩

/-- The guard holds. -/
theorem prevote_guards_polledTrio : polledTrio.1.length = 12 ∧
    ∀ t ∈ polledTrio.1, Fleet.Guarded {1, 2, 3} {1, 2, 3} t :=
  ⟨by decide +kernel, prevote_guards pollingTrio_started (pollingTrio_run (by decide +kernel))
    (by decide +kernel) (by decide +kernel) (by decide +kernel)⟩

/-- The first voter polls again, and the third one's vote for it in the election before arrives. -/
def lateVote : List (Turn Fleet FleetEvent) × Fleet :=
  Trace.play Fleet.handle pollingTrio
    (pollsAndCampaigns ++ Fleet.delivers 3 :: Fleet.round 3 ++ [Fleet.asks 1, Fleet.delivers 5])

/-- The first voter enters the second term without a grant for it. -/
theorem unguarded_lateVote : ¬ ∀ (members V : Finset ℕ) (F₀ F : Fleet)
    (ts : List (Turn Fleet FleetEvent)), F₀.Started members PollsAs →
    Fleet.Run members PollsAs F₀ ts F → (∀ t ∈ ts, t.before.HasVoters members V) →
    (∀ t ∈ ts, ¬t.event.Transfers) → ∀ t ∈ ts, Fleet.Guarded members V t := by
  intro hall
  have hguarded := hall {1, 2, 3} {1, 2, 3} _ lateVote.2 lateVote.1 pollingTrio_started
    (pollingTrio_run (by decide +kernel)) (by decide +kernel) (by decide +kernel)
  exact absurd hguarded (by decide +kernel)

end RaftCpp
