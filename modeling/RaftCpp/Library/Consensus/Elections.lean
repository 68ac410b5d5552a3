import Mathlib.Tactic.SplitIfs
import RaftCpp.Library.Consensus.Protocol

/-!
# Elections

A vote is given once in a term, and two quorums share a voter, so that a term has at most one leader.
`Elections` is the invariant behind it: what it means to have voted, to be a candidate, and to be a
leader.
-/

namespace Consensus

variable {α ε : Type*} [DecidableEq α] (S : Setting α ε)

open Function (update update_apply)

/-- The invariant on votes and leaders. -/
structure Elections (s : State α ε) : Prop where
  /-- No node is in a term before the first. -/
  term_start : ∀ x, S.startTerm ≤ s.term x
  /-- A vote is for a term after the first, which its voter has reached. -/
  grant_term : ∀ x u c, s.grant x u = some c → S.startTerm < u ∧ u ≤ s.term x
  /-- Who gets a vote has voted for itself. -/
  grant_self : ∀ x u c, s.grant x u = some c → s.grant c u = some c
  /-- Who gets a vote has a log that is as up to date as the voter's. -/
  grant_log : ∀ x u c, s.grant x u = some c →
    UpToDate S.termOf (s.grantLog c u) (s.grantLog x u)
  /-- A candidate starts with entries of earlier terms. -/
  candidate_log : ∀ c u n, s.grant c u = some c → termAt S.termOf (s.grantLog c u) n < u
  /-- A leader was voted for by a quorum. -/
  leader_quorum : ∀ u c, s.leader u = some c → ∃ Q, S.IsQuorum Q ∧ ∀ y ∈ Q, s.grant y u = some c
  /-- A candidate has voted for itself, with the log it still has, and is not elected yet. -/
  candidate : ∀ x, s.role x = .candidate →
    s.grant x (s.term x) = some x ∧ s.grantLog x (s.term x) = s.log x ∧
      s.leader (s.term x) ≠ some x
  /-- A node that leads is the leader of its term, and its log is that of the term. -/
  leader : ∀ x, s.role x = .leader →
    s.leader (s.term x) = some x ∧ s.leaderLog (s.term x) = some (s.log x)
  /-- The first term has a log. -/
  leaderLog_start : ∃ L, s.leaderLog S.startTerm = some L
  /-- Any other term with a log had a leader. -/
  leaderLog_leader : ∀ u L, s.leaderLog u = some L → u = S.startTerm ∨ ∃ c, s.leader u = some c

namespace Elections

variable {S} {s : State α ε} (h : Elections S s)

include h

omit [DecidableEq α] in
/-- A leader voted for itself, in a term after the first. -/
theorem leader_self {u : ℕ} {c : α} (hc : s.leader u = some c) :
    s.grant c u = some c ∧ S.startTerm < u ∧ u ≤ s.term c := by
  obtain ⟨Q, hQ, hgrant⟩ := h.leader_quorum u c hc
  obtain ⟨y, hy⟩ := S.nonempty hQ
  have hself := h.grant_self y u c (hgrant y hy)
  exact ⟨hself, h.grant_term c u c hself⟩

omit [DecidableEq α] in
/-- Nobody but the leader has the votes of a quorum. -/
theorem leader_eq_of_quorum {u : ℕ} {c x : α} (hc : s.leader u = some c) {Q : Set α}
    (hQ : S.IsQuorum Q) (hx : ∀ y ∈ Q, s.grant y u = some x) : c = x := by
  obtain ⟨Q', hQ', hgrant⟩ := h.leader_quorum u c hc
  obtain ⟨y, hy, hy'⟩ := S.inter hQ hQ'
  have h1 := hx y hy
  rw [hgrant y hy'] at h1
  exact Option.some.inj h1

omit [DecidableEq α] in
/-- A candidate with the votes of a quorum is the first leader of its term. -/
theorem no_leader_of_quorum {x : α} (hrole : s.role x = .candidate) {Q : Set α}
    (hQ : S.IsQuorum Q) (hx : ∀ y ∈ Q, s.grant y (s.term x) = some x) :
    s.leader (s.term x) = none ∧ s.leaderLog (s.term x) = none := by
  obtain ⟨hself, -, hne⟩ := h.candidate x hrole
  have hleader : s.leader (s.term x) = none := by
    cases hc : s.leader (s.term x) with
    | none => rfl
    | some c =>
      rw [h.leader_eq_of_quorum hc hQ hx] at hc
      exact absurd hc hne
  refine ⟨hleader, ?_⟩
  cases hL : s.leaderLog (s.term x) with
  | none => rfl
  | some L =>
    rcases h.leaderLog_leader _ L hL with hstart | ⟨c, hc⟩
    · have := (h.grant_term x _ x hself).1
      omega
    · rw [hleader] at hc
      cases hc

omit [DecidableEq α] in
/-- A leader of a term left every earlier term behind at a quorum. -/
theorem leader_term {u : ℕ} {c : α} (hc : s.leader u = some c) :
    ∃ Q, S.IsQuorum Q ∧ ∀ y ∈ Q, u ≤ s.term y := by
  obtain ⟨Q, hQ, hgrant⟩ := h.leader_quorum u c hc
  exact ⟨Q, hQ, fun y hy => (h.grant_term y u c (hgrant y hy)).2⟩

omit h in
/-- Adopting a term extends the history. -/
theorem le_adopt {x : α} {t : ℕ} (ht : s.term x < t) : Le s (s.adopt x t) where
  term y := by
    simp only [State.adopt, update_apply]
    split_ifs with hy
    · subst hy
      omega
    · exact Nat.le_refl _
  grant _ _ _ hc := hc
  grantLog _ _ _ _ := rfl
  leader _ _ hc := hc
  leaderLog _ L hL := ⟨L, hL, List.prefix_rfl⟩
  ack _ _ := Nat.le_refl _
  ack_final _ _ _ := rfl

/-- Campaigning extends the history: the node has not voted in the next term. -/
theorem le_campaign (x : α) : Le s (s.campaign x) := by
  have hfree : ∀ c, s.grant x (s.term x + 1) ≠ some c := fun c hc => by
    have := (h.grant_term x _ c hc).2
    omega
  refine ⟨fun y => ?_, fun y u c hc => ?_, fun y u c hc => ?_, fun _ _ hc => hc,
    fun _ L hL => ⟨L, hL, List.prefix_rfl⟩, fun _ _ => Nat.le_refl _, fun _ _ _ => rfl⟩
  · simp only [State.campaign, update_apply]
    split_ifs with hy
    · subst hy
      omega
    · exact Nat.le_refl _
  · simp only [State.campaign, update_apply]
    split_ifs with hy
    · subst hy
      have hu : u ≠ s.term y + 1 := fun hu => hfree c (hu ▸ hc)
      rw [update_apply, if_neg hu]
      exact hc
    · exact hc
  · simp only [State.campaign, update_apply]
    split_ifs with hy
    · subst hy
      have hu : u ≠ s.term y + 1 := fun hu => hfree c (hu ▸ hc)
      rw [update_apply, if_neg hu]
    · rfl

omit h in
/-- Voting extends the history, when the node has not voted in its term. -/
theorem le_grantVote {x c : α} (hfree : s.grant x (s.term x) = none) : Le s (s.grantVote x c) := by
  refine ⟨fun _ => Nat.le_refl _, fun y u c' hc => ?_, fun y u c' hc => ?_, fun _ _ hc => hc,
    fun _ L hL => ⟨L, hL, List.prefix_rfl⟩, fun _ _ => Nat.le_refl _, fun _ _ _ => rfl⟩
  · simp only [State.grantVote, update_apply]
    split_ifs with hy
    · subst hy
      have hu : u ≠ s.term y := by
        rintro rfl
        rw [hfree] at hc
        cases hc
      rw [update_apply, if_neg hu]
      exact hc
    · exact hc
  · simp only [State.grantVote, update_apply]
    split_ifs with hy
    · subst hy
      have hu : u ≠ s.term y := by
        rintro rfl
        rw [hfree] at hc
        cases hc
      rw [update_apply, if_neg hu]
    · rfl

/-- Becoming leader extends the history, when the candidate has the votes of a quorum. -/
theorem le_elect {x : α} (hrole : s.role x = .candidate) {Q : Set α} (hQ : S.IsQuorum Q)
    (hx : ∀ y ∈ Q, s.grant y (s.term x) = some x) (hack : s.ack x (s.term x) ≤ (s.log x).length) :
    Le s (s.elect x) := by
  obtain ⟨hleader, hlog⟩ := h.no_leader_of_quorum hrole hQ hx
  refine ⟨fun _ => Nat.le_refl _, fun _ _ _ hc => hc, fun _ _ _ _ => rfl, fun u c hc => ?_,
    fun u L hL => ⟨L, ?_, List.prefix_rfl⟩, fun y t => ?_, fun y t ht => ?_⟩
  · have hu : u ≠ s.term x := by
      rintro rfl
      rw [hleader] at hc
      cases hc
    simp only [State.elect, update_apply, if_neg hu]
    exact hc
  · have hu : u ≠ s.term x := by
      rintro rfl
      rw [hlog] at hL
      cases hL
    simp only [State.elect, update_apply, if_neg hu]
    exact hL
  · simp only [State.elect, update_apply]
    split_ifs with hy
    · subst hy
      rw [update_apply]
      split_ifs with ht
      · subst ht
        exact hack
      · exact Nat.le_refl _
    · exact Nat.le_refl _
  · simp only [State.elect, update_apply]
    split_ifs with hy
    · subst hy
      rw [update_apply, if_neg (by omega)]
    · rfl

/-- Appending to the leader's log extends the history. -/
theorem le_extend {x : α} (hrole : s.role x = .leader) (es : List ε)
    (hack : s.ack x (s.term x) ≤ (s.log x).length) : Le s (s.extend x es) := by
  obtain ⟨-, hlog⟩ := h.leader x hrole
  refine ⟨fun _ => Nat.le_refl _, fun _ _ _ hc => hc, fun _ _ _ _ => rfl, fun _ _ hc => hc,
    fun u L hL => ?_, fun y t => ?_, fun y t ht => ?_⟩
  · simp only [State.extend, update_apply]
    split_ifs with hu
    · subst hu
      rw [hlog] at hL
      cases hL
      exact ⟨_, rfl, List.prefix_append _ _⟩
    · exact ⟨L, hL, List.prefix_rfl⟩
  · simp only [State.extend, update_apply]
    split_ifs with hy
    · subst hy
      rw [update_apply]
      split_ifs with ht
      · subst ht
        rw [List.length_append]
        omega
      · exact Nat.le_refl _
    · exact Nat.le_refl _
  · simp only [State.extend, update_apply]
    split_ifs with hy
    · subst hy
      rw [update_apply, if_neg (by omega)]
    · rfl

omit h in
/-- Taking over the leader's log extends the history. -/
theorem le_accept (x : α) (m : ℕ) (l : List ε) : Le s (s.accept x m l) := by
  refine ⟨fun _ => Nat.le_refl _, fun _ _ _ hc => hc, fun _ _ _ _ => rfl, fun _ _ hc => hc,
    fun _ L hL => ⟨L, hL, List.prefix_rfl⟩, fun y t => ?_, fun y t ht => ?_⟩
  · simp only [State.accept, update_apply]
    split_ifs with hy
    · subst hy
      rw [update_apply]
      split_ifs with ht
      · subst ht
        exact Nat.le_max_left _ _
      · exact Nat.le_refl _
    · exact Nat.le_refl _
  · simp only [State.accept, update_apply]
    split_ifs with hy
    · subst hy
      rw [update_apply, if_neg (by omega)]
    · rfl

/-! ## Preservation -/

omit h in
omit [DecidableEq α] in
/-- The invariant holds at the start. -/
theorem init (hi : Initial S s) : Elections S s where
  term_start x := by rw [hi.term x]
  grant_term x u c hc := by rw [hi.grant] at hc; cases hc
  grant_self x u c hc := by rw [hi.grant] at hc; cases hc
  grant_log x u c hc := by rw [hi.grant] at hc; cases hc
  candidate_log c u n hc := by rw [hi.grant] at hc; cases hc
  leader_quorum u c hc := by rw [hi.leader] at hc; cases hc
  candidate x hx := by rw [hi.role] at hx; cases hx
  leader x hx := by rw [hi.role] at hx; cases hx
  leaderLog_start := ⟨_, hi.leaderLog_start⟩
  leaderLog_leader u L hL := by
    by_cases hu : u = S.startTerm
    · exact Or.inl hu
    · rw [hi.leaderLog u hu] at hL
      cases hL

/-- Adopting a higher term keeps the invariant. -/
theorem adopt {x : α} {t : ℕ} (ht : s.term x < t) : Elections S (s.adopt x t) where
  term_start y := (h.term_start y).trans ((le_adopt ht).term y)
  grant_term y u c hc :=
    ⟨(h.grant_term y u c hc).1, (h.grant_term y u c hc).2.trans ((le_adopt ht).term y)⟩
  grant_self := h.grant_self
  grant_log := h.grant_log
  candidate_log := h.candidate_log
  leader_quorum := h.leader_quorum
  candidate y hy := by
    by_cases hyx : y = x
    · simp [State.adopt, hyx] at hy
    · simp only [State.adopt, update_apply, if_neg hyx] at hy ⊢
      exact h.candidate y hy
  leader y hy := by
    by_cases hyx : y = x
    · simp [State.adopt, hyx] at hy
    · simp only [State.adopt, update_apply, if_neg hyx] at hy ⊢
      exact h.leader y hy
  leaderLog_start := h.leaderLog_start
  leaderLog_leader := h.leaderLog_leader

/-- Giving up a role keeps the invariant. -/
theorem stepDown (x : α) : Elections S (s.stepDown x) where
  term_start := h.term_start
  grant_term := h.grant_term
  grant_self := h.grant_self
  grant_log := h.grant_log
  candidate_log := h.candidate_log
  leader_quorum := h.leader_quorum
  candidate y hy := by
    by_cases hyx : y = x
    · simp [State.stepDown, hyx] at hy
    · simp only [State.stepDown, update_apply, if_neg hyx] at hy
      exact h.candidate y hy
  leader y hy := by
    by_cases hyx : y = x
    · simp [State.stepDown, hyx] at hy
    · simp only [State.stepDown, update_apply, if_neg hyx] at hy
      exact h.leader y hy
  leaderLog_start := h.leaderLog_start
  leaderLog_leader := h.leaderLog_leader

omit h in
/-- The votes after a campaign. -/
theorem grant_campaign (x y : α) (u : ℕ) :
    (s.campaign x).grant y u =
      if y = x ∧ u = s.term x + 1 then some x else s.grant y u := by
  simp only [State.campaign, update_apply]
  split_ifs with h1 h2 h2
  · subst h1
    rw [update_apply, if_pos h2.2]
  · subst h1
    rw [update_apply, if_neg (fun hu => h2 ⟨rfl, hu⟩)]
  · exact absurd h2.1 h1
  · rfl

omit h in
/-- The logs at the votes after a campaign. -/
theorem grantLog_campaign (x y : α) (u : ℕ) :
    (s.campaign x).grantLog y u =
      if y = x ∧ u = s.term x + 1 then s.log x else s.grantLog y u := by
  simp only [State.campaign, update_apply]
  split_ifs with h1 h2 h2
  · subst h1
    rw [update_apply, if_pos h2.2]
  · subst h1
    rw [update_apply, if_neg (fun hu => h2 ⟨rfl, hu⟩)]
  · exact absurd h2.1 h1
  · rfl

/-- Campaigning keeps the invariant, when the log has no entries of a later term. -/
theorem campaign (x : α) (hlog : ∀ n, termAt S.termOf (s.log x) n ≤ s.term x) :
    Elections S (s.campaign x) := by
  have hle := h.le_campaign x
  have hfree : ∀ y, s.grant y (s.term x + 1) ≠ some x := fun y hy => by
    have := (h.grant_term x _ x (h.grant_self y _ x hy)).2
    omega
  have hstart := h.term_start x
  have hterm : (s.campaign x).term x = s.term x + 1 := by simp [State.campaign]
  refine ⟨fun y => (h.term_start y).trans (hle.term y), fun y u c hc => ?_, fun y u c hc => ?_,
    fun y u c hc => ?_, fun c u n hc => ?_, fun u c hc => ?_, fun y hy => ?_, fun y hy => ?_,
    h.leaderLog_start, h.leaderLog_leader⟩
  · rw [grant_campaign] at hc
    split_ifs at hc with hnew
    · obtain ⟨rfl, rfl⟩ := hnew
      rw [hterm]
      exact ⟨by omega, Nat.le_refl _⟩
    · have := h.grant_term y u c hc
      exact ⟨this.1, this.2.trans (hle.term y)⟩
  · rw [grant_campaign] at hc
    split_ifs at hc with hnew
    · obtain ⟨rfl, rfl⟩ := hnew
      cases hc
      rw [grant_campaign, if_pos ⟨rfl, rfl⟩]
    · exact hle.grant c u c (h.grant_self y u c hc)
  · rw [grant_campaign] at hc
    split_ifs at hc with hnew
    · obtain ⟨rfl, rfl⟩ := hnew
      cases hc
      exact UpToDate.refl _
    · rw [hle.grantLog y u c hc, hle.grantLog c u c (h.grant_self y u c hc)]
      exact h.grant_log y u c hc
  · rw [grant_campaign] at hc
    rw [grantLog_campaign]
    split_ifs at hc ⊢ with hnew
    · obtain ⟨rfl, rfl⟩ := hnew
      have := hlog n
      omega
    · exact h.candidate_log c u n hc
  · obtain ⟨Q, hQ, hgrant⟩ := h.leader_quorum u c hc
    exact ⟨Q, hQ, fun y hy => hle.grant y u c (hgrant y hy)⟩
  · by_cases hyx : y = x
    · subst hyx
      rw [hterm, grant_campaign, if_pos ⟨rfl, rfl⟩, grantLog_campaign, if_pos ⟨rfl, rfl⟩]
      refine ⟨rfl, rfl, fun hc => ?_⟩
      exact hfree y (h.leader_self hc).1
    · have hy' : s.role y = .candidate := by
        simpa [State.campaign, update_apply, hyx] using hy
      have hterm' : (s.campaign x).term y = s.term y := by
        simp [State.campaign, hyx]
      rw [hterm', grant_campaign, if_neg (fun hn => hyx hn.1), grantLog_campaign,
        if_neg (fun hn => hyx hn.1)]
      exact h.candidate y hy'
  · by_cases hyx : y = x
    · simp [State.campaign, hyx] at hy
    · simp only [State.campaign, update_apply, if_neg hyx] at hy ⊢
      exact h.leader y hy

omit h in
/-- The votes after a vote. -/
theorem grant_grantVote (x c y : α) (u : ℕ) :
    (s.grantVote x c).grant y u = if y = x ∧ u = s.term x then some c else s.grant y u := by
  simp only [State.grantVote, update_apply]
  split_ifs with h1 h2 h2
  · subst h1
    rw [update_apply, if_pos h2.2]
  · subst h1
    rw [update_apply, if_neg (fun hu => h2 ⟨rfl, hu⟩)]
  · exact absurd h2.1 h1
  · rfl

omit h in
/-- The logs at the votes after a vote. -/
theorem grantLog_grantVote (x c y : α) (u : ℕ) :
    (s.grantVote x c).grantLog y u =
      if y = x ∧ u = s.term x then s.log x else s.grantLog y u := by
  simp only [State.grantVote, update_apply]
  split_ifs with h1 h2 h2
  · subst h1
    rw [update_apply, if_pos h2.2]
  · subst h1
    rw [update_apply, if_neg (fun hu => h2 ⟨rfl, hu⟩)]
  · exact absurd h2.1 h1
  · rfl

/-- Voting for a candidate of the term keeps the invariant. -/
theorem grantVote {x c : α} (hfree : s.grant x (s.term x) = none)
    (hcand : s.grant c (s.term x) = some c)
    (hlog : UpToDate S.termOf (s.grantLog c (s.term x)) (s.log x)) :
    Elections S (s.grantVote x c) := by
  have hle : Le s (s.grantVote x c) := le_grantVote hfree
  have hcx : c ≠ x := by
    rintro rfl
    rw [hfree] at hcand
    cases hcand
  refine ⟨h.term_start, fun y u c' hc => ?_, fun y u c' hc => ?_, fun y u c' hc => ?_,
    fun c' u n hc => ?_, fun u c' hc => ?_, fun y hy => ?_, h.leader, h.leaderLog_start,
    h.leaderLog_leader⟩
  · rw [grant_grantVote] at hc
    split_ifs at hc with hnew
    · obtain ⟨rfl, rfl⟩ := hnew
      exact ⟨(h.grant_term c _ c hcand).1, Nat.le_refl _⟩
    · exact h.grant_term y u c' hc
  · rw [grant_grantVote] at hc
    split_ifs at hc with hnew
    · obtain ⟨rfl, rfl⟩ := hnew
      cases hc
      exact hle.grant c _ c hcand
    · exact hle.grant c' u c' (h.grant_self y u c' hc)
  · rw [grant_grantVote] at hc
    split_ifs at hc with hnew
    · obtain ⟨rfl, rfl⟩ := hnew
      cases hc
      rw [hle.grantLog c _ c hcand, grantLog_grantVote, if_pos ⟨rfl, rfl⟩]
      exact hlog
    · rw [hle.grantLog y u c' hc, hle.grantLog c' u c' (h.grant_self y u c' hc)]
      exact h.grant_log y u c' hc
  · rw [grant_grantVote] at hc
    split_ifs at hc with hnew
    · obtain ⟨rfl, -⟩ := hnew
      exact absurd (Option.some.inj hc) hcx
    · rw [grantLog_grantVote, if_neg hnew]
      exact h.candidate_log c' u n hc
  · obtain ⟨Q, hQ, hgrant⟩ := h.leader_quorum u c' hc
    exact ⟨Q, hQ, fun y hy => hle.grant y u c' (hgrant y hy)⟩
  · obtain ⟨hself, hlog', hne⟩ := h.candidate y hy
    exact ⟨hle.grant y _ y hself, (hle.grantLog y _ y hself).trans hlog', hne⟩

/-- Becoming leader with the votes of a quorum keeps the invariant. -/
theorem elect {x : α} (hrole : s.role x = .candidate) {Q : Set α} (hQ : S.IsQuorum Q)
    (hx : ∀ y ∈ Q, s.grant y (s.term x) = some x) : Elections S (s.elect x) := by
  obtain ⟨hleader, -⟩ := h.no_leader_of_quorum hrole hQ hx
  refine ⟨h.term_start, h.grant_term, h.grant_self, h.grant_log, h.candidate_log,
    fun u c hc => ?_, fun y hy => ?_, fun y hy => ?_, ?_, fun u L hL => ?_⟩
  · simp only [State.elect, update_apply] at hc
    split_ifs at hc with hu
    · cases hc
      exact ⟨Q, hQ, fun y hy => hu ▸ hx y hy⟩
    · exact h.leader_quorum u c hc
  · by_cases hyx : y = x
    · simp [State.elect, hyx] at hy
    · simp only [State.elect, update_apply, if_neg hyx] at hy ⊢
      obtain ⟨hself, hlog, hne⟩ := h.candidate y hy
      refine ⟨hself, hlog, ?_⟩
      split_ifs with hu
      · exact fun he => hyx (Option.some.inj he).symm
      · exact hne
  · by_cases hyx : y = x
    · subst hyx
      simp [State.elect]
    · simp only [State.elect, update_apply, if_neg hyx] at hy ⊢
      obtain ⟨hl, hlog⟩ := h.leader y hy
      have hu : s.term y ≠ s.term x := by
        intro hu
        rw [hu, hleader] at hl
        cases hl
      rw [if_neg hu, if_neg hu]
      exact ⟨hl, hlog⟩
  · obtain ⟨L, hL⟩ := h.leaderLog_start
    simp only [State.elect, update_apply]
    split_ifs with hu
    · exact ⟨_, rfl⟩
    · exact ⟨L, hL⟩
  · simp only [State.elect, update_apply] at hL ⊢
    split_ifs at hL ⊢ with hu
    · exact Or.inr ⟨x, rfl⟩
    · exact h.leaderLog_leader u L hL

/-- Appending to the leader's log keeps the invariant. -/
theorem extend {x : α} (hrole : s.role x = .leader) (es : List ε) :
    Elections S (s.extend x es) := by
  obtain ⟨hlx, -⟩ := h.leader x hrole
  refine ⟨h.term_start, h.grant_term, h.grant_self, h.grant_log, h.candidate_log,
    h.leader_quorum, fun y hy => ?_, fun y hy => ?_, ?_, fun u L hL => ?_⟩
  · have hyx : y ≠ x := by
      rintro rfl
      rw [show s.role y = .candidate from hy] at hrole
      cases hrole
    simp only [State.extend, update_apply, if_neg hyx]
    exact h.candidate y hy
  · by_cases hyx : y = x
    · subst hyx
      exact ⟨hlx, by simp [State.extend]⟩
    · obtain ⟨hly, hlog⟩ := h.leader y hy
      have hu : s.term y ≠ s.term x := by
        intro hu
        rw [hu, hlx] at hly
        exact hyx (Option.some.inj hly).symm
      simp only [State.extend, update_apply, if_neg hyx, if_neg hu]
      exact ⟨hly, hlog⟩
  · obtain ⟨L, hL⟩ := h.leaderLog_start
    simp only [State.extend, update_apply]
    split_ifs with hu
    · exact ⟨_, rfl⟩
    · exact ⟨L, hL⟩
  · simp only [State.extend, update_apply] at hL
    split_ifs at hL with hu
    · subst hu
      exact Or.inr ⟨x, hlx⟩
    · exact h.leaderLog_leader u L hL

/-- Taking over the leader's log keeps the invariant. -/
theorem accept {x : α} (hrole : s.role x = .follower) (m : ℕ) (l : List ε) :
    Elections S (s.accept x m l) where
  term_start := h.term_start
  grant_term := h.grant_term
  grant_self := h.grant_self
  grant_log := h.grant_log
  candidate_log := h.candidate_log
  leader_quorum := h.leader_quorum
  candidate y hy := by
    have hyx : y ≠ x := by
      rintro rfl
      rw [show s.role y = .candidate from hy] at hrole
      cases hrole
    simp only [State.accept, update_apply, if_neg hyx]
    exact h.candidate y hy
  leader y hy := by
    have hyx : y ≠ x := by
      rintro rfl
      rw [show s.role y = .leader from hy] at hrole
      cases hrole
    simp only [State.accept, update_apply, if_neg hyx]
    exact h.leader y hy
  leaderLog_start := h.leaderLog_start
  leaderLog_leader := h.leaderLog_leader

/-- Moving the commit index keeps the invariant. -/
theorem advance (x : α) (k : ℕ) : Elections S (s.advance x k) :=
  ⟨h.term_start, h.grant_term, h.grant_self, h.grant_log, h.candidate_log, h.leader_quorum,
    h.candidate, h.leader, h.leaderLog_start, h.leaderLog_leader⟩

end Elections

end Consensus
