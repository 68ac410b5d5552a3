import RaftCpp.Library.Consensus.Logs

/-!
# Acknowledgements

What a node acknowledged in a term it keeps in later terms, unless the index is lost: this is why the
log of a later leader holds what a quorum acknowledged. The argument is the one at `Acks.elect`: a
quorum of voters and a quorum of acknowledgements share a node, and a candidate's log is as up to date
as the logs of its voters.
-/

namespace Consensus

variable {α ε : Type*} [DecidableEq α] (S : Setting α ε)

open Function (update update_apply)

/-- A log holds the log of the leader of a term up to an entry of that term, unless the entry is
lost. -/
def Keeps (s : State α ε) (t n : ℕ) (p : List ε) : Prop :=
  ∀ L, s.leaderLog t = some L → 1 ≤ n → n ≤ L.length → termAt S.termOf L n = t →
    L.take n <+: p ∨ Lost S s t n

/-- The invariant on acknowledgements. -/
structure Acks (s : State α ε) : Prop where
  /-- Nobody acknowledges anything in a term that it has not reached. -/
  ack_term : ∀ x t, 0 < s.ack x t → t ≤ s.term x
  /-- What is acknowledged is in the log of the leader. -/
  ack_le : ∀ x t n, 1 ≤ n → n ≤ s.ack x t → ∃ L, s.leaderLog t = some L ∧ n ≤ L.length
  /-- What a node acknowledged in its term is in its log. -/
  ack_now : ∀ x L, s.leaderLog (s.term x) = some L → L.take (s.ack x (s.term x)) <+: s.log x
  /-- A leader acknowledged its whole log. -/
  ack_leader : ∀ x, s.role x = .leader → s.ack x (s.term x) = (s.log x).length
  /-- A node keeps what it acknowledged. -/
  kept_log : ∀ x t n, n ≤ s.ack x t → Keeps S s t n (s.log x)
  /-- It had what it acknowledged before when it voted. -/
  kept_grant : ∀ x u c t n, s.grant x u = some c → t < u → n ≤ s.ack x t →
    Keeps S s t n (s.grantLog x u)
  /-- A leader has what the leaders of earlier terms had of their own terms. -/
  complete : ∀ t u n L, t < u → s.leaderLog u = some L → Keeps S s t n L

section Keeps

omit [DecidableEq α]

variable {S} {s s' : State α ε} {t n : ℕ} {p p' : List ε}

/-- What a log keeps, an extension of it keeps, when the entry was there before. -/
theorem Keeps.mono (h : Keeps S s t n p) (hle : Le s s') (hp : p <+: p')
    (hlen : 1 ≤ n → ∀ L', s'.leaderLog t = some L' → n ≤ L'.length →
      ∃ L, s.leaderLog t = some L ∧ n ≤ L.length) : Keeps S s' t n p' := by
  intro L' hL' h1 hn' hterm
  obtain ⟨L, hL, hn⟩ := hlen h1 L' hL' hn'
  obtain ⟨L'', hL'', hLL'⟩ := hle.leaderLog t L hL
  rw [hL'] at hL''
  cases hL''
  rw [← termAt_of_isPrefix hLL' hn] at hterm
  rw [take_eq_of_isPrefix hLL' hn]
  rcases h L hL h1 hn hterm with hkeep | hlost
  · exact Or.inl (hkeep.trans hp)
  · exact Or.inr (hlost.mono hle)

/-- Where the leader's log does not change, what a log keeps, it still keeps. -/
theorem Keeps.mono_of_eq (h : Keeps S s t n p) (hle : Le s s')
    (hL : s'.leaderLog t = s.leaderLog t) : Keeps S s' t n p :=
  h.mono hle List.prefix_rfl fun _ L' hL' hn => ⟨L', hL ▸ hL', hn⟩

/-- A lost entry is kept by any log. -/
theorem Keeps.of_lost (h : Lost S s t n) : Keeps S s t n p := fun _ _ _ _ _ => Or.inr h

end Keeps

namespace Acks

variable {S} {s : State α ε}

section Facts

omit [DecidableEq α]

variable (h : Acks S s)

include h

/-- Where no leader's log is, nothing is acknowledged. -/
theorem ack_eq_zero {x : α} {t : ℕ} (ht : s.leaderLog t = none) : s.ack x t = 0 := by
  by_contra hne
  obtain ⟨L, hL, -⟩ := h.ack_le x t 1 (Nat.le_refl 1) (by omega)
  rw [ht] at hL
  cases hL

/-- An acknowledgement does not go past the end of the leader's log. -/
theorem ack_le_length {x : α} {t : ℕ} {L : List ε} (hL : s.leaderLog t = some L) :
    s.ack x t ≤ L.length := by
  rcases Nat.eq_zero_or_pos (s.ack x t) with h0 | hpos
  · omega
  · obtain ⟨L', hL', hn⟩ := h.ack_le x t _ hpos (Nat.le_refl _)
    rw [hL] at hL'
    cases hL'
    exact hn

/-- In a term that a node has not reached it acknowledged nothing. -/
theorem ack_future {x : α} {t : ℕ} (ht : s.term x < t) : s.ack x t = 0 := by
  by_contra hne
  have := h.ack_term x t (by omega)
  omega

/-- What a node keeps of its acknowledgements survives a step after which its log is no shorter. -/
theorem keeps_mono {s' : State α ε} (hle : Le s s') {x : α} {t n : ℕ} (hn : n ≤ s.ack x t)
    {p p' : List ε} (hk : Keeps S s t n p) (hp : p <+: p') : Keeps S s' t n p' :=
  hk.mono hle hp fun h1 _ _ _ => h.ack_le x t n h1 hn

omit h in
/-- An index that nobody who left the term acknowledged is lost once a later term has a leader. -/
theorem lost_of_later (he : Elections S s) {t u n : ℕ} {L : List ε} (ht : S.startTerm ≤ t)
    (htu : t < u) (hL : s.leaderLog u = some L) (hack : ∀ y, t < s.term y → s.ack y t < n) :
    Lost S s t n := by
  intro Q hQ
  rcases he.leaderLog_leader u L hL with hstart | ⟨c, hc⟩
  · omega
  · obtain ⟨Q', hQ', hterm⟩ := he.leader_term hc
    obtain ⟨y, hy, hy'⟩ := S.inter hQ hQ'
    have hty := hterm y hy'
    exact ⟨y, hy, by omega, hack y (by omega)⟩

/-- A candidate with the votes of a quorum keeps what the leaders of earlier terms had of their own
terms: some voter acknowledged it and still had it, and the candidate's log is as up to date. -/
theorem keeps_of_quorum (he : Elections S s) (hl : Logs S s) {x : α}
    (hrole : s.role x = .candidate) {Q : Set α} (hQ : S.IsQuorum Q)
    (hx : ∀ y ∈ Q, s.grant y (s.term x) = some x) {t n : ℕ} (ht : t < s.term x) :
    Keeps S s t n (s.log x) := by
  intro L hL h1 hn hterm
  by_cases hlost : Lost S s t n
  · exact Or.inr hlost
  refine Or.inl ?_
  unfold Lost at hlost
  push Not at hlost
  obtain ⟨Q', hQ', hack⟩ := hlost
  obtain ⟨y, hy, hy'⟩ := S.inter hQ hQ'
  have hgrant := hx y hy
  have hty := (he.grant_term y _ x hgrant).2
  have hnack : n ≤ s.ack y t := hack y hy' (by omega)
  obtain ⟨hself, hlogx, -⟩ := he.candidate x hrole
  have hnot : ¬ Lost S s t n := fun hlost => by
    obtain ⟨z, hz, hz1, hz2⟩ := hlost Q' hQ'
    exact absurd (hack z hz hz1) (by omega)
  have hg : L.take n <+: s.grantLog y (s.term x) :=
    (h.kept_grant y _ x t n hgrant ht hnack L hL h1 hn hterm).resolve_right hnot
  have hup := he.grant_log y _ x hgrant
  rw [hlogx] at hup
  have hmg := hl.matching_grant y _ x hgrant
  have hmx := hl.matching_log x
  have hlen : (L.take n).length = n := by simp [hn]
  have hglen : n ≤ (s.grantLog y (s.term x)).length := hlen ▸ hg.length_le
  -- The voter's last term is at least `t`.
  have hglast : t ≤ lastTerm S.termOf (s.grantLog y (s.term x)) := by
    have h2 := hl.sorted hmg hglen (Nat.le_refl _)
    rw [← termAt_of_isPrefix hg hlen.ge, termAt_take (Nat.le_refl n), hterm] at h2
    exact h2
  have hgne : s.grantLog y (s.term x) ≠ [] := by
    intro hnil
    rw [hnil, List.length_nil] at hglen
    omega
  have hxne : s.log x ≠ [] := by
    intro hnil
    have hpos := hl.pos hmg (by omega) (Nat.le_refl (s.grantLog y (s.term x)).length)
    rcases hup with hup | ⟨-, hup⟩
    · rw [hnil] at hup
      simp [lastTerm] at hup
    · rw [hnil, List.length_nil] at hup
      omega
  obtain ⟨M, hM, hgM⟩ := hmg.isPrefix_lastTerm hgne
  obtain ⟨M', hM', hxM'⟩ := hmx.isPrefix_lastTerm hxne
  rcases hup with hup | ⟨hup, hshort⟩
  · -- A later last term: its leader has the entry already.
    have hlt : t < lastTerm S.termOf (s.log x) := by omega
    have hM'keep := (h.complete t _ n M' hlt hM' L hL h1 hn hterm).resolve_right hnot
    exact hl.isPrefix_of_lastTerm_lt hL hn hterm hM'keep hxM' hlt
  · -- The same last term: the voter's log is a prefix of the candidate's.
    rw [hup, hM'] at hM
    cases hM
    exact hg.trans (List.prefix_of_prefix_length_le hgM hxM' hshort)

end Facts

/-! ## Preservation -/

omit [DecidableEq α] in
/-- The invariant holds at the start. -/
theorem init (hi : Initial S s) : Acks S s := by
  have hstart : ∀ x t n, 1 ≤ n → n ≤ s.ack x t → t = S.startTerm ∧ n ≤ S.startLog.length :=
    fun x t n h1 hn => by
      by_cases ht : t = S.startTerm
      · rw [ht, hi.ack_start] at hn
        exact ⟨ht, hn⟩
      · rw [hi.ack x t ht] at hn
        omega
  refine ⟨fun x t ht => ?_, fun x t n h1 hn => ?_, fun x L hL => ?_, fun x hx => ?_,
    fun x t n hn L hL h1 _ _ => ?_, fun x u c t n hc => ?_, fun t u n L htu hL L' hL' => ?_⟩
  · rw [(hstart x t 1 (Nat.le_refl 1) ht).1, hi.term]
  · obtain ⟨rfl, hn'⟩ := hstart x t n h1 hn
    exact ⟨_, hi.leaderLog_start, hn'⟩
  · rw [hi.term, hi.leaderLog_start] at hL
    cases hL
    rw [hi.log]
    exact List.take_prefix _ _
  · rw [hi.role] at hx
    cases hx
  · obtain ⟨rfl, -⟩ := hstart x t n h1 hn
    rw [hi.leaderLog_start] at hL
    cases hL
    rw [hi.log]
    exact Or.inl (List.take_prefix _ _)
  · rw [hi.grant] at hc
    cases hc
  · have h1 : u = S.startTerm := by
      by_contra hne
      rw [hi.leaderLog u hne] at hL
      cases hL
    have h2 : t = S.startTerm := by
      by_contra hne
      rw [hi.leaderLog t hne] at hL'
      cases hL'
    omega

variable (h : Acks S s)

include h

/-- Adopting a higher term keeps the invariant. -/
theorem adopt {x : α} {t : ℕ} (ht : s.term x < t) : Acks S (s.adopt x t) := by
  have hle := Elections.le_adopt ht
  refine ⟨fun y u hu => (h.ack_term y u hu).trans (hle.term y), h.ack_le, fun y L hL => ?_,
    fun y hy => ?_,
    fun y u n hn => h.keeps_mono hle hn (h.kept_log y u n hn) List.prefix_rfl,
    fun y u c v n hc huv hn =>
      h.keeps_mono hle hn (h.kept_grant y u c v n hc huv hn) List.prefix_rfl,
    fun u v n L huv hL => (h.complete u v n L huv hL).mono_of_eq hle rfl⟩
  · by_cases hyx : y = x
    · subst hyx
      have hterm : (s.adopt y t).term y = t := by simp [State.adopt]
      rw [hterm, show (s.adopt y t).ack y t = 0 from h.ack_future ht]
      exact List.nil_prefix
    · have hterm : (s.adopt x t).term y = s.term y := by simp [State.adopt, hyx]
      rw [hterm] at hL ⊢
      exact h.ack_now y L hL
  · by_cases hyx : y = x
    · simp [State.adopt, hyx] at hy
    · simp only [State.adopt, update_apply, if_neg hyx] at hy ⊢
      exact h.ack_leader y hy

/-- Giving up a role keeps the invariant. -/
theorem stepDown (x : α) : Acks S (s.stepDown x) := by
  refine ⟨h.ack_term, h.ack_le, h.ack_now, fun y hy => ?_, h.kept_log, h.kept_grant, h.complete⟩
  by_cases hyx : y = x
  · simp [State.stepDown, hyx] at hy
  · simp only [State.stepDown, update_apply, if_neg hyx] at hy
    exact h.ack_leader y hy

/-- Moving the commit index keeps the invariant. -/
theorem advance (x : α) (k : ℕ) : Acks S (s.advance x k) :=
  ⟨h.ack_term, h.ack_le, h.ack_now, h.ack_leader, h.kept_log, h.kept_grant, h.complete⟩

/-- Campaigning keeps the invariant. -/
theorem campaign (he : Elections S s) (x : α) : Acks S (s.campaign x) := by
  have hle := he.le_campaign x
  refine ⟨fun y u hu => (h.ack_term y u hu).trans (hle.term y), h.ack_le, fun y L hL => ?_,
    fun y hy => ?_,
    fun y u n hn => h.keeps_mono hle hn (h.kept_log y u n hn) List.prefix_rfl,
    fun y u c v n hc huv hn => ?_,
    fun u v n L huv hL => (h.complete u v n L huv hL).mono_of_eq hle rfl⟩
  · by_cases hyx : y = x
    · subst hyx
      have hterm : (s.campaign y).term y = s.term y + 1 := by simp [State.campaign]
      rw [hterm, show (s.campaign y).ack y (s.term y + 1) = 0 from h.ack_future (Nat.lt_succ_self _)]
      exact List.nil_prefix
    · have hterm : (s.campaign x).term y = s.term y := by simp [State.campaign, hyx]
      rw [hterm] at hL ⊢
      exact h.ack_now y L hL
  · by_cases hyx : y = x
    · simp [State.campaign, hyx] at hy
    · simp only [State.campaign, update_apply, if_neg hyx] at hy ⊢
      exact h.ack_leader y hy
  · rw [Elections.grant_campaign] at hc
    rw [Elections.grantLog_campaign]
    split_ifs at hc ⊢ with hnew
    · rw [hnew.1] at hn
      exact h.keeps_mono hle hn (h.kept_log x v n hn) List.prefix_rfl
    · exact h.keeps_mono hle hn (h.kept_grant y u c v n hc huv hn) List.prefix_rfl

/-- Voting keeps the invariant. -/
theorem grantVote {x c : α} (hfree : s.grant x (s.term x) = none) :
    Acks S (s.grantVote x c) := by
  have hle : Le s (s.grantVote x c) := Elections.le_grantVote hfree
  refine ⟨h.ack_term, h.ack_le, h.ack_now, h.ack_leader,
    fun y u n hn => h.keeps_mono hle hn (h.kept_log y u n hn) List.prefix_rfl,
    fun y u c' v n hc huv hn => ?_,
    fun u v n L huv hL => (h.complete u v n L huv hL).mono_of_eq hle rfl⟩
  rw [Elections.grant_grantVote] at hc
  rw [Elections.grantLog_grantVote]
  split_ifs at hc ⊢ with hnew
  · rw [hnew.1] at hn
    exact h.keeps_mono hle hn (h.kept_log x v n hn) List.prefix_rfl
  · exact h.keeps_mono hle hn (h.kept_grant y u c' v n hc huv hn) List.prefix_rfl

omit h in
/-- The acknowledgements after an election. -/
theorem ack_elect (x y : α) (u : ℕ) :
    (s.elect x).ack y u = if y = x ∧ u = s.term x then (s.log x).length else s.ack y u := by
  simp only [State.elect, update_apply]
  split_ifs with h1 h2 h2
  · subst h1
    rw [update_apply, if_pos h2.2]
  · subst h1
    rw [update_apply, if_neg (fun hu => h2 ⟨rfl, hu⟩)]
  · exact absurd h2.1 h1
  · rfl

/-- Becoming leader keeps the invariant. -/
theorem elect (he : Elections S s) (hl : Logs S s) {x : α} (hrole : s.role x = .candidate)
    {Q : Set α} (hQ : S.IsQuorum Q) (hx : ∀ y ∈ Q, s.grant y (s.term x) = some x) :
    Acks S (s.elect x) := by
  obtain ⟨-, hnone⟩ := he.no_leader_of_quorum hrole hQ hx
  have hzero : ∀ y, s.ack y (s.term x) = 0 := fun y => h.ack_eq_zero hnone
  have hle : Le s (s.elect x) :=
    he.le_elect hrole hQ hx (by rw [hzero]; exact Nat.zero_le _)
  have hnew : (s.elect x).leaderLog (s.term x) = some (s.log x) := by simp [State.elect]
  have hold : ∀ u, u ≠ s.term x → (s.elect x).leaderLog u = s.leaderLog u := fun u hu => by
    simp [State.elect, hu]
  have hne : ∀ y u n, 1 ≤ n → n ≤ s.ack y u → u ≠ s.term x := fun y u n h1 hn hu => by
    rw [hu, hzero] at hn
    omega
  refine ⟨fun y u hu => ?_, fun y u n h1 hn => ?_, fun y L hL => ?_, fun y hy => ?_,
    fun y u n hn => ?_, fun y u c v n hc hvu hn => ?_, fun u v n L huv hL => ?_⟩
  · rw [ack_elect] at hu
    split_ifs at hu with hyu
    · obtain ⟨rfl, rfl⟩ := hyu
      exact Nat.le_refl _
    · exact h.ack_term y u hu
  · rw [ack_elect] at hn
    split_ifs at hn with hyu
    · rw [hyu.2]
      exact ⟨_, hnew, hn⟩
    · rw [hold u (hne y u n h1 hn)]
      exact h.ack_le y u n h1 hn
  · rw [ack_elect]
    split_ifs with hyu
    · rw [show (s.elect x).term y = s.term x from hyu.2, hnew] at hL
      cases hL
      rw [hyu.1]
      exact List.take_prefix _ _
    · by_cases hu : s.term y = s.term x
      · rw [show (s.elect x).term y = s.term x from hu, hzero]
        exact List.nil_prefix
      · rw [show (s.elect x).term y = s.term y from rfl, hold _ hu] at hL
        exact h.ack_now y L hL
  · rw [ack_elect]
    split_ifs with hyu
    · rw [hyu.1]
      rfl
    · have hyx : y ≠ x := by
        rintro rfl
        exact hyu ⟨rfl, rfl⟩
      simp only [State.elect, update_apply, if_neg hyx] at hy
      exact h.ack_leader y hy
  · rw [ack_elect] at hn
    split_ifs at hn with hyu
    · intro L hL _ _ _
      rw [hyu.2, hnew] at hL
      cases hL
      rw [hyu.1]
      exact Or.inl (List.take_prefix _ _)
    · exact h.keeps_mono hle hn (h.kept_log y u n hn) List.prefix_rfl
  · rw [ack_elect] at hn
    split_ifs at hn with hyv
    · have := (he.grant_term y u c hc).2
      rw [hyv.1] at this
      omega
    · exact h.keeps_mono hle hn (h.kept_grant y u c v n hc hvu hn) List.prefix_rfl
  · by_cases hv : v = s.term x
    · rw [hv, hnew] at hL
      cases hL
      exact (h.keeps_of_quorum he hl hrole hQ hx (hv ▸ huv)).mono_of_eq hle
        (hold u (by omega))
    · rw [hold v hv] at hL
      by_cases hu : u = s.term x
      · rcases Nat.eq_zero_or_pos n with rfl | h1
        · intro _ _ h1
          omega
        · refine Keeps.of_lost ((lost_of_later he ?_ huv hL fun y _ => ?_).mono hle)
          · rw [hu]
            exact he.term_start x
          · rw [hu, hzero]
            exact h1
      · exact (h.complete u v n L huv hL).mono_of_eq hle (hold u hu)

omit h in
/-- The acknowledgements after a leader's append. -/
theorem ack_extend (x y : α) (es : List ε) (u : ℕ) :
    (s.extend x es).ack y u =
      if y = x ∧ u = s.term x then (s.log x ++ es).length else s.ack y u := by
  simp only [State.extend, update_apply]
  split_ifs with h1 h2 h2
  · subst h1
    rw [update_apply, if_pos h2.2]
  · subst h1
    rw [update_apply, if_neg (fun hu => h2 ⟨rfl, hu⟩)]
  · exact absurd h2.1 h1
  · rfl

/-- Appending to the leader's log keeps the invariant. -/
theorem extend (he : Elections S s) {x : α} (hrole : s.role x = .leader) (es : List ε) :
    Acks S (s.extend x es) := by
  obtain ⟨-, hlog⟩ := he.leader x hrole
  have hacklen : ∀ y, s.ack y (s.term x) ≤ (s.log x).length := fun y => h.ack_le_length hlog
  have hle : Le s (s.extend x es) := he.le_extend hrole es (hacklen x)
  have hp : s.log x <+: s.log x ++ es := List.prefix_append _ _
  have hnew : (s.extend x es).leaderLog (s.term x) = some (s.log x ++ es) := by
    simp [State.extend]
  have hold : ∀ u, u ≠ s.term x → (s.extend x es).leaderLog u = s.leaderLog u := fun u hu => by
    simp [State.extend, hu]
  have hlogx : (s.extend x es).log x = s.log x ++ es := by simp [State.extend]
  have hlogy : ∀ y, s.log y <+: (s.extend x es).log y := fun y => by
    simp only [State.extend, update_apply]
    split_ifs with hy
    · rw [hy]
      exact hp
    · exact List.prefix_rfl
  refine ⟨fun y u hu => ?_, fun y u n h1 hn => ?_, fun y L hL => ?_, fun y hy => ?_,
    fun y u n hn => ?_, fun y u c v n hc hvu hn => ?_, fun u v n L huv hL => ?_⟩
  · rw [ack_extend] at hu
    split_ifs at hu with hyu
    · obtain ⟨rfl, rfl⟩ := hyu
      exact Nat.le_refl _
    · exact h.ack_term y u hu
  · rw [ack_extend] at hn
    split_ifs at hn with hyu
    · rw [hyu.2]
      exact ⟨_, hnew, hn⟩
    · obtain ⟨L, hL, hnL⟩ := h.ack_le y u n h1 hn
      obtain ⟨L', hL', hLL'⟩ := hle.leaderLog u L hL
      exact ⟨L', hL', hnL.trans hLL'.length_le⟩
  · rw [ack_extend]
    split_ifs with hyu
    · rw [show (s.extend x es).term y = s.term x from hyu.2, hnew] at hL
      cases hL
      rw [hyu.1, hlogx]
      exact List.take_prefix _ _
    · refine List.IsPrefix.trans ?_ (hlogy y)
      by_cases hu : s.term y = s.term x
      · rw [show (s.extend x es).term y = s.term x from hu, hnew] at hL
        cases hL
        rw [show (s.extend x es).term y = s.term x from hu, take_eq_of_isPrefix hp (hacklen y)]
        have := h.ack_now y (s.log x) (hu ▸ hlog)
        rwa [hu] at this
      · rw [show (s.extend x es).term y = s.term y from rfl, hold _ hu] at hL
        exact h.ack_now y L hL
  · rw [ack_extend]
    split_ifs with hyu
    · rw [hyu.1, hlogx]
    · have hyx : y ≠ x := by
        rintro rfl
        exact hyu ⟨rfl, rfl⟩
      simp only [State.extend, update_apply, if_neg hyx]
      exact h.ack_leader y hy
  · rw [ack_extend] at hn
    split_ifs at hn with hyu
    · intro L hL _ _ _
      rw [hyu.2, hnew] at hL
      cases hL
      rw [hyu.1, hlogx]
      exact Or.inl (List.take_prefix _ _)
    · exact h.keeps_mono hle hn (h.kept_log y u n hn) (hlogy y)
  · rw [ack_extend] at hn
    split_ifs at hn with hyv
    · have := (he.grant_term y u c hc).2
      rw [hyv.1] at this
      omega
    · exact h.keeps_mono hle hn (h.kept_grant y u c v n hc hvu hn) List.prefix_rfl
  · by_cases hu : u = s.term x
    · have hv : v ≠ s.term x := by omega
      rw [hold v hv] at hL
      by_cases hn : n ≤ (s.log x).length
      · exact (h.complete u v n L huv hL).mono hle List.prefix_rfl fun _ _ _ _ =>
          ⟨s.log x, hu ▸ hlog, hn⟩
      · -- The new entries come too late for the quorum that elected the later leader.
        refine Keeps.of_lost ((lost_of_later he ?_ huv hL fun y _ => ?_).mono hle)
        · rw [hu]
          exact he.term_start x
        · rw [hu]
          have := hacklen y
          omega
    · by_cases hv : v = s.term x
      · rw [hv, hnew] at hL
        cases hL
        refine (h.complete u v n (s.log x) huv (hv ▸ hlog)).mono hle hp fun _ L' hL' hn => ?_
        rw [hold u hu] at hL'
        exact ⟨L', hL', hn⟩
      · rw [hold v hv] at hL
        exact (h.complete u v n L huv hL).mono_of_eq hle (hold u hu)

omit h in
/-- The acknowledgements after taking over the leader's log. -/
theorem ack_accept (x y : α) (m : ℕ) (l : List ε) (u : ℕ) :
    (s.accept x m l).ack y u =
      if y = x ∧ u = s.term x then max (s.ack x (s.term x)) m else s.ack y u := by
  simp only [State.accept, update_apply]
  split_ifs with h1 h2 h2
  · subst h1
    rw [update_apply, if_pos h2.2]
  · subst h1
    rw [update_apply, if_neg (fun hu => h2 ⟨rfl, hu⟩)]
  · exact absurd h2.1 h1
  · rfl

omit h in
omit [DecidableEq α] in
/-- Where the log and the leader's disagree is past every common prefix of the two. -/
theorem length_le_of_conflict {p l L : List ε} (hp : p <+: l) (hp' : p <+: L) {i : ℕ}
    (hi : l[i]? ≠ L[i]?) : p.length ≤ i := by
  by_contra hlt
  exact hi (getElem?_eq_of_isPrefix hp hp' (by omega))

/-- Taking over the leader's log keeps the invariant: what the log loses, the leader's log does not
have, so that it was not kept. -/
theorem accept (he : Elections S s) {x : α} (hrole : s.role x = .follower) {m : ℕ}
    {l L : List ε} (hL : s.leaderLog (s.term x) = some L) (hm : m ≤ L.length) (hml : L.take m <+: l)
    (hlog : l = s.log x ∨ (l = L.take m ∧ ∃ i < m, (s.log x)[i]? ≠ L[i]?)) :
    Acks S (s.accept x m l) := by
  have hle : Le s (s.accept x m l) := Elections.le_accept x m l
  have hnow := h.ack_now x L hL
  have hacklen := h.ack_le_length (x := x) hL
  -- A common prefix of the log and the leader's log is still there.
  have hcommon : ∀ p, p <+: s.log x → p <+: L → p <+: l := fun p hp hp' => by
    rcases hlog with rfl | ⟨rfl, i, hi, hne⟩
    · exact hp
    · have := length_le_of_conflict hp hp' hne
      rw [List.prefix_take_iff]
      exact ⟨hp', by omega⟩
  have hmax : L.take (max (s.ack x (s.term x)) m) <+: l := by
    rcases max_choice (s.ack x (s.term x)) m with hmx | hmx
    · rw [hmx]
      exact hcommon _ hnow (List.take_prefix _ _)
    · rw [hmx]
      exact hml
  have hlogx : (s.accept x m l).log x = l := by simp [State.accept]
  have hlogy : ∀ y, y ≠ x → (s.accept x m l).log y = s.log y := fun y hy => by
    simp [State.accept, hy]
  refine ⟨fun y u hu => ?_, fun y u n h1 hn => ?_, fun y L' hL' => ?_, fun y hy => ?_,
    fun y u n hn => ?_, fun y u c v n hc hvu hn => ?_,
    fun u v n L' huv hL' => (h.complete u v n L' huv hL').mono_of_eq hle rfl⟩
  · rw [ack_accept] at hu
    split_ifs at hu with hyu
    · obtain ⟨rfl, rfl⟩ := hyu
      exact Nat.le_refl _
    · exact h.ack_term y u hu
  · rw [ack_accept] at hn
    split_ifs at hn with hyu
    · rw [hyu.2]
      exact ⟨L, hL, by omega⟩
    · exact h.ack_le y u n h1 hn
  · rw [ack_accept]
    split_ifs with hyu
    · rw [show (s.accept x m l).leaderLog ((s.accept x m l).term y) = s.leaderLog (s.term x) by
        rw [show (s.accept x m l).term y = s.term x from hyu.2]; rfl, hL] at hL'
      cases hL'
      rw [hyu.1, hlogx]
      exact hmax
    · have hyx : y ≠ x := by
        rintro rfl
        exact hyu ⟨rfl, rfl⟩
      rw [hlogy y hyx]
      exact h.ack_now y L' hL'
  · have hyx : y ≠ x := by
      rintro rfl
      rw [show s.role y = .leader from hy] at hrole
      cases hrole
    rw [ack_accept, if_neg (fun hyu => hyx hyu.1), hlogy y hyx]
    exact h.ack_leader y hy
  · rw [ack_accept] at hn
    split_ifs at hn with hyu
    · intro L' hL' _ _ _
      rw [hyu.2, show (s.accept x m l).leaderLog (s.term x) = some L from hL] at hL'
      cases hL'
      rw [hyu.1, hlogx]
      exact Or.inl ((take_isPrefix_take L hn).trans hmax)
    · by_cases hyx : y = x
      · subst hyx
        rw [hlogx]
        rcases Nat.eq_zero_or_pos n with rfl | h1
        · intro _ _ h1
          omega
        have hu : u < s.term y := by
          have h2 := h.ack_term y u (by omega)
          have h3 : u ≠ s.term y := fun hu => hyu ⟨rfl, hu⟩
          omega
        intro L' hL' _ hnL hterm
        rcases h.kept_log y u n hn L' hL' h1 hnL hterm with hkeep | hlost
        · rcases h.complete u _ n L hu hL L' hL' h1 hnL hterm with hkeep' | hlost
          · exact Or.inl (hcommon _ hkeep hkeep')
          · exact Or.inr (hlost.mono hle)
        · exact Or.inr (hlost.mono hle)
      · rw [hlogy y hyx]
        exact h.keeps_mono hle hn (h.kept_log y u n hn) List.prefix_rfl
  · rw [ack_accept] at hn
    split_ifs at hn with hyv
    · have := (he.grant_term y u c hc).2
      rw [hyv.1] at this
      omega
    · exact h.keeps_mono hle hn (h.kept_grant y u c v n hc hvu hn) List.prefix_rfl

end Acks

end Consensus
