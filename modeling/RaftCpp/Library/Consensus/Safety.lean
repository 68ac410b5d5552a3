import RaftCpp.Library.Consensus.Acks

/-!
# Safety of the protocol

`Commits` says that a commit index only covers what is committed. With the invariants on votes, logs and
acknowledgements it is kept by every step, and gives the properties the protocol is for: a term has one
leader, logs match, a committed prefix is in the log of every later leader, and any two committed
prefixes agree.
-/

namespace Consensus

variable {α ε : Type*} [DecidableEq α] (S : Setting α ε)

open Function (update update_apply)

/-- The invariant on commit indices. -/
structure Commits (s : State α ε) : Prop where
  /-- The commit index lies in the log. -/
  commit_le : ∀ x, s.commit x ≤ (s.log x).length
  /-- The log up to the commit index is committed. -/
  committed : ∀ x, Committed S s (s.term x) ((s.log x).take (s.commit x))

/-- The invariant of the protocol. -/
structure Inv (s : State α ε) : Prop where
  /-- Votes and leaders. -/
  elections : Elections S s
  /-- Logs. -/
  logs : Logs S s
  /-- Acknowledgements. -/
  acks : Acks S s
  /-- Commit indices. -/
  commits : Commits S s

variable {S} {s s' : State α ε}

/-! ## What the invariant gives -/

namespace Inv

omit [DecidableEq α]

variable (h : Inv S s)

include h

/-- What is committed for a term is in the log of its leader. -/
theorem isPrefix_leaderLog {t : ℕ} {p L : List ε} (hc : Committed S s t p)
    (hL : s.leaderLog t = some L) : p <+: L := by
  rcases hc with rfl | ⟨u, L', n, hu, hL', h1, hn, hterm, hch, hp⟩
  · exact List.nil_prefix
  · rcases Nat.lt_or_eq_of_le hu with hlt | rfl
    · exact hp.trans ((h.acks.complete u t n L hlt hL L' hL' h1 hn hterm).resolve_right
        hch.not_lost)
    · rw [hL] at hL'
      cases hL'
      exact hp.trans (List.take_prefix _ _)

/-- Of two committed prefixes, one is a prefix of the other. -/
theorem committed_comparable {t t' : ℕ} {p p' : List ε} (hc : Committed S s t p)
    (hc' : Committed S s t' p') : p <+: p' ∨ p' <+: p := by
  -- Both lie in the log of the leader of the later term of the two.
  suffices hL : p = [] ∨ p' = [] ∨ ∃ L, p <+: L ∧ p' <+: L by
    rcases hL with rfl | rfl | ⟨L, hp, hp'⟩
    · exact Or.inl List.nil_prefix
    · exact Or.inr List.nil_prefix
    · exact List.prefix_or_prefix_of_prefix hp hp'
  rcases hc with rfl | ⟨u, L, n, hu, hL, h1, hn, hterm, hch, hp⟩
  · exact Or.inl rfl
  rcases hc' with rfl | ⟨u', L', n', hu', hL', h1', hn', hterm', hch', hp'⟩
  · exact Or.inr (Or.inl rfl)
  refine Or.inr (Or.inr ?_)
  rcases Nat.le_total u u' with hle | hle
  · exact ⟨L', h.isPrefix_leaderLog (Or.inr ⟨u, L, n, hle, hL, h1, hn, hterm, hch, hp⟩) hL',
      hp'.trans (List.take_prefix _ _)⟩
  · exact ⟨L, hp.trans (List.take_prefix _ _),
      h.isPrefix_leaderLog (Or.inr ⟨u', L', n', hle, hL', h1', hn', hterm', hch', hp'⟩) hL⟩

/-- The acknowledgements of a leader candidate's own term, and of a leader, stay within its log. -/
theorem ack_le_log {x : α} (hrole : s.role x ≠ .follower)
    (hcand : s.role x = .candidate → s.leaderLog (s.term x) = none) :
    s.ack x (s.term x) ≤ (s.log x).length := by
  cases hr : s.role x with
  | follower => exact absurd hr hrole
  | candidate =>
    rw [h.acks.ack_eq_zero (hcand hr)]
    exact Nat.zero_le _
  | leader => exact h.acks.ack_le_length (h.elections.leader x hr).2

end Inv

/-! ## Preservation -/

namespace Commits

omit [DecidableEq α] in
/-- The commit indices stay covered when terms grow and logs are extended. -/
theorem mono (h : Commits S s) (hle : Le s s') (hlog : ∀ x, s.log x <+: s'.log x)
    (hcommit : s'.commit = s.commit) : Commits S s' where
  commit_le x := by
    rw [hcommit]
    exact (h.commit_le x).trans (hlog x).length_le
  committed x := by
    rw [hcommit, take_eq_of_isPrefix (hlog x) (h.commit_le x)]
    exact (h.committed x).mono hle (hle.term x)

omit [DecidableEq α] in
/-- The invariant holds at the start. -/
theorem init (hi : Initial S s) : Commits S s where
  commit_le x := by
    rw [hi.log]
    exact hi.commit x
  committed x := by
    rw [hi.log, hi.term]
    by_cases hnil : S.startLog = []
    · rw [hnil, List.take_nil]
      exact Or.inl rfl
    · obtain ⟨Q, hQ⟩ := hi.quorum hnil
      have hpos : 1 ≤ S.startLog.length := List.length_pos_iff.mpr hnil
      refine Or.inr ⟨S.startTerm, S.startLog, S.startLog.length, Nat.le_refl _,
        hi.leaderLog_start, hpos, Nat.le_refl _, ?_, ⟨Q, hQ, fun y _ => ?_⟩, ?_⟩
      · obtain ⟨e, -, he, hterm⟩ : ∃ e, _ ∧ _ ∧ termAt S.termOf S.startLog _ = S.termOf e :=
          exists_entry hpos (Nat.le_refl _)
        rw [hterm, S.startLog_term e he]
      · rw [hi.ack_start]
      · rw [List.take_length]
        exact List.take_prefix _ _

/-- Taking over the leader's log keeps the commit index covered: the leader's log holds what is
committed, so that the two disagree past the commit index only. -/
theorem accept (h : Inv S s) {x : α} {m : ℕ} {l L : List ε}
    (hL : s.leaderLog (s.term x) = some L) (hm : m ≤ L.length)
    (hlog : l = s.log x ∨ (l = L.take m ∧ ∃ i < m, (s.log x)[i]? ≠ L[i]?)) :
    Commits S (s.accept x m l) := by
  have hle : Le s (s.accept x m l) := Elections.le_accept x m l
  have hcx := h.commits.committed x
  have hlx := h.commits.commit_le x
  have hlogx : (s.accept x m l).log x = l := by simp [State.accept]
  have hlogy : ∀ y, y ≠ x → (s.accept x m l).log y = s.log y := fun y hy => by
    simp [State.accept, hy]
  have hpL := h.isPrefix_leaderLog hcx hL
  have hlen : ((s.log x).take (s.commit x)).length = s.commit x := by simp [hlx]
  have htake : s.commit x ≤ l.length ∧ l.take (s.commit x) = (s.log x).take (s.commit x) := by
    rcases hlog with rfl | ⟨rfl, i, hi, hne⟩
    · exact ⟨hlx, rfl⟩
    · have hci := Acks.length_le_of_conflict (List.take_prefix _ _) hpL hne
      rw [hlen] at hci
      refine ⟨by rw [List.length_take]; omega, ?_⟩
      rw [List.take_take, min_eq_left (by omega)]
      have := take_eq_of_isPrefix hpL hlen.ge
      rw [this, List.take_take, min_self]
  constructor
  · intro y
    by_cases hyx : y = x
    · rw [hyx, hlogx]
      exact htake.1
    · rw [hlogy y hyx]
      exact h.commits.commit_le y
  · intro y
    refine Committed.mono hle (hle.term y) ?_
    rw [show (s.accept x m l).commit = s.commit from rfl]
    by_cases hyx : y = x
    · rw [hyx, hlogx, htake.2]
      exact hcx
    · rw [hlogy y hyx]
      exact h.commits.committed y

/-- Moving the commit index over what is committed keeps it covered. -/
theorem advance (h : Commits S s) {x : α} {k : ℕ} (hk : k ≤ (s.log x).length)
    (hc : Committed S s (s.term x) ((s.log x).take k)) : Commits S (s.advance x k) where
  commit_le y := by
    simp only [State.advance, update_apply]
    split_ifs with hy
    · rw [hy]
      exact hk
    · exact h.commit_le y
  committed y := by
    simp only [State.advance, update_apply]
    split_ifs with hy
    · rw [hy]
      exact hc
    · exact h.committed y

end Commits

omit [DecidableEq α] in
/-- The invariant holds at the start. -/
theorem Inv.init (hi : Initial S s) : Inv S s :=
  ⟨Elections.init hi, Logs.init hi, Acks.init hi, Commits.init hi⟩

/-- A step keeps the invariant and undoes nothing. -/
theorem Step.inv {x : α} (hs : Step S s x s') (h : Inv S s) : Inv S s' ∧ Le s s' := by
  obtain ⟨he, hl, ha, hc⟩ := h
  have h : Inv S s := ⟨he, hl, ha, hc⟩
  cases hs with
  | adopt t ht =>
    have hle := Elections.le_adopt ht
    exact ⟨⟨he.adopt ht, hl.adopt ht, ha.adopt ht, hc.mono hle (fun _ => List.prefix_rfl) rfl⟩, hle⟩
  | stepDown =>
    have hle : Le s (s.stepDown x) := ⟨fun _ => Nat.le_refl _, fun _ _ _ hc => hc,
      fun _ _ _ _ => rfl, fun _ _ hc => hc, fun _ L hL => ⟨L, hL, List.prefix_rfl⟩,
      fun _ _ => Nat.le_refl _, fun _ _ _ => rfl⟩
    exact ⟨⟨he.stepDown x, hl.stepDown x, ha.stepDown x,
      hc.mono hle (fun _ => List.prefix_rfl) rfl⟩, hle⟩
  | campaign =>
    have hle := he.le_campaign x
    exact ⟨⟨he.campaign x (hl.log_term x), hl.campaign he x, ha.campaign he x,
      hc.mono hle (fun _ => List.prefix_rfl) rfl⟩, hle⟩
  | grantVote c hfree hcand hlog =>
    have hle : Le s (s.grantVote x c) := Elections.le_grantVote hfree
    exact ⟨⟨he.grantVote hfree hcand hlog, hl.grantVote x c, ha.grantVote hfree,
      hc.mono hle (fun _ => List.prefix_rfl) rfl⟩, hle⟩
  | elect Q hrole hQ hvotes =>
    have hnone := (he.no_leader_of_quorum hrole hQ hvotes).2
    have hack := h.ack_le_log (x := x) (by rw [hrole]; simp) fun _ => hnone
    have hle := he.le_elect hrole hQ hvotes hack
    exact ⟨⟨he.elect hrole hQ hvotes, hl.elect hle, ha.elect he hl hrole hQ hvotes,
      hc.mono hle (fun _ => List.prefix_rfl) rfl⟩, hle⟩
  | extend es hrole hes =>
    have hack := h.ack_le_log (x := x) (by rw [hrole]; simp) fun hr => by
      rw [hrole] at hr
      cases hr
    have hle := he.le_extend hrole es hack
    refine ⟨⟨he.extend hrole es, hl.extend he hrole hes hle, ha.extend he hrole es,
      hc.mono hle (fun y => ?_) rfl⟩, hle⟩
    simp only [State.extend, update_apply]
    split_ifs with hy
    · rw [hy]
      exact List.prefix_append _ _
    · exact List.prefix_rfl
  | accept m l L hrole hL hm hml hlog =>
    exact ⟨⟨he.accept hrole m l, hl.accept hL hlog, ha.accept he hrole hL hm hml hlog,
      Commits.accept h hL hm hlog⟩, Elections.le_accept x m l⟩
  | advance k hk hcom =>
    exact ⟨⟨he.advance x k, hl.advance x k, ha.advance x k, hc.advance hk hcom⟩,
      ⟨fun _ => Nat.le_refl _, fun _ _ _ hc => hc, fun _ _ _ _ => rfl, fun _ _ hc => hc,
        fun _ L hL => ⟨L, hL, List.prefix_rfl⟩, fun _ _ => Nat.le_refl _, fun _ _ _ => rfl⟩⟩

/-- A run keeps the invariant and undoes nothing. -/
theorem Moves.inv {x : α} (hs : Moves S x s s') (h : Inv S s) : Inv S s' ∧ Le s s' := by
  induction hs with
  | refl => exact ⟨h, Le.refl s⟩
  | tail _ hstep ih =>
    obtain ⟨hinv, hle⟩ := ih
    obtain ⟨hinv', hle'⟩ := hstep.inv hinv
    exact ⟨hinv', hle.trans hle'⟩

/-! ## The properties the protocol is for -/

omit [DecidableEq α] in
/-- Election safety: whoever leads a term leads it for the rest of the run, alone. -/
theorem leader_unique (h : Inv S s) (h' : Inv S s') (hle : Le s s') {x y : α}
    (hx : s.role x = .leader) (hy : s'.role y = .leader) (ht : s.term x = s'.term y) : x = y := by
  have hlx := hle.leader _ _ (h.elections.leader x hx).1
  have hly := (h'.elections.leader y hy).1
  rw [ht, hly] at hlx
  exact (Option.some.inj hlx).symm

omit [DecidableEq α] in
/-- Agreement: where two nodes have committed, now or later in the run, their logs agree. -/
theorem commit_agree (h : Inv S s) (h' : Inv S s') (hle : Le s s') (x y : α) {n : ℕ}
    (hx : n ≤ s.commit x) (hy : n ≤ s'.commit y) : (s.log x).take n = (s'.log y).take n := by
  have hlx := h.commits.commit_le x
  have hly := h'.commits.commit_le y
  have hpx := take_isPrefix_take (s.log x) hx
  have hpy := take_isPrefix_take (s'.log y) hy
  have hlen : ((s.log x).take n).length = ((s'.log y).take n).length := by
    simp only [List.length_take]
    omega
  have hcx := (h.commits.committed x).mono hle (Nat.le_refl _)
  rcases h'.committed_comparable hcx (h'.commits.committed y) with hp | hp
  · exact (List.prefix_of_prefix_length_le (hpx.trans hp) hpy hlen.le).eq_of_length hlen
  · exact ((List.prefix_of_prefix_length_le (hpy.trans hp) hpx hlen.ge).eq_of_length
      hlen.symm).symm

omit [DecidableEq α] in
/-- A leader only appends: as long as a node leads one term, its log only grows. -/
theorem leader_append_only (h : Inv S s) (h' : Inv S s') (hle : Le s s') {x : α}
    (hx : s.role x = .leader) (hx' : s'.role x = .leader) (ht : s.term x = s'.term x) :
    s.log x <+: s'.log x := by
  obtain ⟨L, hL, hp⟩ := hle.leaderLog _ _ (h.elections.leader x hx).2
  rw [ht, (h'.elections.leader x hx').2] at hL
  cases hL
  exact hp

omit [DecidableEq α] in
/-- A leader holds what is committed later for an earlier term: had its log missed the entry when it was
elected, no quorum could have acknowledged the entry afterwards. -/
theorem isPrefix_of_committed_later (h : Inv S s) (h' : Inv S s') (hle : Le s s') {t : ℕ}
    {p : List ε} (hc : Committed S s' t p) {y : α} (hy : s.role y = .leader) (ht : t < s.term y) :
    p <+: s.log y := by
  rcases hc with rfl | ⟨u, L', n, hu, hL', h1, hn', hterm, hch, hp⟩
  · exact List.nil_prefix
  have hLy := (h.elections.leader y hy).2
  have hnot : ¬ Lost S s u n := fun hlost => hch.not_lost (hlost.mono hle)
  refine hp.trans ?_
  by_cases hex : ∃ L, s.leaderLog u = some L ∧ n ≤ L.length
  · obtain ⟨L, hL, hn⟩ := hex
    obtain ⟨L'', hL'', hLL⟩ := hle.leaderLog u L hL
    rw [hL'] at hL''
    cases hL''
    rw [take_eq_of_isPrefix hLL hn]
    rw [← termAt_of_isPrefix hLL hn] at hterm
    exact (h.acks.complete u _ n _ (by omega) hLy L hL h1 hn hterm).resolve_right hnot
  · have hstart : S.startTerm ≤ u := by
      rcases h'.elections.leaderLog_leader u L' hL' with rfl | ⟨c, hc⟩
      · exact Nat.le_refl _
      · have := (h'.elections.leader_self hc).2.1
        omega
    refine absurd (Acks.lost_of_later h.elections hstart (by omega) hLy fun z _ => ?_) hnot
    by_contra hge
    exact hex (h.acks.ack_le z u n h1 (by omega))

omit [DecidableEq α] in
/-- Leader completeness: what is committed is in the log of the leader of any later term, whether that
leader comes before or after the commit in the run. -/
theorem leader_complete (h : Inv S s) (h' : Inv S s') (hle : Le s s' ∨ Le s' s) {t : ℕ} {p : List ε}
    (hc : Committed S s t p) {y : α} (hy : s'.role y = .leader) (ht : t < s'.term y) :
    p <+: s'.log y := by
  rcases hle with hle | hle
  · exact h'.isPrefix_leaderLog (hc.mono hle (Nat.le_of_lt ht)) (h'.elections.leader y hy).2
  · exact isPrefix_of_committed_later h' h hle hc hy ht

end Consensus
