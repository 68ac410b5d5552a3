import RaftCpp.Library.Consensus.Elections

/-!
# The logs of the protocol

Every log agrees, up to each of its entries, with the log of the leader of the entry's term. It follows
that two logs with entries of one term at one index agree up to there.
-/

namespace Consensus

variable {α ε : Type*} [DecidableEq α] (S : Setting α ε)

open Function (update update_apply)

/-- The invariant on logs. -/
structure Logs (s : State α ε) : Prop where
  /-- No entry of a log is of a later term than the node's. -/
  log_term : ∀ x n, termAt S.termOf (s.log x) n ≤ s.term x
  /-- The logs of the nodes match the logs of the leaders. -/
  matching_log : ∀ x, Matching S s (s.log x)
  /-- So do the logs at the votes. -/
  matching_grant : ∀ x u c, s.grant x u = some c → Matching S s (s.grantLog x u)
  /-- So do the logs of the leaders themselves. -/
  matching_leader : ∀ u L, s.leaderLog u = some L → Matching S s L
  /-- The terms of a leader's log do not decrease. -/
  leader_sorted : ∀ u L, s.leaderLog u = some L → ∀ m n, m ≤ n → n ≤ L.length →
    termAt S.termOf L m ≤ termAt S.termOf L n
  /-- No entry of a leader's log is of a later term than the leader's. -/
  leader_term : ∀ u L, s.leaderLog u = some L → ∀ n, termAt S.termOf L n ≤ u
  /-- Entries have a term. -/
  leader_pos : ∀ u L, s.leaderLog u = some L → ∀ n, 1 ≤ n → n ≤ L.length →
    0 < termAt S.termOf L n

section Matching

omit [DecidableEq α]

variable {S} {s : State α ε}

/-- Two logs with an entry of the same term at the same index agree up to there. -/
theorem Matching.take_eq {l l' : List ε} (h : Matching S s l) (h' : Matching S s l') {n : ℕ}
    (hn : n ≤ l.length) (hn' : n ≤ l'.length)
    (ht : termAt S.termOf l n = termAt S.termOf l' n) : l.take n = l'.take n := by
  rcases Nat.eq_zero_or_pos n with rfl | h1
  · simp
  · obtain ⟨L, hL, hp⟩ := h n h1 hn
    obtain ⟨L', hL', hp'⟩ := h' n h1 hn'
    rw [ht, hL'] at hL
    cases hL
    -- Both are the first `n` entries of the log of the leader of that term.
    refine (List.prefix_of_prefix_length_le hp hp' ?_).eq_of_length ?_ <;>
      simp only [List.length_take] <;> omega

/-- A matching log lies within the log of the leader of its last term. -/
theorem Matching.isPrefix_lastTerm {l : List ε} (h : Matching S s l) (hl : l ≠ []) :
    ∃ L, s.leaderLog (lastTerm S.termOf l) = some L ∧ l <+: L := by
  have hpos : 1 ≤ l.length := List.length_pos_iff.mpr hl
  obtain ⟨L, hL, hp⟩ := h l.length hpos (Nat.le_refl _)
  rw [List.take_length] at hp
  exact ⟨L, hL, hp⟩

/-- The empty log matches. -/
theorem Matching.nil : Matching S s [] := fun n h1 hn => by
  rw [List.length_nil] at hn
  omega

end Matching

namespace Logs

variable {S} {s : State α ε}

section Terms

omit [DecidableEq α]

variable (h : Logs S s)

include h

/-- The terms of a matching log do not decrease. -/
theorem sorted {l : List ε} (hl : Matching S s l) {m n : ℕ} (hmn : m ≤ n) (hn : n ≤ l.length) :
    termAt S.termOf l m ≤ termAt S.termOf l n := by
  rcases Nat.eq_zero_or_pos n with rfl | h1
  · rw [Nat.le_zero.mp hmn]
  · obtain ⟨L, hL, hp⟩ := hl n h1 hn
    have hlen : (l.take n).length = n := by simp [hn]
    have hnL : n ≤ L.length := hlen ▸ hp.length_le
    have hm' : termAt S.termOf l m = termAt S.termOf L m := by
      rw [← termAt_take hmn, termAt_of_isPrefix hp (hlen.symm ▸ hmn)]
    have hn' : termAt S.termOf l n = termAt S.termOf L n := by
      rw [← termAt_take (Nat.le_refl n), termAt_of_isPrefix hp hlen.ge]
    rw [hm', hn']
    exact h.leader_sorted _ L hL m n hmn hnL

/-- The entries of a matching log have a term. -/
theorem pos {l : List ε} (hl : Matching S s l) {n : ℕ} (h1 : 1 ≤ n) (hn : n ≤ l.length) :
    0 < termAt S.termOf l n := by
  obtain ⟨L, hL, hp⟩ := hl n h1 hn
  have hlen : (l.take n).length = n := by simp [hn]
  rw [← termAt_take (Nat.le_refl n), termAt_of_isPrefix hp hlen.ge]
  exact h.leader_pos _ L hL n h1 (hlen ▸ hp.length_le)

/-- A log that holds a matching entry of the leader's log agrees with it up to there. -/
theorem take_eq_leader {l L : List ε} {u n : ℕ} (hl : Matching S s l)
    (hL : s.leaderLog u = some L) (hn : n ≤ L.length)
    (ht : termAt S.termOf l n = termAt S.termOf L n) : n ≤ l.length ∧ l.take n = L.take n := by
  have hnl : n ≤ l.length := by
    rcases Nat.eq_zero_or_pos n with rfl | h1
    · exact Nat.zero_le _
    · have hpos := h.leader_pos u L hL n h1 hn
      have hne : termAt S.termOf l n ≠ 0 := by omega
      exact (le_length_of_termAt_ne_zero hne).2
  exact ⟨hnl, hl.take_eq (h.matching_leader u L hL) hnl hn ht⟩

/-- An acknowledgement below a log's last term reaches into the log: if the leader's log of a later
last term holds a prefix, so does the log. -/
theorem isPrefix_of_lastTerm_lt {l L : List ε} {t n : ℕ} (hL : s.leaderLog t = some L)
    (hn : n ≤ L.length) (hterm : termAt S.termOf L n = t) {L' : List ε} (hp : L.take n <+: L')
    (hl : l <+: L') (hlt : t < lastTerm S.termOf l) : L.take n <+: l := by
  have hlen : (L.take n).length = n := by simp [hn]
  refine List.prefix_of_prefix_length_le hp hl ?_
  rw [hlen]
  by_contra hshort
  -- Otherwise the last entry of `l` lies below `n` in the log of term `t`, which is sorted.
  have hlast : lastTerm S.termOf l = termAt S.termOf L l.length := by
    have h1 : termAt S.termOf (L.take n) l.length = termAt S.termOf L' l.length :=
      termAt_of_isPrefix hp (by omega)
    have h2 : termAt S.termOf l l.length = termAt S.termOf L' l.length :=
      termAt_of_isPrefix hl (Nat.le_refl _)
    rw [lastTerm, h2, ← h1, termAt_take (by omega)]
  have := h.leader_sorted t L hL l.length n (by omega) hn
  omega

end Terms

/-! ## Preservation -/

omit [DecidableEq α] in
/-- The invariant holds at the start. -/
theorem init (hi : Initial S s) : Logs S s := by
  have hterm : ∀ n, 1 ≤ n → n ≤ S.startLog.length →
      termAt S.termOf S.startLog n = S.startTerm := fun n h1 hn => by
    obtain ⟨e, -, he, ht⟩ : ∃ e, _ ∧ _ ∧ termAt S.termOf S.startLog n = S.termOf e :=
      exists_entry h1 hn
    rw [ht, S.startLog_term e he]
  have hle : ∀ n, termAt S.termOf S.startLog n ≤ S.startTerm := fun n => by
    by_cases hn : termAt S.termOf S.startLog n = 0
    · omega
    · obtain ⟨h1, h2⟩ := le_length_of_termAt_ne_zero hn
      rw [hterm n h1 h2]
  have hmatch : Matching S s S.startLog := fun n h1 hn => by
    refine ⟨S.startLog, ?_, List.take_prefix _ _⟩
    rw [hterm n h1 hn]
    exact hi.leaderLog_start
  have hlog : ∀ u L, s.leaderLog u = some L → u = S.startTerm ∧ L = S.startLog :=
    fun u L hL => by
      by_cases hu : u = S.startTerm
      · rw [hu, hi.leaderLog_start] at hL
        exact ⟨hu, (Option.some.inj hL).symm⟩
      · rw [hi.leaderLog u hu] at hL
        cases hL
  refine ⟨fun x n => ?_, fun x => ?_, fun x u c hc => ?_, fun u L hL => ?_,
    fun u L hL m n hmn hn => ?_, fun u L hL n => ?_, fun u L hL n h1 hn => ?_⟩
  · rw [hi.log, hi.term]
    exact hle n
  · rw [hi.log]
    exact hmatch
  · rw [hi.grant] at hc
    cases hc
  · obtain ⟨-, rfl⟩ := hlog u L hL
    exact hmatch
  · obtain ⟨-, rfl⟩ := hlog u L hL
    rcases Nat.eq_zero_or_pos m with rfl | h1
    · exact Nat.zero_le _
    · rw [hterm m h1 (by omega), hterm n (by omega) hn]
  · obtain ⟨rfl, rfl⟩ := hlog u L hL
    exact hle n
  · obtain ⟨-, rfl⟩ := hlog u L hL
    rw [hterm n h1 hn]
    refine S.startTerm_pos fun hnil => ?_
    rw [hnil, List.length_nil] at hn
    omega

variable (h : Logs S s)

include h

/-- Adopting a higher term keeps the invariant. -/
theorem adopt {x : α} {t : ℕ} (ht : s.term x < t) : Logs S (s.adopt x t) where
  log_term y n := (h.log_term y n).trans ((Elections.le_adopt ht).term y)
  matching_log := h.matching_log
  matching_grant := h.matching_grant
  matching_leader := h.matching_leader
  leader_sorted := h.leader_sorted
  leader_term := h.leader_term
  leader_pos := h.leader_pos

/-- Giving up a role keeps the invariant. -/
theorem stepDown (x : α) : Logs S (s.stepDown x) :=
  ⟨h.log_term, h.matching_log, h.matching_grant, h.matching_leader, h.leader_sorted,
    h.leader_term, h.leader_pos⟩

/-- Moving the commit index keeps the invariant. -/
theorem advance (x : α) (k : ℕ) : Logs S (s.advance x k) :=
  ⟨h.log_term, h.matching_log, h.matching_grant, h.matching_leader, h.leader_sorted,
    h.leader_term, h.leader_pos⟩

/-- Campaigning keeps the invariant. -/
theorem campaign (he : Elections S s) (x : α) : Logs S (s.campaign x) where
  log_term y n := (h.log_term y n).trans ((he.le_campaign x).term y)
  matching_log := h.matching_log
  matching_grant y u c hc := by
    rw [Elections.grant_campaign] at hc
    rw [Elections.grantLog_campaign]
    split_ifs at hc ⊢ with hnew
    · exact h.matching_log x
    · exact h.matching_grant y u c hc
  matching_leader := h.matching_leader
  leader_sorted := h.leader_sorted
  leader_term := h.leader_term
  leader_pos := h.leader_pos

/-- Voting keeps the invariant. -/
theorem grantVote (x c : α) : Logs S (s.grantVote x c) where
  log_term := h.log_term
  matching_log := h.matching_log
  matching_grant y u c' hc := by
    rw [Elections.grant_grantVote] at hc
    rw [Elections.grantLog_grantVote]
    split_ifs at hc ⊢ with hnew
    · exact h.matching_log x
    · exact h.matching_grant y u c' hc
  matching_leader := h.matching_leader
  leader_sorted := h.leader_sorted
  leader_term := h.leader_term
  leader_pos := h.leader_pos

/-- Becoming leader keeps the invariant. -/
theorem elect {x : α} (hle : Le s (s.elect x)) : Logs S (s.elect x) := by
  have hL' : ∀ u L, (s.elect x).leaderLog u = some L →
      (u = s.term x ∧ L = s.log x) ∨ s.leaderLog u = some L := fun u L hL => by
    simp only [State.elect, update_apply] at hL
    split_ifs at hL with hu
    · exact Or.inl ⟨hu, (Option.some.inj hL).symm⟩
    · exact Or.inr hL
  refine ⟨h.log_term, fun y => (h.matching_log y).mono hle,
    fun y u c hc => (h.matching_grant y u c hc).mono hle, fun u L hL => ?_,
    fun u L hL m n hmn hn => ?_, fun u L hL n => ?_, fun u L hL n h1 hn => ?_⟩
  · rcases hL' u L hL with ⟨-, rfl⟩ | hL
    · exact (h.matching_log x).mono hle
    · exact (h.matching_leader u L hL).mono hle
  · rcases hL' u L hL with ⟨-, rfl⟩ | hL
    · exact h.sorted (h.matching_log x) hmn hn
    · exact h.leader_sorted u L hL m n hmn hn
  · rcases hL' u L hL with ⟨rfl, rfl⟩ | hL
    · exact h.log_term x n
    · exact h.leader_term u L hL n
  · rcases hL' u L hL with ⟨-, rfl⟩ | hL
    · exact h.pos (h.matching_log x) h1 hn
    · exact h.leader_pos u L hL n h1 hn

/-- Appending to the leader's log keeps the invariant. -/
theorem extend (he : Elections S s) {x : α} (hrole : s.role x = .leader) {es : List ε}
    (hes : ∀ e ∈ es, S.termOf e = s.term x) (hle : Le s (s.extend x es)) :
    Logs S (s.extend x es) := by
  obtain ⟨hlead, hlog⟩ := he.leader x hrole
  have hpos : 0 < s.term x := by
    have := (he.leader_self hlead).2.1
    omega
  have hp : s.log x <+: s.log x ++ es := List.prefix_append _ _
  have hold : ∀ n, n ≤ (s.log x).length →
      termAt S.termOf (s.log x ++ es) n = termAt S.termOf (s.log x) n := fun n hn =>
    (termAt_of_isPrefix hp hn).symm
  have hnew : ∀ n, (s.log x).length < n → n ≤ (s.log x ++ es).length →
      termAt S.termOf (s.log x ++ es) n = s.term x := fun n hlt hn => by
    obtain ⟨m, rfl⟩ : ∃ m, n = m + 1 := ⟨n - 1, by omega⟩
    have hm : m - (s.log x).length < es.length := by
      rw [List.length_append] at hn
      omega
    rw [termAt_succ_of_getElem? (e := es[m - (s.log x).length])]
    · exact hes _ (List.getElem_mem hm)
    · rw [List.getElem?_append_right (by omega), List.getElem?_eq_getElem hm]
  have hterm : ∀ n, termAt S.termOf (s.log x ++ es) n ≤ s.term x := fun n => by
    by_cases h1 : n ≤ (s.log x).length
    · rw [hold n h1]
      exact h.log_term x n
    · by_cases h2 : n ≤ (s.log x ++ es).length
      · rw [hnew n (by omega) h2]
      · rw [termAt_of_length_lt (by omega)]
        exact Nat.zero_le _
  have hmatch : Matching S (s.extend x es) (s.log x ++ es) := fun n h1 hn => by
    by_cases hn' : n ≤ (s.log x).length
    · rw [hold n hn', take_eq_of_isPrefix hp hn']
      exact (h.matching_log x).mono hle n h1 hn'
    · refine ⟨s.log x ++ es, ?_, List.take_prefix _ _⟩
      rw [hnew n (by omega) hn]
      simp [State.extend]
  have hL' : ∀ u L, (s.extend x es).leaderLog u = some L →
      (u = s.term x ∧ L = s.log x ++ es) ∨ s.leaderLog u = some L := fun u L hL => by
    simp only [State.extend, update_apply] at hL
    split_ifs at hL with hu
    · exact Or.inl ⟨hu, (Option.some.inj hL).symm⟩
    · exact Or.inr hL
  refine ⟨fun y n => ?_, fun y => ?_, fun y u c hc => (h.matching_grant y u c hc).mono hle,
    fun u L hL => ?_, fun u L hL m n hmn hn => ?_, fun u L hL n => ?_, fun u L hL n h1 hn => ?_⟩
  · simp only [State.extend, update_apply]
    split_ifs with hy
    · subst hy
      exact hterm n
    · exact h.log_term y n
  · simp only [State.extend, update_apply]
    split_ifs with hy
    · exact hmatch
    · exact (h.matching_log y).mono hle
  · rcases hL' u L hL with ⟨-, rfl⟩ | hL
    · exact hmatch
    · exact (h.matching_leader u L hL).mono hle
  · rcases hL' u L hL with ⟨-, rfl⟩ | hL
    · by_cases hn' : n ≤ (s.log x).length
      · rw [hold n hn', hold m (by omega)]
        exact h.sorted (h.matching_log x) hmn hn'
      · rw [hnew n (by omega) hn]
        exact hterm m
    · exact h.leader_sorted u L hL m n hmn hn
  · rcases hL' u L hL with ⟨rfl, rfl⟩ | hL
    · exact hterm n
    · exact h.leader_term u L hL n
  · rcases hL' u L hL with ⟨-, rfl⟩ | hL
    · by_cases hn' : n ≤ (s.log x).length
      · rw [hold n hn']
        exact h.pos (h.matching_log x) h1 hn'
      · rw [hnew n (by omega) hn]
        exact hpos
    · exact h.leader_pos u L hL n h1 hn

/-- Taking over the leader's log keeps the invariant. -/
theorem accept {x : α} {m : ℕ} {l L : List ε} (hL : s.leaderLog (s.term x) = some L)
    (hlog : l = s.log x ∨ (l = L.take m ∧ ∃ i < m, (s.log x)[i]? ≠ L[i]?)) :
    Logs S (s.accept x m l) := by
  have hl : Matching S s l ∧ ∀ n, termAt S.termOf l n ≤ s.term x := by
    rcases hlog with rfl | ⟨rfl, -⟩
    · exact ⟨h.matching_log x, h.log_term x⟩
    · refine ⟨(h.matching_leader _ L hL).of_isPrefix (List.take_prefix _ _), fun n => ?_⟩
      by_cases hn : n ≤ m
      · rw [termAt_take hn]
        exact h.leader_term _ L hL n
      · rw [termAt_of_length_lt (by simp; omega)]
        exact Nat.zero_le _
  refine ⟨fun y n => ?_, fun y => ?_, h.matching_grant, h.matching_leader, h.leader_sorted,
    h.leader_term, h.leader_pos⟩
  · simp only [State.accept, update_apply]
    split_ifs with hy
    · subst hy
      exact hl.2 n
    · exact h.log_term y n
  · simp only [State.accept, update_apply]
    split_ifs with hy
    · exact hl.1
    · exact h.matching_log y

end Logs

end Consensus
