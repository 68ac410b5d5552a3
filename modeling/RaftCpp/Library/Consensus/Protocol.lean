import Mathlib.Logic.Function.Basic
import Mathlib.Logic.Relation
import RaftCpp.Library.Quorum
import RaftCpp.Library.TermLog

/-!
# A leader-based replication protocol

An abstract protocol in which nodes elect leaders for numbered terms, and the leader of a term
replicates its log. The state holds, next to what each node knows, the history that safety is argued
with: who led a term and with which log, who granted a vote to whom and with which log, and up to
which index each node acknowledged the log of each term. There are no messages: a step is allowed when
the history justifies it, which is all that a message can tell its receiver.

`Le` says what no step undoes. A log prefix is `Committed` once it is part of a `Chosen` one, that is,
one that ends with an entry of the leader's own term and that a quorum acknowledged. An index is
`Lost` once no quorum can acknowledge it any more.
-/

namespace Consensus

/-- What the protocol is played with: a quorum system, the terms of entries, and the term and the log
that all nodes start with. -/
structure Setting (α ε : Type*) extends QuorumSystem α where
  /-- The term of an entry. -/
  termOf : ε → ℕ
  /-- The term in which all nodes start. -/
  startTerm : ℕ
  /-- The log that all nodes start with. -/
  startLog : List ε
  /-- The entries of the first log are of the first term. -/
  startLog_term : ∀ e ∈ startLog, termOf e = startTerm
  /-- No entry has the term zero. -/
  startTerm_pos : startLog ≠ [] → 0 < startTerm

/-- The roles of a node. -/
inductive Role
  | follower
  | candidate
  | leader
deriving DecidableEq

/-- The state of all nodes, and the history of the run. -/
structure State (α ε : Type*) where
  /-- The current term of a node. -/
  term : α → ℕ
  /-- The role of a node in its term. -/
  role : α → Role
  /-- The log of a node. -/
  log : α → List ε
  /-- The commit index of a node. -/
  commit : α → ℕ
  /-- The leader of a term. -/
  leader : ℕ → Option α
  /-- The log that the leader of a term replicates. -/
  leaderLog : ℕ → Option (List ε)
  /-- The candidate that a node voted for in a term. -/
  grant : α → ℕ → Option α
  /-- The log of a node when it voted in a term. -/
  grantLog : α → ℕ → List ε
  /-- The highest index of the log of a term that a node acknowledged. -/
  ack : α → ℕ → ℕ

variable {α ε : Type*} (S : Setting α ε)

/-- A quorum acknowledged an index whose entry is of the acknowledged term. -/
def Chosen (s : State α ε) (t n : ℕ) : Prop :=
  ∃ Q, S.IsQuorum Q ∧ ∀ x ∈ Q, n ≤ s.ack x t

/-- In every quorum there is a node that left the term without acknowledging the index. -/
def Lost (s : State α ε) (t n : ℕ) : Prop :=
  ∀ Q, S.IsQuorum Q → ∃ x ∈ Q, t < s.term x ∧ s.ack x t < n

/-- A log prefix that is part of a chosen one, of a term not above the given one. -/
def Committed (s : State α ε) (t : ℕ) (p : List ε) : Prop :=
  p = [] ∨ ∃ t' L n, t' ≤ t ∧ s.leaderLog t' = some L ∧ 1 ≤ n ∧ n ≤ L.length ∧
    termAt S.termOf L n = t' ∧ Chosen S s t' n ∧ p <+: L.take n

/-- What holds of a log all of whose entries come from the leaders of their terms: up to an entry, the
log is that of the leader of the entry's term. -/
def Matching (s : State α ε) (l : List ε) : Prop :=
  ∀ n, 1 ≤ n → n ≤ l.length → ∃ L, s.leaderLog (termAt S.termOf l n) = some L ∧ l.take n <+: L

namespace State

variable [DecidableEq α]

open Function (update)

/-- A node learns of a higher term. -/
def adopt (s : State α ε) (x : α) (t : ℕ) : State α ε :=
  { s with term := update s.term x t, role := update s.role x .follower }

/-- A node gives up its role. -/
def stepDown (s : State α ε) (x : α) : State α ε :=
  { s with role := update s.role x .follower }

/-- A node enters the next term as a candidate, and votes for itself. -/
def campaign (s : State α ε) (x : α) : State α ε :=
  { s with
    term := update s.term x (s.term x + 1)
    role := update s.role x .candidate
    grant := update s.grant x (update (s.grant x) (s.term x + 1) (some x))
    grantLog := update s.grantLog x (update (s.grantLog x) (s.term x + 1) (s.log x)) }

/-- A node votes for a candidate of its term. -/
def grantVote (s : State α ε) (x c : α) : State α ε :=
  { s with
    grant := update s.grant x (update (s.grant x) (s.term x) (some c))
    grantLog := update s.grantLog x (update (s.grantLog x) (s.term x) (s.log x)) }

/-- A candidate becomes the leader of its term. -/
def elect (s : State α ε) (x : α) : State α ε :=
  { s with
    role := update s.role x .leader
    leader := update s.leader (s.term x) (some x)
    leaderLog := update s.leaderLog (s.term x) (some (s.log x))
    ack := update s.ack x (update (s.ack x) (s.term x) (s.log x).length) }

/-- A leader appends entries to its log. -/
def extend (s : State α ε) (x : α) (es : List ε) : State α ε :=
  { s with
    log := update s.log x (s.log x ++ es)
    leaderLog := update s.leaderLog (s.term x) (some (s.log x ++ es))
    ack := update s.ack x (update (s.ack x) (s.term x) (s.log x ++ es).length) }

/-- A follower takes over a log from the leader of its term, and acknowledges an index of it. -/
def accept (s : State α ε) (x : α) (m : ℕ) (l : List ε) : State α ε :=
  { s with
    log := update s.log x l
    ack := update s.ack x (update (s.ack x) (s.term x) (max (s.ack x (s.term x)) m)) }

/-- A node moves its commit index. -/
def advance (s : State α ε) (x : α) (k : ℕ) : State α ε :=
  { s with commit := update s.commit x k }

end State

variable [DecidableEq α]

/-- The steps of a node. -/
inductive Step (s : State α ε) (x : α) : State α ε → Prop
  | adopt (t : ℕ) (ht : s.term x < t) : Step s x (s.adopt x t)
  | stepDown : Step s x (s.stepDown x)
  | campaign : Step s x (s.campaign x)
  | grantVote (c : α) (hfree : s.grant x (s.term x) = none)
      (hcand : s.grant c (s.term x) = some c)
      (hlog : UpToDate S.termOf (s.grantLog c (s.term x)) (s.log x)) : Step s x (s.grantVote x c)
  | elect (Q : Set α) (hrole : s.role x = .candidate) (hQ : S.IsQuorum Q)
      (hvotes : ∀ y ∈ Q, s.grant y (s.term x) = some x) : Step s x (s.elect x)
  | extend (es : List ε) (hrole : s.role x = .leader)
      (hes : ∀ e ∈ es, S.termOf e = s.term x) : Step s x (s.extend x es)
  | accept (m : ℕ) (l L : List ε) (hrole : s.role x = .follower)
      (hL : s.leaderLog (s.term x) = some L) (hm : m ≤ L.length) (hl : L.take m <+: l)
      -- The log stays, or it disagrees with the leader's within the part that replaces it.
      (hlog : l = s.log x ∨ (l = L.take m ∧ ∃ i < m, (s.log x)[i]? ≠ L[i]?)) :
      Step s x (s.accept x m l)
  | advance (k : ℕ) (hk : k ≤ (s.log x).length)
      (hc : Committed S s (s.term x) ((s.log x).take k)) : Step s x (s.advance x k)

/-- A run of steps of one node. -/
def Moves (x : α) : State α ε → State α ε → Prop :=
  Relation.ReflTransGen fun s s' => Step S s x s'

/-- The state in which all nodes start, with the given commit index. -/
def Setting.start (k : ℕ) : State α ε where
  term _ := S.startTerm
  role _ := .follower
  log _ := S.startLog
  commit _ := k
  leader _ := none
  leaderLog u := if u = S.startTerm then some S.startLog else none
  grant _ _ := none
  grantLog _ _ := []
  ack _ t := if t = S.startTerm then S.startLog.length else 0

/-- What holds when all nodes start: the first log counts as the log of the leader of the first term,
which every node has acknowledged. -/
structure Initial (s : State α ε) : Prop where
  /-- All nodes are in the first term. -/
  term : ∀ x, s.term x = S.startTerm
  /-- All nodes are followers. -/
  role : ∀ x, s.role x = .follower
  /-- All nodes have the first log. -/
  log : ∀ x, s.log x = S.startLog
  /-- The commit indices lie in the first log. -/
  commit : ∀ x, s.commit x ≤ S.startLog.length
  /-- No term had a leader. -/
  leader : ∀ u, s.leader u = none
  /-- The first term has the first log. -/
  leaderLog_start : s.leaderLog S.startTerm = some S.startLog
  /-- No other term has a log. -/
  leaderLog : ∀ u, u ≠ S.startTerm → s.leaderLog u = none
  /-- No node has voted. -/
  grant : ∀ x u, s.grant x u = none
  /-- All nodes have acknowledged the first log. -/
  ack_start : ∀ x, s.ack x S.startTerm = S.startLog.length
  /-- No node has acknowledged anything else. -/
  ack : ∀ x u, u ≠ S.startTerm → s.ack x u = 0
  /-- Where the first log is not empty, there is a quorum. -/
  quorum : S.startLog ≠ [] → ∃ Q, S.IsQuorum Q

omit [DecidableEq α] in
/-- The state in which all nodes start. -/
theorem Setting.start_initial {k : ℕ} (hk : k ≤ S.startLog.length)
    (hQ : S.startLog ≠ [] → ∃ Q, S.IsQuorum Q) : Initial S (S.start k) where
  term _ := rfl
  role _ := rfl
  log _ := rfl
  commit _ := hk
  leader _ := rfl
  leaderLog_start := if_pos rfl
  leaderLog _ hu := if_neg hu
  grant _ _ := rfl
  ack_start _ := if_pos rfl
  ack _ _ hu := if_neg hu
  quorum := hQ

/-! ## What no step undoes -/

/-- The second state extends the history of the first one. -/
structure Le (s s' : State α ε) : Prop where
  /-- Terms do not decrease. -/
  term : ∀ x, s.term x ≤ s'.term x
  /-- A vote is not taken back. -/
  grant : ∀ x u c, s.grant x u = some c → s'.grant x u = some c
  /-- The log at a vote is kept. -/
  grantLog : ∀ x u c, s.grant x u = some c → s'.grantLog x u = s.grantLog x u
  /-- A leader stays the leader of its term. -/
  leader : ∀ u c, s.leader u = some c → s'.leader u = some c
  /-- The log of a term is only extended. -/
  leaderLog : ∀ u L, s.leaderLog u = some L → ∃ L', s'.leaderLog u = some L' ∧ L <+: L'
  /-- Acknowledgements are not taken back. -/
  ack : ∀ x t, s.ack x t ≤ s'.ack x t
  /-- Past a term, its acknowledgements are final. -/
  ack_final : ∀ x t, t < s.term x → s'.ack x t = s.ack x t

omit [DecidableEq α] in
/-- A state extends itself. -/
theorem Le.refl (s : State α ε) : Le s s where
  term _ := Nat.le_refl _
  grant _ _ _ h := h
  grantLog _ _ _ _ := rfl
  leader _ _ h := h
  leaderLog _ L h := ⟨L, h, List.prefix_rfl⟩
  ack _ _ := Nat.le_refl _
  ack_final _ _ _ := rfl

omit [DecidableEq α] in
/-- Extending is transitive. -/
theorem Le.trans {s s' s'' : State α ε} (h : Le s s') (h' : Le s' s'') : Le s s'' where
  term x := (h.term x).trans (h'.term x)
  grant x u c hc := h'.grant x u c (h.grant x u c hc)
  grantLog x u c hc := (h'.grantLog x u c (h.grant x u c hc)).trans (h.grantLog x u c hc)
  leader u c hc := h'.leader u c (h.leader u c hc)
  leaderLog u L hL := by
    obtain ⟨L', hL', hp⟩ := h.leaderLog u L hL
    obtain ⟨L'', hL'', hp'⟩ := h'.leaderLog u L' hL'
    exact ⟨L'', hL'', hp.trans hp'⟩
  ack x t := (h.ack x t).trans (h'.ack x t)
  ack_final x t ht := by
    rw [h'.ack_final x t (Nat.lt_of_lt_of_le ht (h.term x)), h.ack_final x t ht]

section Monotone

variable {S} {s s' : State α ε} (h : Le s s')

omit [DecidableEq α]

include h

/-- What is chosen stays chosen. -/
theorem Chosen.mono {t n : ℕ} (hc : Chosen S s t n) : Chosen S s' t n := by
  obtain ⟨Q, hQ, hack⟩ := hc
  exact ⟨Q, hQ, fun x hx => (hack x hx).trans (h.ack x t)⟩

/-- What is lost stays lost. -/
theorem Lost.mono {t n : ℕ} (hl : Lost S s t n) : Lost S s' t n := by
  intro Q hQ
  obtain ⟨x, hx, ht, hn⟩ := hl Q hQ
  refine ⟨x, hx, Nat.lt_of_lt_of_le ht (h.term x), ?_⟩
  rw [h.ack_final x t ht]
  exact hn

/-- What is committed stays committed, and is committed for higher terms too. -/
theorem Committed.mono {t t' : ℕ} (ht : t ≤ t') {p : List ε} (hc : Committed S s t p) :
    Committed S s' t' p := by
  rcases hc with rfl | ⟨u, L, n, hu, hL, h1, hn, hterm, hch, hp⟩
  · exact Or.inl rfl
  · obtain ⟨L', hL', hLL'⟩ := h.leaderLog u L hL
    refine Or.inr ⟨u, L', n, hu.trans ht, hL', h1, hn.trans hLL'.length_le, ?_, hch.mono h, ?_⟩
    · rw [← termAt_of_isPrefix hLL' hn]
      exact hterm
    · rw [take_eq_of_isPrefix hLL' hn]
      exact hp

/-- A log that matches the leaders' logs still matches them when they grow. -/
theorem Matching.mono {l : List ε} (hm : Matching S s l) : Matching S s' l := by
  intro n h1 hn
  obtain ⟨L, hL, hp⟩ := hm n h1 hn
  obtain ⟨L', hL', hLL'⟩ := h.leaderLog _ L hL
  exact ⟨L', hL', hp.trans hLL'⟩

end Monotone

omit [DecidableEq α] in
/-- What is chosen is not lost. -/
theorem Chosen.not_lost {S : Setting α ε} {s : State α ε} {t n : ℕ} (h : Chosen S s t n) :
    ¬ Lost S s t n := by
  intro hl
  obtain ⟨Q, hQ, hack⟩ := h
  obtain ⟨x, hx, -, hn⟩ := hl Q hQ
  exact absurd (hack x hx) (by omega)

omit [DecidableEq α] in
/-- A part of what is committed is committed. -/
theorem Committed.of_isPrefix {S : Setting α ε} {s : State α ε} {t : ℕ} {p q : List ε}
    (h : Committed S s t q) (hp : p <+: q) : Committed S s t p := by
  rcases h with rfl | ⟨u, L, n, hu, hL, h1, hn, hterm, hch, hq⟩
  · exact Or.inl (List.prefix_nil.mp hp)
  · exact Or.inr ⟨u, L, n, hu, hL, h1, hn, hterm, hch, hp.trans hq⟩

omit [DecidableEq α] in
/-- A part of a matching log matches. -/
theorem Matching.of_isPrefix {S : Setting α ε} {s : State α ε} {l l' : List ε}
    (h : Matching S s l') (hp : l <+: l') : Matching S s l := by
  intro n h1 hn
  obtain ⟨L, hL, hn'⟩ := h n h1 (hn.trans hp.length_le)
  refine ⟨L, ?_, ?_⟩
  · rw [termAt_of_isPrefix hp hn]
    exact hL
  · rw [← take_eq_of_isPrefix hp hn]
    exact hn'

/-! ## What a step of another node leaves alone -/

/-- A node is in the same state, up to its acknowledgements. -/
structure SameAt (y : α) (s s' : State α ε) : Prop where
  /-- Its term is the same. -/
  term : s'.term y = s.term y
  /-- Its role is the same. -/
  role : s'.role y = s.role y
  /-- Its log is the same. -/
  log : s'.log y = s.log y
  /-- Its commit index is the same. -/
  commit : s'.commit y = s.commit y
  /-- Its votes are the same. -/
  grant : s'.grant y = s.grant y

omit [DecidableEq α] in
/-- Being in the same state is transitive. -/
theorem SameAt.trans {y : α} {s s' s'' : State α ε} (h : SameAt y s s') (h' : SameAt y s' s'') :
    SameAt y s s'' where
  term := h'.term.trans h.term
  role := h'.role.trans h.role
  log := h'.log.trans h.log
  commit := h'.commit.trans h.commit
  grant := h'.grant.trans h.grant

/-- A step of a node leaves the other nodes alone. -/
theorem Step.sameAt {S : Setting α ε} {s s' : State α ε} {x y : α} (h : Step S s x s')
    (hy : y ≠ x) : SameAt y s s' := by
  cases h <;> constructor <;>
    simp [State.adopt, State.stepDown, State.campaign, State.grantVote, State.elect, State.extend,
      State.accept, State.advance, hy]

/-- So does a run of steps of the node. -/
theorem Moves.sameAt {S : Setting α ε} {s s' : State α ε} {x y : α} (h : Moves S x s s')
    (hy : y ≠ x) : SameAt y s s' := by
  induction h with
  | refl => exact ⟨rfl, rfl, rfl, rfl, rfl⟩
  | tail _ hstep ih => exact ih.trans (hstep.sameAt hy)

end Consensus
