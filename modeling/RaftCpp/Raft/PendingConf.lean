import RaftCpp.Raft.Applied
import RaftCpp.Raft.Leadership

/-!
# Pending configuration changes

A leader accepts a configuration change only when the last one is applied, and none before it has applied
what it found in its log. It does not look through the log for this, but compares what is applied with one
index. The index can be ahead of the last configuration change, but not behind one that is not applied.
-/

namespace RaftCpp

open Outcome

/-- A configuration change above an index. -/
def Entry.isConfAbove (k : ℕ) (e : Entry) : Bool := decide (k < e.index) && e.type == .entryConfChange

namespace Raft

/-! ## The filter -/

/-- What the filter lets pass: the entries as they are stamped. -/
def acceptedConfs (applied lastIndex term i p : ℕ) (es : List Entry) : List Entry :=
  (stampEntries term (lastIndex + i + 1) (filterConfChanges applied lastIndex i p es).2).filter
    (·.type == .entryConfChange)

/-- What the filter does to the index and to the entries. The index moves only when what it stood for is
applied. Then it moves to the change that is accepted, and none follows as long as this is not applied. -/
theorem filterConfChanges_spec (applied lastIndex term : ℕ) : ∀ (i p : ℕ) (es : List Entry),
    (applied < p → acceptedConfs applied lastIndex term i p es = [] ∧
      (filterConfChanges applied lastIndex i p es).1 = p) ∧
    (p ≤ (filterConfChanges applied lastIndex i p es).1 ∨ p ≤ applied) ∧
    (∀ e ∈ acceptedConfs applied lastIndex term i p es,
      e.index ≤ (filterConfChanges applied lastIndex i p es).1 ∨ e.index ≤ applied) ∧
    (acceptedConfs applied lastIndex term i p es).countP (applied < ·.index) ≤ 1
  | i, p, [] => by simp [acceptedConfs, filterConfChanges, stampEntries]
  | i, p, e :: es => by
    unfold acceptedConfs filterConfChanges
    by_cases hconf : e.type = .entryConfChange
    · rw [if_pos hconf]
      by_cases hpending : p > applied
      · -- The change is replaced by an empty entry.
        rw [if_pos hpending]
        exact filterConfChanges_spec applied lastIndex term (i + 1) p es
      · rw [if_neg hpending]
        obtain ⟨hnone, hcovers, hall, hcount⟩ :=
          filterConfChanges_spec applied lastIndex term (i + 1) (lastIndex + i + 1) es
        unfold acceptedConfs at hnone hall hcount
        simp only [stampEntries, hconf, beq_self_eq_true, List.filter_cons_of_pos, List.forall_mem_cons,
          List.countP_cons, show lastIndex + (i + 1) + 1 = lastIndex + i + 1 + 1 by omega] at *
        refine ⟨fun h => absurd h hpending, Or.inr (by omega), ⟨hcovers, hall⟩, ?_⟩
        split_ifs with habove
        · rw [(hnone (of_decide_eq_true habove)).1]
          simp
        · exact hcount
    · rw [if_neg hconf]
      obtain ⟨hnone, hcovers, hall, hcount⟩ := filterConfChanges_spec applied lastIndex term (i + 1) p es
      unfold acceptedConfs at hnone hall hcount
      have hskip : (e.type == EntryType.entryConfChange) = false := by simpa using hconf
      simp only [stampEntries, hskip, Bool.false_eq_true, not_false_eq_true, List.filter_cons_of_neg]
      exact ⟨hnone, hcovers, hall, hcount⟩

/-- What is accepted from the first proposed entry on. -/
theorem filter_stampEntries (applied lastIndex term p : ℕ) (es : List Entry) :
    (stampEntries term (lastIndex + 1) (filterConfChanges applied lastIndex 0 p es).2).filter
        (·.type == .entryConfChange) = acceptedConfs applied lastIndex term 0 p es := rfl

end Raft

/-! ## The moves of a leader -/

namespace RaftLog

variable {l l' : RaftLog} {k : ℕ}

/-- The configuration changes above an index among the entries that are not persisted. -/
def confsAbove (l : RaftLog) (k : ℕ) : List Entry := l.unstable.entries.filter (·.isConfAbove k)

/-- No entry is above the last index. -/
theorem confsAbove_lastIndex (h : IndexedFrom l.unstable.offset l.unstable.entries) :
    l.confsAbove l.lastIndex = [] := by
  unfold confsAbove
  rw [List.filter_eq_nil_iff]
  intro e he habove
  obtain ⟨i, hi⟩ := List.mem_iff_getElem?.mp he
  have hlt := (List.getElem?_eq_some_iff.mp hi).1
  have hlast := lastIndex_of_ne_nil (List.ne_nil_of_mem he)
  have hidx := h i e hi
  simp only [Entry.isConfAbove, Bool.and_eq_true, decide_eq_true_eq] at habove
  omega

/-- Entries that follow the last index are added to those that are not persisted. -/
theorem append_end {es : List Entry} (hes : IndexedFrom (l.lastIndex + 1) es) :
    Ensures (l.append es) fun l' => l'.unstable.entries = l.unstable.entries ++ es ∧
      l'.applied = l.applied ∧ l.lastIndex ≤ l'.lastIndex := by
  unfold append
  cases es with
  | nil => exact Ensures.pure ⟨(List.append_nil _).symm, rfl, le_refl _⟩
  | cons e es =>
    have he : e.index = l.lastIndex + 1 := hes.head
    have hlast : ∀ u : Unstable, u.entries = l.unstable.entries ++ e :: es →
        l.lastIndex + 1 = u.offset + l.unstable.entries.length →
        l.lastIndex ≤ ({ l with unstable := u } : RaftLog).lastIndex := by
      intro u hu hoff
      have hne : u.entries ≠ [] := by
        rw [hu]
        exact List.append_ne_nil_of_right_ne_nil _ (List.cons_ne_nil _ _)
      have hend : ({ l with unstable := u } : RaftLog).lastIndex = u.offset + u.entries.length - 1 :=
        lastIndex_of_ne_nil hne
      rw [hend, hu, List.length_append, List.length_cons]
      omega
    refine Ensures.ite (fun _ => Ensures.error) fun _ => ?_
    refine Ensures.bind (P := fun u => u.entries = l.unstable.entries ++ e :: es ∧
      l.lastIndex + 1 = u.offset + l.unstable.entries.length) ?_ fun u hu =>
        Ensures.pure ⟨hu.1, rfl, hlast u hu.1 hu.2⟩
    unfold Unstable.truncateAndAppend
    dsimp only
    rw [he]
    refine Ensures.ite (fun hend => Ensures.pure ⟨rfl, hend⟩) fun hne => ?_
    -- Otherwise there is nothing that the entries could follow.
    have hnil : l.unstable.entries = [] := by
      by_contra hsome
      have hpos := List.length_pos_iff.mpr hsome
      have hlast := lastIndex_of_ne_nil hsome
      omega
    rw [hnil]
    refine Ensures.ite (fun _ => Ensures.pure ⟨rfl, rfl⟩) fun hgt => ?_
    refine Ensures.bind (l.unstable.slice_spec _ _) fun kept hkept => ?_
    have hle := hkept.2.2
    rw [hnil, List.length_nil] at hle
    omega

/-- The configuration changes above an index, when entries are added at the end. -/
theorem confsAbove_append_end {es : List Entry} (hes : IndexedFrom (l.lastIndex + 1) es)
    (hk : k ≤ l.lastIndex) (hentries : l'.unstable.entries = l.unstable.entries ++ es) :
    l'.confsAbove k = l.confsAbove k ++ es.filter (·.type == .entryConfChange) := by
  unfold confsAbove
  rw [hentries, List.filter_append]
  congr 1
  refine List.filter_congr fun e he => ?_
  obtain ⟨i, hi⟩ := List.mem_iff_getElem?.mp he
  have hidx := hes i e hi
  unfold Entry.isConfAbove
  rw [decide_eq_true (by omega : k < e.index), Bool.true_and]

end RaftLog

/-- What a leader has done about configuration changes since it was in the state `s`. -/
structure Raft.HoldsBack (s r : Raft) : Prop where
  /-- What is applied stays. -/
  applied : r.raftLog.applied = s.raftLog.applied
  /-- The log does not get shorter. -/
  lastIndex_le : s.raftLog.lastIndex ≤ r.raftLog.lastIndex
  /-- The index moves back only when what it stood for is applied. -/
  covers : s.pendingConfIndex ≤ r.pendingConfIndex ∨ s.pendingConfIndex ≤ s.raftLog.applied
  /-- So it is before a configuration change is appended. -/
  held : r.raftLog.confsAbove s.raftLog.lastIndex = [] ∨ s.pendingConfIndex ≤ s.raftLog.applied
  /-- The index stands for what was appended. -/
  below : ∀ e ∈ r.raftLog.confsAbove s.raftLog.lastIndex,
    e.index ≤ r.pendingConfIndex ∨ e.index ≤ s.raftLog.applied
  /-- At most one configuration change was appended that is not applied. -/
  single : (r.raftLog.confsAbove s.raftLog.lastIndex).countP (s.raftLog.applied < ·.index) ≤ 1

namespace Raft.HoldsBack

variable {c : Cause} {b s r r' : Raft}

/-- Nothing was done. -/
theorem refl (h : IndexedFrom r.raftLog.unstable.offset r.raftLog.unstable.entries) :
    r.HoldsBack r := by
  have hnone := r.raftLog.confsAbove_lastIndex h
  constructor
  · rfl
  · exact le_refl _
  · exact Or.inl (le_refl _)
  · exact Or.inl hnone
  · rw [hnone]
    exact nofun
  · rw [hnone]
    exact Nat.zero_le _

/-- Something else is done. -/
theorem congr (h : b.HoldsBack r) (happlied : r'.raftLog.applied = r.raftLog.applied)
    (hunstable : r'.raftLog.unstable = r.raftLog.unstable) (hstorage : r'.raftLog.storage = r.raftLog.storage)
    (hpending : r'.pendingConfIndex = r.pendingConfIndex) : b.HoldsBack r' := by
  have hlast : r'.raftLog.lastIndex = r.raftLog.lastIndex := by
    unfold RaftLog.lastIndex
    rw [hunstable, hstorage]
  have hconfs : ∀ k, r'.raftLog.confsAbove k = r.raftLog.confsAbove k := fun k => by
    unfold RaftLog.confsAbove
    rw [hunstable]
  constructor
  · rw [happlied, h.applied]
  · rw [hlast]
    exact h.lastIndex_le
  · rw [hpending]
    exact h.covers
  · rw [hconfs]
    exact h.held
  · rw [hconfs, hpending]
    exact h.below
  · rw [hconfs]
    exact h.single

/-- Only the reads and the messages change. -/
theorem of_onlyReads (h : b.HoldsBack r) (hreads : r.OnlyReads r') : b.HoldsBack r' := by
  obtain ⟨_, _, _, rfl⟩ := hreads
  exact h.congr rfl rfl rfl rfl

/-- A move of a leader, which filters and appends the entries of a proposal only if it began in the state
`b`. -/
theorem move (h : b.HoldsBack r) (hm : LeaderMove c s r r')
    (hb : b = s ∨ ∀ m, c = .step m → m.type ≠ .msgProp)
    (hnone : b.raftLog.confsAbove b.raftLog.lastIndex = []) : b.HoldsBack r' := by
  cases hm with
  | send x hx hne hsend =>
    obtain ⟨rfl, -⟩ := send_eq hsend
    exact h.congr rfl rfl rfl rfl
  | peer y p p' hget hp =>
    unfold putProgress
    split_ifs
    · exact h.congr rfl rfl rfl rfl
    · exact h.congr rfl rfl rfl rfl
    · exact h
  | @commit l mci hmci hcommit =>
    obtain ⟨hfalse, -⟩ | ⟨-, hl⟩ := RaftLog.maybeCommit_cases mci r.term _ hcommit
    · cases hfalse
    · have hl : r.raftLog.commitTo mci = .ok l := hl
      unfold RaftLog.commitTo at hl
      split_ifs at hl
      · cases hl
        exact h.congr rfl rfl rfl rfl
      · cases hl
        exact h.congr rfl rfl rfl rfl
  | filter m hc htype =>
    obtain ⟨-, hcovers, -, -⟩ := filterConfChanges_spec r.raftLog.applied r.raftLog.lastIndex r.term 0
      r.pendingConfIndex m.entries
    have happlied := h.applied
    constructor
    · exact happlied
    · exact h.lastIndex_le
    · have := h.covers
      show b.pendingConfIndex ≤ (filterConfChanges _ _ _ _ _).1 ∨ _
      omega
    · exact h.held
    · intro e he
      have := h.below e he
      show e.index ≤ (filterConfChanges _ _ _ _ _).1 ∨ _
      omega
    · exact h.single
  | @append l es size hlead hes happ =>
    have hidx := (stampEntries_spec r.term (r.raftLog.lastIndex + 1) es).1
    obtain ⟨hentries, happlied, hlast⟩ := RaftLog.append_end hidx l happ
    have hconfs := RaftLog.confsAbove_append_end hidx h.lastIndex_le hentries
    obtain rfl | ⟨m, hc, htype, hlog, hfilter⟩ := hes
    · -- The empty entry is no configuration change.
      have hsame : l.confsAbove b.raftLog.lastIndex = r.raftLog.confsAbove b.raftLog.lastIndex := by
        rw [hconfs]
        exact List.append_nil _
      constructor
      · exact happlied.trans h.applied
      · exact h.lastIndex_le.trans hlast
      · exact h.covers
      · exact hsame ▸ h.held
      · exact hsame ▸ h.below
      · exact hsame ▸ h.single
    · obtain rfl : b = s := hb.resolve_right fun hnot => hnot m hc htype
      obtain ⟨hnothing, hcovers, hbelow, hsingle⟩ := filterConfChanges_spec b.raftLog.applied
        b.raftLog.lastIndex r.term 0 b.pendingConfIndex m.entries
      have haccepted : l.confsAbove b.raftLog.lastIndex =
          acceptedConfs b.raftLog.applied b.raftLog.lastIndex r.term 0 b.pendingConfIndex m.entries := by
        rw [hconfs, hlog, hnone, List.nil_append, ← filter_stampEntries, hfilter]
      rw [hfilter] at hcovers hbelow hnothing
      constructor
      · exact happlied.trans h.applied
      · exact h.lastIndex_le.trans hlast
      · exact h.covers
      · show l.confsAbove b.raftLog.lastIndex = [] ∨ _
        rw [haccepted]
        by_cases hlt : b.raftLog.applied < b.pendingConfIndex
        · exact Or.inl (hnothing hlt).1
        · exact Or.inr (not_lt.mp hlt)
      · show ∀ e ∈ l.confsAbove b.raftLog.lastIndex, _
        rw [haccepted]
        exact hbelow
      · show (l.confsAbove b.raftLog.lastIndex).countP _ ≤ 1
        rw [haccepted]
        exact hsingle
  | serve m hc htype hnow hserve => exact h.of_onlyReads (onlyReads_serve m hnow _ hserve)
  | confirm m hc htype hknown hack => exact h.of_onlyReads (onlyReads_ackRead m _ hack)
  | _ => exact h.congr rfl rfl rfl rfl

/-- Moves of a leader. -/
theorem course (h : LeaderCourse c s b r) (hb : b = s ∨ ∀ m, c = .step m → m.type ≠ .msgProp)
    (hidx : IndexedFrom b.raftLog.unstable.offset b.raftLog.unstable.entries) : b.HoldsBack r := by
  induction h with
  | refl => exact .refl hidx
  | tail _ hmove ih => exact ih.move hmove hb (b.raftLog.confsAbove_lastIndex hidx)

end Raft.HoldsBack

/-! ## Leaderships -/

namespace Host

/-- The configuration changes that are appended in the step. -/
def appendedConfs (t : Turn Host HostEvent) : List Entry :=
  t.after.log.confsAbove t.before.log.lastIndex

variable {h h' : Host} {e : HostEvent}

/-- What a leader does about configuration changes in a step. -/
theorem holdsBack_handle (ha : h.Aligned) (hh : h.handle e = .ok h') (hc : e.cause ≠ none)
    (hl : h.LeadsTerm h'.node.raft.term) (hl' : h'.node.raft.state = .leader) :
    h.node.raft.HoldsBack h'.node.raft := by
  have hidx := ha.log.unstable_indexed
  by_cases hconf : ∃ cc, e = .applyConfChange cc
  · obtain ⟨cc, rfl⟩ := hconf
    obtain ⟨p, hp, hh⟩ := bind_eq_ok.mp hh
    cases hh
    obtain ⟨⟨r₁, ⟨⟨prs, lprs, b, rfl⟩, -⟩, hleads⟩, -⟩ :=
      h.node.leads_applyConfChange (s := h.node.raft) cc p hp
    have hback := Raft.HoldsBack.course hleads (Or.inr nofun) hidx
    exact ⟨hback.applied, hback.lastIndex_le, hback.covers, hback.held, hback.below, hback.single⟩
  · cases hcause : e.cause with
    | none => exact absurd hcause hc
    | some c =>
      have hne : c ≠ .confChange := by
        rintro rfl
        cases e with
        | applyConfChange cc => exact hconf ⟨cc, rfl⟩
        | _ => cases hcause
      exact Raft.HoldsBack.course (leads_handle hcause hne hh hl.1 hl' hl.2.symm) (Or.inl rfl) hidx

/-- What a new leader does about configuration changes in the step that elects it. -/
theorem holdsBack_elect (ha : h.Aligned) (hh : h.handle e = .ok h') (ht : TakesLead ⟨h, e, h'⟩) :
    ({ h.node.raft with pendingConfIndex := h.log.lastIndex } : Raft).HoldsBack h'.node.raft := by
  obtain ⟨c, -, hwork, r₁, p, -, hlog, -, -, hleads⟩ := elects hh ht
  have hlog₁ : (r₁.elected p).raftLog = h.log := (r₁.reset_raftLog _).trans hlog
  have hpending : (r₁.elected p).pendingConfIndex = h.log.lastIndex := congrArg RaftLog.lastIndex hlog₁
  have hback := Raft.HoldsBack.course hleads (Or.inr fun m hm htype => hwork m hm (Or.inl htype)) (by
    rw [hlog₁]
    exact ha.log.unstable_indexed)
  obtain ⟨h₁, h₂, h₃, h₄, h₅, h₆⟩ := hback
  rw [hlog₁] at h₁ h₂ h₃ h₄ h₅ h₆
  rw [hpending] at h₃ h₄
  exact ⟨h₁, h₂, h₃, h₄, h₅, h₆⟩

/-- What the application does for itself appends nothing, and leaves the index alone. -/
theorem appendedConfs_of_cause_none (ha : h.Aligned) (hh : h.handle e = .ok h') (hc : e.cause = none) :
    appendedConfs ⟨h, e, h'⟩ = [] ∧ h'.node.raft.pendingConfIndex = h.node.raft.pendingConfIndex := by
  have hnone := h.log.confsAbove_lastIndex ha.log.unstable_indexed
  have hless : (∃ n, h'.log.unstable.entries = h.log.unstable.entries.drop n) →
      appendedConfs ⟨h, e, h'⟩ = [] := by
    rintro ⟨n, hdrop⟩
    unfold appendedConfs RaftLog.confsAbove at *
    rw [List.filter_eq_nil_iff] at hnone ⊢
    intro x hx
    exact hnone x (List.drop_subset n _ (hdrop ▸ hx))
  obtain ⟨l, msgs, readStates, size, heq, -⟩ := (handled hh).frame hc
  refine ⟨?_, by rw [heq]⟩
  cases handled hh with
  | moved hc' _ => rw [hc] at hc'; cases hc'
  | nothing _ => exact hnone
  | ready _ hn =>
    obtain ⟨-, -, -, -, -, size, rfl⟩ := RawNode.ready_eq hn
    exact hnone
  | @advance rd hsome =>
    have hlog : ({ node := h.node.advance rd } : Host).log = h.log.advance rd := rfl
    apply hless
    rw [hlog, RaftLog.advance_eq]
    have hstab : ∃ n, (RaftLog.stabilized h.log.unstable rd).entries = h.log.unstable.entries.drop n := by
      unfold RaftLog.stabilized
      cases rd.entries.getLast? with
      | none => exact ⟨0, rfl⟩
      | some e =>
        dsimp only
        unfold Unstable.stableTo
        split_ifs
        · exact ⟨_, rfl⟩
        · exact ⟨0, rfl⟩
    dsimp only
    split_ifs
    · exact hstab
    · rw [(RaftLog.stableSnapTo_eq _ _).1]
      exact hstab
  | _ => exact hnone

end Host

/-- What a leader has appended since its election, with the last index of its log at that time. -/
structure Raft.PendingConfs (acc : List Entry) (k : ℕ) (r : Raft) : Prop where
  /-- The index stands for the log of the election. -/
  covers : k ≤ r.pendingConfIndex ∨ k ≤ r.raftLog.applied
  /-- It stands for every configuration change that was appended. -/
  below : ∀ e ∈ acc, e.index ≤ r.pendingConfIndex ∨ e.index ≤ r.raftLog.applied
  /-- At most one of them is not applied. -/
  single : acc.countP (r.raftLog.applied < ·.index) ≤ 1

namespace Raft.PendingConfs

variable {acc : List Entry} {k : ℕ} {r r' : Raft}

/-- The leader holds back what it has to. -/
theorem holdsBack (h : r.PendingConfs acc k) (hb : r.HoldsBack r') :
    r'.PendingConfs (acc ++ r'.raftLog.confsAbove r.raftLog.lastIndex) k ∧
      (r'.raftLog.confsAbove r.raftLog.lastIndex ≠ [] → k ≤ r.raftLog.applied) := by
  have happlied := hb.applied
  have hcovers := hb.covers
  refine ⟨⟨?_, fun e he => ?_, ?_⟩, fun hne => ?_⟩
  · have := h.covers
    omega
  · rw [happlied]
    obtain he | he := List.mem_append.mp he
    · have := h.below e he
      omega
    · exact hb.below e he
  · rw [happlied, List.countP_append]
    obtain hnil | hle := hb.held
    · rw [hnil]
      exact h.single
    · -- What was appended before is applied.
      have hzero : acc.countP (r.raftLog.applied < ·.index) = 0 := by
        rw [List.countP_eq_zero]
        intro e he habove
        have := h.below e he
        have := of_decide_eq_true habove
        omega
      calc acc.countP (r.raftLog.applied < ·.index) +
            (r'.raftLog.confsAbove r.raftLog.lastIndex).countP (r.raftLog.applied < ·.index)
          = (r'.raftLog.confsAbove r.raftLog.lastIndex).countP (r.raftLog.applied < ·.index) := by
            rw [hzero, Nat.zero_add]
        _ ≤ 1 := hb.single
  · have hle := hb.held.resolve_left hne
    have := h.covers
    omega

/-- More is applied. -/
theorem mono (h : r.PendingConfs acc k) (hpending : r'.pendingConfIndex = r.pendingConfIndex)
    (hle : r.raftLog.applied ≤ r'.raftLog.applied) : r'.PendingConfs acc k := by
  constructor
  · rw [hpending]
    exact h.covers.imp_right fun hk => hk.trans hle
  · intro e he
    rw [hpending]
    exact (h.below e he).imp_right fun hk => hk.trans hle
  · refine le_trans (List.countP_mono_left fun e _ habove => ?_) h.single
    exact decide_eq_true (hle.trans_lt (of_decide_eq_true habove))

end Raft.PendingConfs

namespace Host

variable {h h' h₀ : Host} {e : HostEvent} {acc : List Entry} {k : ℕ}

/-- A step of a leader. -/
theorem pendingConfs_handle (ha : h.Aligned) (hh : h.handle e = .ok h') (hcons : e.Consecutive)
    (hl : h.LeadsTerm h'.node.raft.term) (hl' : h'.node.raft.state = .leader)
    (hp : h.node.raft.PendingConfs acc k) :
    h'.node.raft.PendingConfs (acc ++ appendedConfs ⟨h, e, h'⟩) k ∧
      (appendedConfs ⟨h, e, h'⟩ ≠ [] → k ≤ h.log.applied) := by
  by_cases hc : e.cause = none
  · obtain ⟨hnone, hpending⟩ := appendedConfs_of_cause_none ha hh hc
    rw [hnone, List.append_nil]
    exact ⟨hp.mono hpending (ha.handle hh hcons).2, fun hne => absurd rfl hne⟩
  · exact hp.holdsBack (holdsBack_handle ha hh hc hl hl')

/-- A run of a leader. -/
theorem pendingConfs_run {term : ℕ} {ts : List (Turn Host HostEvent)} (hrun : Run h₀ ts h) :
    ∀ {acc : List Entry}, h₀.Aligned → h₀.LeadsTerm term → h₀.node.raft.PendingConfs acc k →
      (∀ t ∈ ts, t.event.Consecutive ∧ t.after.LeadsTerm term) →
      h.node.raft.PendingConfs (acc ++ ts.flatMap appendedConfs) k ∧
        ∀ t ∈ ts, appendedConfs t ≠ [] → k ≤ t.before.log.applied := by
  induction hrun with
  | nil _ =>
    intro acc _ _ hp _
    rw [List.flatMap_nil, List.append_nil]
    exact ⟨hp, fun t ht => absurd ht List.not_mem_nil⟩
  | cons hstep _ ih =>
    intro acc ha hl hp hall
    obtain ⟨⟨hcons, hl₂⟩, hrest⟩ := List.forall_mem_cons.mp hall
    obtain ⟨hp₂, hguard⟩ := pendingConfs_handle ha hstep hcons (by rw [hl₂.2]; exact hl) hl₂.1 hp
    obtain ⟨hp₃, hguards⟩ := ih (ha.handle hstep hcons).1 hl₂ hp₂ hrest
    rw [List.flatMap_cons, ← List.append_assoc]
    exact ⟨hp₃, List.forall_mem_cons.mpr ⟨hguard, hguards⟩⟩

end Host

/-- At most one configuration change that a leader has appended is pending: in every run of a node from its
start, on consecutive append messages, and at every time of a leadership, at most one of the configuration
changes that were appended since the election is above what is applied. And none was appended while an entry
was not applied that was in the log at the election. -/
theorem single_pending_conf {c : Config} {h₀ h : Host} {pre ts : List (Turn Host HostEvent)}
    {election : Turn Host HostEvent} (hb : Host.Built c h₀) (hs : c.storage.Consistent)
    (happ : c.AppliedFits) (hrun : Host.Run h₀ (pre ++ election :: ts) h)
    (hcons : ∀ t ∈ pre ++ election :: ts, t.event.Consecutive) (helect : Host.TakesLead election)
    (hleads : ∀ t ∈ ts, t.after.LeadsTerm election.after.node.raft.term) :
    ((election :: ts).flatMap Host.appendedConfs).countP (h.log.applied < ·.index) ≤ 1 ∧
      ∀ t ∈ election :: ts, Host.appendedConfs t ≠ [] →
        election.before.log.lastIndex ≤ t.before.log.applied := by
  obtain ⟨h₁, hpre, hrest⟩ := Trace.of_append hrun
  have hstart := (hpre.invariant (P := Host.Aligned) (Q := fun t => t.event.Consecutive)
    (fun t ht hq ha => (ha.handle ht hq).1)
    (fun t ht => hcons t (List.mem_append_left _ ht)) (hb.aligned hs happ)).2
  have hrestcons := fun t ht => hcons t (List.mem_append_right pre ht)
  cases hrest with
  | cons hstep hts =>
    have hecons := hrestcons _ List.mem_cons_self
    -- Before its election the leader has appended nothing.
    have hzero : ({ h₁.node.raft with pendingConfIndex := h₁.log.lastIndex } : Raft).PendingConfs []
        h₁.log.lastIndex := ⟨Or.inl (le_refl _), nofun, Nat.zero_le _⟩
    obtain ⟨hp, hguard⟩ := hzero.holdsBack (Host.holdsBack_elect hstart hstep helect)
    obtain ⟨hp', hguards⟩ := Host.pendingConfs_run hts (hstart.handle hstep hecons).1
      ⟨helect.1, rfl⟩ hp fun t ht => ⟨hrestcons t (List.mem_cons_of_mem _ ht), hleads t ht⟩
    exact ⟨hp'.single, List.forall_mem_cons.mpr ⟨hguard, hguards⟩⟩

/-- A voter that is alone is elected. -/
def electedAlone : Turn Host HostEvent :=
  ⟨Host.started soloConfig, .call { type := .msgHup },
    (Host.started soloConfig).next (.call { type := .msgHup })⟩

/-- The proposal of two configuration changes and an entry between them. -/
def confProposal : HostEvent :=
  .call { type := .msgProp, fromId := 1, entries :=
    [{ type := .entryConfChange }, {}, { type := .entryConfChange }] }

/-- The leader gets the proposal, and again after a round. -/
def proposesConfs : List (Turn Host HostEvent) × Host :=
  Trace.run Host.handle electedAlone.after [confProposal, .ready, .persist, .advance, confProposal]

/-- The run of the leader from its start. -/
theorem proposesConfs_run : Host.Run (Host.started soloConfig) ([] ++ electedAlone :: proposesConfs.1)
    proposesConfs.2 :=
  .cons (Host.handle_next (by decide +kernel)) (Trace.of_run _ _ _)

/-- The leader accepts the first configuration change of each proposal. -/
theorem single_pending_conf_proposesConfs :
    ((electedAlone :: proposesConfs.1).flatMap Host.appendedConfs).length = 2 ∧
      ((electedAlone :: proposesConfs.1).flatMap Host.appendedConfs).countP
        (proposesConfs.2.log.applied < ·.index) ≤ 1 ∧
      ∀ t ∈ electedAlone :: proposesConfs.1, Host.appendedConfs t ≠ [] →
        electedAlone.before.log.lastIndex ≤ t.before.log.applied := by
  have hbuilt : Host.Built soloConfig (Host.started soloConfig) :=
    Host.boot_built (Host.boot_started (by decide +kernel))
  exact ⟨by decide +kernel, single_pending_conf hbuilt MemoryStorage.empty_consistent (Or.inl rfl)
    proposesConfs_run (by decide +kernel) (by decide +kernel) (by decide +kernel)⟩

end RaftCpp
