import RaftCpp.Raft.Delivery
import RaftCpp.Raft.Leadership

/-!
# The bounds of a leader's progress

What a leader knows of a peer is below the next entry that it sends to the peer, and this is at most the one
that follows its log. Outside of the replicating state a rejection is taken for an answer to the last probe
when its index says so. A rejection that was overtaken by an acknowledgement can have this index as well, and
then the next entry falls back to what the peer holds, or behind it.
-/

namespace RaftCpp

open Outcome

/-! ## The progress of a peer -/

namespace Progress

variable {p : Progress} {last last' : ℕ}

/-- The next entry is above what the peer holds, and at most follows the log. -/
def Within (p : Progress) (last : ℕ) : Prop := p.matched < p.next ∧ p.next ≤ last + 1

instance (p : Progress) (last : ℕ) : Decidable (p.Within last) := inferInstanceAs (Decidable (_ ∧ _))

/-- The next entry is where it has to be, and a snapshot on its way is not ahead of the log. -/
structure Fits (p : Progress) (last : ℕ) : Prop where
  /-- The next entry. -/
  within : p.Within last
  /-- The snapshot. -/
  pending_le : p.state = .snapshot → p.pendingSnapshot ≤ last

/-- The peer is probed or gets a snapshot, the rejection has the index of the last probe, and it contradicts
what the peer is known to hold. -/
def FalselyRejected (p : Progress) (rejected last : ℕ) : Prop :=
  p.state ≠ .replicate ∧ sub64 p.next 1 = rejected ∧ 0 < p.matched ∧
    (rejected ≤ p.matched ∨ last < p.matched)

instance (p : Progress) (rejected last : ℕ) : Decidable (p.FalselyRejected rejected last) :=
  inferInstanceAs (Decidable (_ ∧ _))

/-- A rejection keeps the next entry where it has to be unless it contradicts what the peer is known to
hold. -/
theorem within_maybeDecreasesTo (h : p.Within last) (rejected hint : ℕ) :
    (p.maybeDecreasesTo rejected hint).2.Within last ↔ ¬p.FalselyRejected rejected hint := by
  obtain ⟨hlt, hle⟩ := h
  have hsub : sub64 p.next 1 = p.next - 1 := sub64_of_le (by omega)
  unfold maybeDecreasesTo FalselyRejected Within
  by_cases hstate : p.state = .replicate
  · rw [if_pos hstate]
    split_ifs
    · simp [hstate, hlt, hle]
    · simp only [hstate, ne_eq, not_true_eq_false, false_and, not_false_eq_true, iff_true]
      omega
  · rw [if_neg hstate]
    by_cases hprobe : sub64 p.next 1 = rejected
    · rw [if_neg (not_not.mpr hprobe)]
      simp only [hstate, hprobe, ne_eq, not_false_eq_true, true_and]
      rw [hsub] at hprobe
      split_ifs <;> omega
    · rw [if_pos hprobe]
      simp [hprobe, hlt, hle]

namespace Fits

/-- The log grows. -/
theorem mono (h : p.Fits last) (hle : last ≤ last') : p.Fits last' := by
  obtain ⟨⟨hlt, hnext⟩, hpending⟩ := h
  exact ⟨⟨hlt, by omega⟩, fun hs => (hpending hs).trans hle⟩

/-- Nothing that matters changes. -/
theorem congr {q : Progress} (h : p.Fits last) (hmatched : q.matched = p.matched) (hnext : q.next = p.next)
    (hstate : q.state = p.state) (hpending : q.pendingSnapshot = p.pendingSnapshot) : q.Fits last := by
  constructor
  · unfold Within
    rw [hmatched, hnext]
    exact h.within
  · rw [hstate, hpending]
    exact h.pending_le

/-- The peer holds what the log has at most. -/
theorem matched_le (h : p.Fits last) : p.matched ≤ last := by
  obtain ⟨⟨hlt, hle⟩, -⟩ := h
  omega

/-- `become_probe`. -/
theorem becomeProbe (h : p.Fits last) : p.becomeProbe.Fits last := by
  have hle := h.matched_le
  unfold Progress.becomeProbe
  split_ifs with hstate
  · have hpending := h.pending_le hstate
    refine ⟨⟨?_, ?_⟩, nofun⟩
    · exact Nat.lt_of_lt_of_le (Nat.lt_succ_self _) (le_max_left _ _)
    · exact max_le (Nat.succ_le_succ hle) (Nat.succ_le_succ hpending)
  · exact ⟨⟨Nat.lt_succ_self _, Nat.succ_le_succ hle⟩, nofun⟩

/-- `become_replicate`. -/
theorem becomeReplicate (h : p.Fits last) : p.becomeReplicate.Fits last :=
  ⟨⟨Nat.lt_succ_self _, Nat.succ_le_succ h.matched_le⟩, nofun⟩

/-- `become_snapshot`. -/
theorem becomeSnapshot (h : p.Fits last) {index : ℕ} (hle : index ≤ last) :
    (p.becomeSnapshot index).Fits last := ⟨h.within, fun _ => hle⟩

/-- `maybe_update`. -/
theorem maybeUpdate (h : p.Fits last) {n : ℕ} (hle : n ≤ last) : (p.maybeUpdate n).2.Fits last := by
  obtain ⟨⟨hlt, hnext⟩, hpending⟩ := h
  obtain ⟨hmatched', hnext', hstate', hpending'⟩ := p.maybeUpdate_spec n
  constructor
  · unfold Within
    rw [hmatched', hnext']
    omega
  · rw [hstate', hpending']
    exact hpending

/-- `optimistic_update`. -/
theorem optimisticUpdate (h : p.Fits last) {n : ℕ} (hnext : p.next ≤ n) (hle : n ≤ last) :
    (p.optimisticUpdate n).Fits last := by
  obtain ⟨⟨hlt, -⟩, hpending⟩ := h
  exact ⟨⟨by unfold Progress.optimisticUpdate; dsimp only; omega, Nat.succ_le_succ hle⟩, hpending⟩

/-- `maybe_decreases_to`. -/
theorem maybeDecreasesTo (h : p.Fits last) {rejected hint : ℕ} (hnot : ¬p.FalselyRejected rejected hint) :
    (p.maybeDecreasesTo rejected hint).2.Fits last := by
  constructor
  · exact (within_maybeDecreasesTo h.within rejected hint).mpr hnot
  · have hpending := h.pending_le
    unfold Progress.maybeDecreasesTo
    split_ifs <;> exact hpending

end Fits

end Progress

/-! ## The log -/

namespace RaftLog.Sound

variable {l l' : RaftLog}

/-- The entries of a range carry the indices of the range. -/
theorem mem_range (h : l.Sound) {low high : ℕ} (hdummy : low < l.unstable.offset → l.storage.dummy.index < low)
    {e : Entry} (he : e ∈ l.range low high) : low ≤ e.index ∧ e.index < high := by
  unfold range at he
  obtain he | he := List.mem_append.mp he
  · obtain ⟨i, hi⟩ := List.mem_iff_getElem?.mp he
    rw [List.getElem?_take] at hi
    split_ifs at hi with hlt
    rw [List.getElem?_drop] at hi
    have hidx := h.storage_indexed _ e hi
    have := hdummy (by omega)
    omega
  · obtain ⟨i, hi⟩ := List.mem_iff_getElem?.mp he
    rw [List.getElem?_take] at hi
    split_ifs at hi with hlt
    rw [List.getElem?_drop] at hi
    have hidx := h.unstable_indexed _ e hi
    omega

/-- The entries to send lie between the next one and the last one. -/
theorem mem_entries (h : l.Sound) {next maxSize : ℕ} {es : List Entry}
    (hes : l.entries next maxSize = .ok (.ok, es)) {e : Entry} (he : e ∈ es) :
    next ≤ e.index ∧ e.index ≤ l.lastIndex := by
  unfold entries at hes
  split_ifs at hes with hgt
  · cases hes
    cases he
  · obtain ⟨⟨hpre, -⟩, hdummy⟩ := l.slice_prefix _ _ _ _ hes rfl
    have hrange := h.mem_range (hdummy (by omega)) (hpre.subset he)
    omega

/-- The snapshot to send is not ahead of the log. -/
theorem snapshot_index_le (h : l.Sound) : l.snapshot.metadata.index ≤ l.lastIndex := by
  refine le_trans ?_ h.committed_le
  unfold snapshot
  cases hs : l.unstable.snapshot with
  | none => exact h.snapshot_le
  | some s => exact h.pending_committed s hs

/-- Where the unstable part ends at the same index, so does the log. -/
theorem lastIndex_congr (h : l.Sound) (h' : l'.Sound) (hend : l'.unstable.offset + l'.unstable.entries.length =
    l.unstable.offset + l.unstable.entries.length) : l'.lastIndex = l.lastIndex := by
  have hlast := h.lastIndex_succ
  have hlast' := h'.lastIndex_succ
  omega

/-- Entries that follow the log do not shorten it. -/
theorem lastIndex_append (h : l.Sound) {es : List Entry} (hes : IndexedFrom (l.lastIndex + 1) es) :
    Ensures (l.append es) fun l' => l.lastIndex ≤ l'.lastIndex := by
  intro l' hl'
  rw [RaftLog.append_at_end h hes] at hl'
  have heq := Except.ok.inj hl'
  have hlast := h.lastIndex_succ
  have hlast' : l'.lastIndex + 1 = l'.unstable.offset + l'.unstable.entries.length :=
    (heq ▸ h.edits (l.edits_append hes)).lastIndex_succ
  have hoff : l'.unstable.offset = l.unstable.offset := by
    rw [← heq]
  have hlen : l'.unstable.entries.length = l.unstable.entries.length + es.length := by
    rw [← heq]
    exact List.length_append
  omega

end RaftLog.Sound

variable {c : Cause} {s r r' : Raft}

/-- A leader does not shorten its log. -/
theorem LeaderMove.lastIndex_le (h : LeaderMove c s r r') (hs : r.raftLog.Sound) :
    r.raftLog.lastIndex ≤ r'.raftLog.lastIndex := by
  have hreads : ∀ {r₁}, r.OnlyReads r₁ → r.raftLog.lastIndex ≤ r₁.raftLog.lastIndex := by
    rintro _ ⟨_, _, _, rfl⟩
    exact le_refl _
  cases h with
  | send x hx hne h =>
    obtain ⟨rfl, -⟩ := Raft.send_eq h
    exact le_refl _
  | peer y p p' hget h =>
    have hlog : (r.putProgress y p').raftLog = r.raftLog :=
      congrArg Outline.raftLog (r.putProgress_outline y p')
    rw [hlog]
  | @commit l mci hmci h =>
    obtain ⟨hfalse, -⟩ | ⟨-, hl⟩ := RaftLog.maybeCommit_cases mci r.term _ h
    · cases hfalse
    · have hl : r.raftLog.commitTo mci = .ok l := hl
      unfold RaftLog.commitTo at hl
      split_ifs at hl
      · cases hl
        exact le_refl _
      · cases hl
        exact le_refl _
  | append es size hlead hes h =>
    have hidx := (Raft.stampEntries_spec r.term (r.raftLog.lastIndex + 1) es).1
    exact hs.lastIndex_append hidx _ h
  | serve m hc htype hnow h => exact hreads (Raft.onlyReads_serve m hnow _ h)
  | confirm m hc htype hknown h => exact hreads (Raft.onlyReads_ackRead m _ h)
  | _ => exact le_refl _

/-! ## The moves of a leader -/

namespace Raft

/-- The progress of every peer fits the log. -/
def Fits (r : Raft) : Prop := ∀ y p, r.getProgress y = some p → p.Fits r.raftLog.lastIndex

/-- The answer to an append acknowledges no more than the log has. -/
def Holds (r : Raft) (m : Message) : Prop := m.reject = false → m.index ≤ r.raftLog.lastIndex

/-- The answer to an append is a rejection that contradicts what its sender is known to hold. -/
def MisledBy (r : Raft) (m : Message) : Prop :=
  m.reject = true ∧ ∃ p ∈ r.getProgress m.fromId, p.FalselyRejected m.index m.rejectHint

instance (r : Raft) (m : Message) : Decidable (r.Holds m) := inferInstanceAs (Decidable (_ → _))

instance (r : Raft) (m : Message) : Decidable (r.MisledBy m) := inferInstanceAs (Decidable (_ ∧ _))

/-- What a node that is made to act may take for an answer. -/
def Answered (c : Cause) (s : Raft) : Prop :=
  ∀ m, c = .step m → m.type = .msgAppResp → s.Holds m ∧ ¬s.MisledBy m

/-- Where neither the log nor a progress changes, all fit. -/
theorem Fits.congr (h : r.Fits) (hlast : r'.raftLog.lastIndex = r.raftLog.lastIndex)
    (hprs : r'.prs = r.prs) (hlearners : r'.learnerPrs = r.learnerPrs) : r'.Fits := by
  intro y p hp
  unfold getProgress at hp
  rw [hprs, hlearners] at hp
  rw [hlast]
  exact h y p hp

end Raft

/-- A change of the progress of a peer. -/
theorem PeerMove.fits {y : ℕ} {p p' : Progress} (h : PeerMove c s r y p p') (hs : r.raftLog.Sound)
    (hle : s.raftLog.lastIndex ≤ r.raftLog.lastIndex) (hanswered : Raft.Answered c s)
    (hp : p.Fits r.raftLog.lastIndex) : p'.Fits r.raftLog.lastIndex := by
  cases h with
  | probe => exact hp.becomeProbe
  | replicate hstate => exact hp.becomeReplicate
  | own hy => exact hp.maybeUpdate (le_refl _)
  | acked m hc htype hreject hy =>
    have hheld := (hanswered m hc htype).1 hreject
    exact hp.maybeUpdate (hheld.trans hle)
  | rejected p₀ m hc htype hreject hy hget heq =>
    refine hp.maybeDecreasesTo fun hfalse => (hanswered m hc htype).2 ⟨hreject, p₀, ?_, ?_⟩
    · rw [← hy]
      exact hget
    · rw [heq] at hfalse
      exact hfalse
  | sent es e hes he =>
    obtain ⟨hnext, hlast⟩ := hs.mem_entries hes (List.mem_of_getLast? he)
    exact hp.optimisticUpdate hnext hlast
  | snapshot hne => exact hp.becomeSnapshot hs.snapshot_index_le
  | failed => exact ⟨hp.within, fun _ => Nat.zero_le _⟩
  | _ => exact hp.congr rfl rfl rfl rfl

/-- Changes of the progress of a peer. -/
theorem PeerCourse.fits {y : ℕ} {p p' : Progress} (h : PeerCourse c s r y p p') (hs : r.raftLog.Sound)
    (hle : s.raftLog.lastIndex ≤ r.raftLog.lastIndex) (hanswered : Raft.Answered c s)
    (hp : p.Fits r.raftLog.lastIndex) : p'.Fits r.raftLog.lastIndex := by
  induction h with
  | refl => exact hp
  | tail _ hmove ih => exact hmove.fits hs hle hanswered ih

/-- A move of a leader. -/
theorem LeaderMove.fits (h : LeaderMove c s r r') (hs : r.raftLog.Sound)
    (hle : s.raftLog.lastIndex ≤ r.raftLog.lastIndex) (hanswered : Raft.Answered c s) (hr : r.Fits) :
    r'.Fits := by
  have hlast := h.lastIndex_le hs
  -- Where no progress changes, the log at most grows.
  have hkept : r'.prs = r.prs → r'.learnerPrs = r.learnerPrs → r'.Fits := by
    intro hprs hlearners y p hp
    unfold Raft.getProgress at hp
    rw [hprs, hlearners] at hp
    exact (hr y p hp).mono hlast
  have hreads : r.OnlyReads r' → r'.Fits := by
    rintro ⟨_, _, _, rfl⟩
    exact hkept rfl rfl
  cases h with
  | send x hx hne h =>
    obtain ⟨rfl, -⟩ := Raft.send_eq h
    exact hkept rfl rfl
  | peer y p p' hget h =>
    intro z q hq
    have hlog : (r.putProgress y p').raftLog = r.raftLog :=
      congrArg Outline.raftLog (r.putProgress_outline y p')
    rw [hlog]
    obtain ⟨-, rfl⟩ | hq := Raft.getProgress_putProgress hq
    · exact PeerCourse.fits h hs hle hanswered (hr y p hget)
    · exact hr z q hq
  | serve m hc htype hnow h => exact hreads (Raft.onlyReads_serve m hnow _ h)
  | confirm m hc htype hknown h => exact hreads (Raft.onlyReads_ackRead m _ h)
  | _ => exact hkept rfl rfl

/-- Moves of a leader do not shorten its log. -/
theorem LeaderCourse.lastIndex_le (h : LeaderCourse c s r r') (hs : r.raftLog.Sound)
    (hcons : ∀ m, c = .step m → m.Consecutive) : r.raftLog.lastIndex ≤ r'.raftLog.lastIndex := by
  induction h with
  | refl => exact le_refl _
  | tail hmoves hmove ih =>
    have hsound := hs.edits (Course.edits (LeaderCourse.steady hmoves).moves hs hcons)
    exact ih.trans (hmove.lastIndex_le hsound)

/-- Moves of a leader. -/
theorem LeaderCourse.fits (h : LeaderCourse c s r r') (hs : r.raftLog.Sound)
    (hcons : ∀ m, c = .step m → m.Consecutive) (hle : s.raftLog.lastIndex ≤ r.raftLog.lastIndex)
    (hanswered : Raft.Answered c s) (hr : r.Fits) : r'.Fits := by
  induction h with
  | refl => exact hr
  | tail hmoves hmove ih =>
    have hsound := hs.edits (Course.edits (LeaderCourse.steady hmoves).moves hs hcons)
    exact hmove.fits hsound (hle.trans (LeaderCourse.lastIndex_le hmoves hs hcons)) hanswered ih

/-! ## The steps of a leader -/

namespace Raft

/-- The progress of the peers of a new leader. -/
theorem fits_elected {p : Progress} (hself : r.takeLead.prs.lookup r.takeLead.id = some p) :
    (r.elected p).Fits := by
  have hlog : (r.elected p).raftLog = r.raftLog := r.reset_raftLog _
  have hreset : ∀ {y : ℕ} {q : Progress}, (r.reset r.term).getProgress y = some q →
      q.Fits r.raftLog.lastIndex := by
    intro y q hq
    obtain ⟨hnext, hstate, hmatched⟩ := getProgress_reset _ _ hq
    refine ⟨⟨?_, ?_⟩, ?_⟩
    · rw [hnext]
      omega
    · rw [hnext]
    · rw [hstate]
      exact nofun
  intro y q hq
  rw [hlog]
  unfold elected getProgress at hq
  dsimp only at hq
  rw [AList.lookup_insert_eq] at hq
  split_ifs at hq
  · rw [Option.some_or] at hq
    obtain rfl := Option.some.inj hq
    have hown : (r.reset r.term).getProgress r.takeLead.id = some p := by
      unfold getProgress
      rw [show (r.reset r.term).prs.lookup r.takeLead.id = some p from hself, Option.some_or]
    exact (hreset hown).becomeReplicate
  · exact hreset hq

/-- What is known of the peers after a change of the membership. -/
theorem Fits.keepsPeers (h : r.Fits) (hk : r.KeepsPeers r') (hlog : r'.raftLog = r.raftLog) : r'.Fits := by
  intro y p' hp'
  rw [hlog]
  obtain ⟨p, ⟨active, learner, rfl⟩, hp | rfl⟩ := hk y p' hp'
  · exact (h y p hp).congr rfl rfl rfl rfl
  · exact ⟨⟨Nat.succ_pos _, le_refl _⟩, nofun⟩

end Raft

namespace Host

variable {h h' : Host} {e : HostEvent}

/-- The answer to an append that the node processes in the step as one of its own term. -/
def appResp (t : Turn Host HostEvent) : Option Message :=
  t.event.message.filter fun m =>
    m.type = .msgAppResp ∧ (m.term = 0 ∨ m.term = t.before.node.raft.term)

/-- What the application does for itself does not move the end of the unstable part. -/
theorem unstable_end_of_cause_none (hh : h.handle e = .ok h') (hc : e.cause = none) :
    h'.log.unstable.offset + h'.log.unstable.entries.length =
      h.log.unstable.offset + h.log.unstable.entries.length := by
  cases handled hh with
  | moved hc' _ => rw [hc] at hc'; cases hc'
  | ready _ hn =>
    obtain ⟨-, -, -, -, -, size, rfl⟩ := RawNode.ready_eq hn
    rfl
  | @advance rd hsome =>
    have hlog : ({ node := h.node.advance rd } : Host).log = h.log.advance rd := rfl
    have hstab : (RaftLog.stabilized h.log.unstable rd).offset +
        (RaftLog.stabilized h.log.unstable rd).entries.length =
          h.log.unstable.offset + h.log.unstable.entries.length := by
      have hk : ∀ e ∈ rd.entries.getLast?,
          e.index + 1 = (rd.entries.getLast?.map fun e => e.index + 1).getD 0 := by
        intro e he
        rw [Option.mem_def.mp he]
        rfl
      obtain ⟨hsame, -⟩ | ⟨-, hoff, hlen, heq, -⟩ := RaftLog.stabilized_cases h.log.unstable rd hk
      · rw [hsame]
      · rw [heq]
        simp only [List.length_drop]
        omega
    rw [hlog, RaftLog.advance_eq]
    dsimp only
    split_ifs
    · exact hstab
    · obtain ⟨hentries, hoff⟩ := RaftLog.stableSnapTo_eq (RaftLog.stabilized h.log.unstable rd)
        rd.snapshot.metadata.index
      rw [hentries, hoff]
      exact hstab
  | _ => rfl

/-- A step of a leader. -/
theorem fits_handle (hs : h.Sound) (hs' : h'.Sound) (hh : h.handle e = .ok h') (horder : e.Orderly h)
    (hl : h.LeadsTerm h'.node.raft.term) (hl' : h'.node.raft.state = .leader)
    (hresp : ∀ m ∈ appResp ⟨h, e, h'⟩, h.node.raft.Holds m ∧ ¬h.node.raft.MisledBy m)
    (hf : h.node.raft.Fits) : h'.node.raft.Fits := by
  cases hcause : e.cause with
  | none =>
    obtain ⟨l, msgs, readStates, size, heq, -⟩ := (handled hh).frame hcause
    have hlast := hs.log.lastIndex_congr hs'.log (unstable_end_of_cause_none hh hcause)
    exact hf.congr hlast (by rw [heq]) (by rw [heq])
  | some c =>
    have hcons : ∀ m, c = .step m → m.Consecutive := by
      rintro m rfl
      cases e <;> cases hcause <;> exact horder
    by_cases hconf : c = .confChange
    · subst hconf
      cases e with
      | applyConfChange cc =>
        obtain ⟨p, hp, hh⟩ := bind_eq_ok.mp hh
        cases hh
        obtain ⟨⟨r₁, ⟨hframe, hpeers⟩, hleads⟩, -⟩ :=
          h.node.leads_applyConfChange (s := h.node.raft) cc p hp
        have hlog : r₁.raftLog = h.node.raft.raftLog := by
          obtain ⟨prs, learnerPrs, isLearner, rfl⟩ := hframe
          rfl
        have hlast : h.node.raft.raftLog.lastIndex ≤ r₁.raftLog.lastIndex := by
          rw [hlog]
        exact LeaderCourse.fits hleads (hlog ▸ hs.log) nofun hlast nofun (hf.keepsPeers hpeers hlog)
      | _ => cases hcause
    · have hleads := leads_handle hcause hconf hh hl.1 hl' hl.2.symm
      by_cases hstale : ∃ m, c = .step m ∧ m.type = .msgAppResp ∧ m.term ≠ 0 ∧ m.term ≠ h.node.raft.term
      · -- The answer is of another term.
        obtain ⟨m, rfl, htype, hzero, hterm⟩ := hstale
        obtain heq | ⟨status, hstep⟩ := stepped hcause hh
        · rwa [heq]
        · have heq : h'.node.raft = h.node.raft :=
            Raft.step_staleWork (Or.inr (Or.inr htype)) hzero hterm _ hstep hl'
          rwa [heq]
      · refine LeaderCourse.fits hleads hs.log hcons (le_refl _) (fun m hm htype => ?_) hf
        refine hresp m (Option.mem_filter_iff.mpr ⟨HostEvent.message_of_cause (hm ▸ hcause), ?_⟩)
        have hterm : m.term = 0 ∨ m.term = h.node.raft.term := by
          by_contra hnot
          obtain ⟨hzero, hterm⟩ := not_or.mp hnot
          exact hstale ⟨m, hm, htype, hzero, hterm⟩
        exact decide_eq_true ⟨htype, hterm⟩

/-- The step that begins a leadership. -/
theorem fits_elect (hs : h.Sound) (hh : h.handle e = .ok h') (horder : e.Orderly h)
    (ht : TakesLead ⟨h, e, h'⟩) : h'.node.raft.Fits := by
  obtain ⟨c, hcause, hwork, r₁, p, -, hlog, -, hself, hleads⟩ := elects hh ht
  have hcons : ∀ m, c = .step m → m.Consecutive := by
    rintro m rfl
    cases e <;> cases hcause <;> exact horder
  have hlog₁ : (r₁.elected p).raftLog = h.node.raft.raftLog := (r₁.reset_raftLog _).trans hlog
  have hlast : h.node.raft.raftLog.lastIndex ≤ (r₁.elected p).raftLog.lastIndex := by
    rw [hlog₁]
  have hanswered : Raft.Answered c h.node.raft := fun m hm htype =>
    absurd (Or.inr (Or.inr htype)) (hwork m hm)
  exact LeaderCourse.fits hleads (hlog₁ ▸ hs.log) hcons hlast hanswered (Raft.fits_elected hself)

end Host

/-- The bounds of a leader's progress: in every run of a node from its start, with an orderly application,
and at every time of a leadership, what a peer is known to hold is below the next entry to send to it, and
this is at most the one that follows the log. Every answer to an append that accepts is for entries that the
leader has, and none that rejects contradicts what its sender is known to hold. -/
theorem progress_within {c : Config} {h₀ h : Host} {pre ts : List (Turn Host HostEvent)}
    {election : Turn Host HostEvent} (hb : Host.Built c h₀) (hs : c.storage.Consistent)
    (happ : c.AppliedFits) (hrun : Host.Run h₀ (pre ++ election :: ts) h)
    (horder : ∀ t ∈ pre ++ election :: ts, t.event.Orderly t.before ∧ ¬t.event.DropsAbove t.before)
    (helect : Host.TakesLead election)
    (hleads : ∀ t ∈ ts, t.after.LeadsTerm election.after.node.raft.term)
    (hholds : ∀ t ∈ ts, ∀ m ∈ Host.appResp t, t.before.node.raft.Holds m)
    (hmisled : ∀ t ∈ ts, ∀ m ∈ Host.appResp t, ¬t.before.node.raft.MisledBy m) :
    ∀ y p, h.node.raft.getProgress y = some p → p.matched < p.next ∧ p.next ≤ h.log.lastIndex + 1 := by
  obtain ⟨h₁, hpre, hrest⟩ := Trace.of_append hrun
  have hsound : h₁.Sound := ((hb.sound hs happ).run hpre
    (fun t ht => (horder t (List.mem_append_left _ ht)).1)
    fun t ht => (horder t (List.mem_append_left _ ht)).2).2
  have hrestorder := fun t ht => horder t (List.mem_append_right pre ht)
  cases hrest with
  | @cons _ h₂ _ _ _ hstep hts =>
    obtain ⟨horder₁, hdrop₁⟩ := hrestorder _ List.mem_cons_self
    have hstart := Host.fits_elect hsound hstep horder₁ helect
    have hall := hts.invariant
      (P := fun h' => h'.Sound ∧ h'.LeadsTerm h₂.node.raft.term ∧ h'.node.raft.Fits)
      (Q := fun t => (t.event.Orderly t.before ∧ ¬t.event.DropsAbove t.before) ∧
        t.after.LeadsTerm h₂.node.raft.term ∧
          ∀ m ∈ Host.appResp t, t.before.node.raft.Holds m ∧ ¬t.before.node.raft.MisledBy m)
      (fun t ht hq hP => by
        obtain ⟨⟨horder₂, hdrop₂⟩, hl', hresp⟩ := hq
        obtain ⟨hs₂, hl, hf⟩ := hP
        have hs' := hs₂.handle ht horder₂ hdrop₂
        exact ⟨hs', hl', Host.fits_handle hs₂ hs' ht horder₂ (hl'.2 ▸ hl) hl'.1 hresp hf⟩)
      (fun t ht => ⟨hrestorder t (List.mem_cons_of_mem _ ht), hleads t ht,
        fun m hm => ⟨hholds t ht m hm, hmisled t ht m hm⟩⟩)
      ⟨hsound.handle hstep horder₁ hdrop₁, ⟨helect.1, rfl⟩, hstart⟩
    exact fun y p hp => (hall.2.2.2 y p hp).within

/-- One of three voters asks for votes. -/
def candidature : List (Turn Host HostEvent) × Host :=
  Trace.run Host.handle (Host.started voterConfig) [.call { type := .msgHup }]

/-- The vote of another one elects it. -/
def electedOfThree : Turn Host HostEvent :=
  let vote : HostEvent := .step { type := .msgVoteResp, fromId := 3, toId := 1, term := 1 }
  ⟨candidature.2, vote, candidature.2.next vote⟩

/-- Its entries are acknowledged, and a rejection comes late. -/
def acknowledged : List (Turn Host HostEvent) × Host :=
  let answer : Message := { type := .msgAppResp, fromId := 3, toId := 1, term := 1, index := 1 }
  Trace.run Host.handle electedOfThree.after
    [.step answer, .call { type := .msgProp, fromId := 1, entries := [{}] },
      .step { answer with reject := true }, .step { answer with index := 2 }]

/-- The leader knows what the other one holds. -/
theorem progress_within_acknowledged :
    (∃ p ∈ acknowledged.2.node.raft.getProgress 3, p.matched = 2) ∧
      ∀ y p, acknowledged.2.node.raft.getProgress y = some p →
        p.matched < p.next ∧ p.next ≤ acknowledged.2.log.lastIndex + 1 := by
  have hbuilt : Host.Built voterConfig (Host.started voterConfig) :=
    Host.boot_built (Host.boot_started (by decide +kernel))
  have helected : Host.Run candidature.2 (electedOfThree :: acknowledged.1) acknowledged.2 :=
    .cons (Host.handle_next (by decide +kernel)) (Trace.of_run _ _ _)
  have hrun : Host.Run (Host.started voterConfig) (candidature.1 ++ electedOfThree :: acknowledged.1)
      acknowledged.2 := Trace.append (Trace.of_run _ _ _) helected
  exact ⟨by decide +kernel, progress_within hbuilt MemoryStorage.empty_consistent (Or.inl rfl) hrun
    (by decide +kernel) (by decide +kernel) (by decide +kernel) (by decide +kernel) (by decide +kernel)⟩

end RaftCpp
