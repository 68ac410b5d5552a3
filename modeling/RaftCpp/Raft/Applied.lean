import RaftCpp.Raft.Booting
import RaftCpp.Raft.Rounds

/-!
# What is applied

What is applied moves only when the node advances, and only forward. For this the entries have to carry
their indices, and a snapshot to install has to be ahead of what is applied. An application can lose entries
of the log by its order of events, but this it cannot break.
-/

namespace RaftCpp

open Outcome

/-! ## The parts of the log -/

/-- The unstable part carries its indices when consecutive entries are written to it. -/
theorem Unstable.truncateAndAppend_indexed {u : Unstable} {j : ℕ} {es : List Entry}
    (hu : IndexedFrom u.offset u.entries) (hes : IndexedFrom j es) :
    Ensures (u.truncateAndAppend es) fun u' => IndexedFrom u'.offset u'.entries := by
  unfold truncateAndAppend
  cases es with
  | nil => exact Ensures.pure hu
  | cons e es =>
    have hej : e.index = j := hes.head
    dsimp only
    rw [hej]
    refine Ensures.ite (fun hend => Ensures.pure (hu.append (hend ▸ hes))) fun _ => ?_
    refine Ensures.ite (fun _ => Ensures.pure hes) fun hlt => ?_
    refine Ensures.bind (u.slice_spec _ _) fun kept hkept => Ensures.pure ?_
    obtain ⟨rfl, -, hle⟩ := hkept
    rw [Nat.sub_self, List.drop_zero]
    refine (hu.of_isPrefix (List.take_prefix _ _)).append ?_
    have hlen : (u.entries.take (j - u.offset)).length = j - u.offset := by
      rw [List.length_take]
      omega
    rw [hlen, show u.offset + (j - u.offset) = j by omega]
    exact hes

/-- The storage carries its indices when consecutive entries are written to it. -/
theorem MemoryStorage.indexed_append {s : MemoryStorage} {a : ℕ} {es : List Entry}
    (hs : IndexedFrom s.dummy.index s.entries) (hes : IndexedFrom a es) :
    Ensures (s.append es) fun s' => IndexedFrom s'.dummy.index s'.entries := by
  unfold append
  cases es with
  | nil => exact Ensures.ok hs
  | cons e es =>
    dsimp only
    refine Ensures.ite (fun _ => Ensures.ok hs) fun _ => ?_
    have hdrop := hes.drop (s.firstIndex - e.index)
    rw [← hes.head] at hdrop
    cases htail : (e :: es).drop (s.firstIndex - e.index) with
    | nil => exact Ensures.error
    | cons e' es' =>
      rw [htail] at hdrop
      have he' : e'.index = e.index + (s.firstIndex - e.index) := hdrop.head
      have hge : s.dummy.index + 1 ≤ e'.index := by
        unfold firstIndex at he'
        omega
      have hsub : sub64 e'.index s.dummy.index = e'.index - s.dummy.index := sub64_of_le (by omega)
      -- The entries that are kept end where the new ones begin.
      have hwrite : ∀ s' : MemoryStorage, e'.index - s.dummy.index ≤ s.entries.length →
          s'.entries = s.entries.take (e'.index - s.dummy.index) ++ e' :: es' →
          IndexedFrom s'.dummy.index s'.entries := by
        intro s' hle hentries
        rw [dummy_of_entries (n := e'.index - s.dummy.index) (by omega) hentries, hentries]
        refine (hs.of_isPrefix (List.take_prefix _ _)).append ?_
        rw [List.length_take, Nat.min_eq_left hle,
          show s.dummy.index + (e'.index - s.dummy.index) = e'.index by omega, he']
        exact hdrop
      dsimp only
      unfold overwrite
      dsimp only
      refine Ensures.ite (fun hgt => Ensures.ok (hwrite _ (by omega) ?_)) fun _ => ?_
      · rw [← hsub]
      · refine Ensures.ite (fun heq => Ensures.ok (hwrite _ (by omega) ?_)) fun _ => Ensures.error
        rw [← hsub, ← heq, List.take_length]

namespace RaftLog

/-- The entries carry their indices, and what is applied is committed and lies before a snapshot to
install. -/
structure Aligned (l : RaftLog) : Prop where
  /-- The entries of the storage. -/
  storage_indexed : IndexedFrom l.storage.dummy.index l.storage.entries
  /-- The unstable entries. -/
  unstable_indexed : IndexedFrom l.unstable.offset l.unstable.entries
  /-- What is applied. -/
  applied_le : l.applied ≤ l.committed
  /-- The snapshot. -/
  pending : ∀ s ∈ l.unstable.snapshot, l.applied < s.metadata.index ∧ s.metadata.index ≤ l.committed

/-- What the handlers do to a log. -/
structure Follows (l l' : RaftLog) : Prop where
  /-- The unstable entries go on to carry their indices. -/
  unstable_indexed : IndexedFrom l.unstable.offset l.unstable.entries →
    IndexedFrom l'.unstable.offset l'.unstable.entries
  /-- The storage stays. -/
  storage : l'.storage = l.storage
  /-- What is applied stays. -/
  applied : l'.applied = l.applied
  /-- What is committed is not taken back. -/
  committed_le : l.committed ≤ l'.committed
  /-- A new snapshot to install is ahead of what was committed. -/
  pending : ∀ s ∈ l'.unstable.snapshot, s ∈ l.unstable.snapshot ∨
    l.committed < s.metadata.index ∧ s.metadata.index ≤ l'.committed

variable {l l' l'' : RaftLog}

/-- The parts of a log that fit together are aligned. -/
theorem Sound.aligned (h : l.Sound) : l.Aligned :=
  ⟨h.storage_indexed, h.unstable_indexed, h.applied_le,
    fun s hs => ⟨h.pending_applied s hs, h.pending_committed s hs⟩⟩

namespace Follows

/-- Nothing happens. -/
theorem refl (l : RaftLog) : l.Follows l := ⟨id, rfl, rfl, le_refl _, fun _ hs => Or.inl hs⟩

/-- One thing after another. -/
theorem trans (h : l.Follows l') (h' : l'.Follows l'') : l.Follows l'' := by
  constructor
  · exact fun hu => h'.unstable_indexed (h.unstable_indexed hu)
  · exact h'.storage.trans h.storage
  · exact h'.applied.trans h.applied
  · exact h.committed_le.trans h'.committed_le
  · intro s hs
    obtain hs | ⟨hlt, hle⟩ := h'.pending s hs
    · exact (h.pending s hs).imp_right fun hb => ⟨hb.1, hb.2.trans h'.committed_le⟩
    · exact Or.inr ⟨h.committed_le.trans_lt hlt, hle⟩

/-- The log stays aligned. -/
theorem aligned (h : l.Follows l') (ha : l.Aligned) : l'.Aligned := by
  constructor
  · rw [h.storage]
    exact ha.storage_indexed
  · exact h.unstable_indexed ha.unstable_indexed
  · rw [h.applied]
    exact ha.applied_le.trans h.committed_le
  · intro s hs
    rw [h.applied]
    obtain hs | ⟨hlt, hle⟩ := h.pending s hs
    · exact ⟨(ha.pending s hs).1, (ha.pending s hs).2.trans h.committed_le⟩
    · exact ⟨ha.applied_le.trans_lt hlt, hle⟩

end Follows

/-- `commit_to`. -/
theorem follows_commitTo (k : ℕ) : Ensures (l.commitTo k) l.Follows := by
  unfold commitTo
  refine Ensures.ite (fun hlt => ?_) fun _ => Ensures.ok (.refl l)
  refine Ensures.ite (fun _ => Ensures.error) fun _ => Ensures.ok ?_
  exact ⟨id, rfl, rfl, hlt.le, fun _ hs => Or.inl hs⟩

/-- `append`, of consecutive entries. -/
theorem follows_append {j : ℕ} {es : List Entry} (hes : IndexedFrom j es) :
    Ensures (l.append es) l.Follows := by
  unfold append
  cases es with
  | nil => exact Ensures.pure (.refl l)
  | cons e es =>
    refine Ensures.ite (fun _ => Ensures.error) fun _ => ?_
    refine Ensures.bindEq fun u hu => Ensures.pure ?_
    constructor
    · exact fun hidx => Unstable.truncateAndAppend_indexed hidx hes u hu
    · rfl
    · rfl
    · exact le_refl _
    · intro s hs
      have hsnap := Unstable.truncateAndAppend_snapshot u hu
      exact Or.inl (hsnap ▸ hs)

/-- `maybe_append`, of the entries of a consecutive message. -/
theorem follows_maybeAppend {index logTerm committed : ℕ} {es : List Entry}
    (hes : IndexedFrom (index + 1) es) :
    Ensures (l.maybeAppend index logTerm committed es) fun p => l.Follows p.2 := by
  unfold maybeAppend
  refine Ensures.ite (fun _ => ?_) fun _ => Ensures.pure (.refl l)
  refine Ensures.bind (P := l.Follows) ?_ fun l₁ h₁ => ?_
  · unfold appendFrom
    refine Ensures.ite (fun _ => Ensures.ok (.refl l)) fun _ => ?_
    refine Ensures.ite (fun _ => Ensures.error) fun _ => ?_
    exact Ensures.ite (fun _ => Ensures.error) fun _ => follows_append (hes.drop _)
  · exact Ensures.bind (follows_commitTo _) fun l₂ h₂ => Ensures.pure (h₁.trans h₂)

/-- `restore`, of a snapshot that is ahead of what is committed. -/
theorem follows_restore {s : Snapshot} (hs : l.committed < s.metadata.index) :
    l.Follows (l.restore s) := by
  constructor
  · intro _ i e he
    cases he
  · rfl
  · rfl
  · exact hs.le
  · rintro _ ⟨⟩
    exact Or.inr ⟨hs, le_refl _⟩

end RaftLog

variable {c : Cause} {r r' : Raft}

/-- A change of the log. -/
theorem LogMove.follows {l : RaftLog} (h : LogMove c r l) (hc : ∀ m, c = .step m → m.Consecutive) :
    r.raftLog.Follows l := by
  cases h with
  | commit k h => exact RaftLog.follows_commitTo k l h
  | propose m es hm htype hlead hes h => exact RaftLog.follows_append (Raft.stampEntries_spec _ _ _).1 l h
  | elected hlead h => exact RaftLog.follows_append (Raft.stampEntries_spec _ _ _).1 l h
  | write m last hm htype hindex h => exact RaftLog.follows_maybeAppend (hc m hm htype) (last, l) h
  | restore m hm htype hindex hterm => exact RaftLog.follows_restore hindex

/-- What a move does to the log. -/
theorem Move.follows (h : Move c r r') (hc : ∀ m, c = .step m → m.Consecutive) :
    r.raftLog.Follows r'.raftLog := by
  have hsame : r'.raftLog = r.raftLog → r.raftLog.Follows r'.raftLog := fun heq => by
    rw [heq]
    exact .refl _
  cases h with
  | other h => exact hsame (congrArg Outline.raftLog h)
  | send x hx h =>
    obtain ⟨rfl, -⟩ := Raft.send_eq h
    exact hsame rfl
  | follow t lead h => exact hsame (r.reset_raftLog t)
  | campaign hstate h => exact hsame (r.reset_raftLog _)
  | lead hstate hcount => exact hsame (r.reset_raftLog _)
  | log h => exact h.follows hc
  | members hm h => exact hsame (congrArg Outline.raftLog h)
  | _ => exact hsame rfl

/-- What moves do to the log. -/
theorem Course.follows (h : Course c r r') (hc : ∀ m, c = .step m → m.Consecutive) :
    r.raftLog.Follows r'.raftLog := by
  induction h with
  | refl => exact .refl _
  | tail _ hmove ih => exact ih.trans (hmove.follows hc)

/-! ## Rounds -/

namespace RaftLog

variable {l : RaftLog} {rd : Ready}

/-- The entries of a range carry indices of the range. -/
theorem Aligned.index_of_mem_range (ha : l.Aligned) {low high : ℕ} {e : Entry}
    (hdummy : low < high → low < l.unstable.offset → l.storage.dummy.index < low)
    (he : e ∈ l.range low high) : low ≤ e.index ∧ e.index < high := by
  unfold range at he
  obtain he | he := List.mem_append.mp he
  · obtain ⟨i, hi⟩ := List.mem_iff_getElem?.mp he
    have hlt : i < min high l.unstable.offset - low := by
      by_contra hge
      rw [List.getElem?_eq_none (by rw [List.length_take]; omega)] at hi
      cases hi
    rw [List.getElem?_take_of_lt hlt, List.getElem?_drop] at hi
    have hidx := ha.storage_indexed _ e hi
    have := hdummy (by omega) (by omega)
    omega
  · obtain ⟨i, hi⟩ := List.mem_iff_getElem?.mp he
    have hlt : i < high - max low l.unstable.offset := by
      by_contra hge
      rw [List.getElem?_eq_none (by rw [List.length_take]; omega)] at hi
      cases hi
    rw [List.getElem?_take_of_lt hlt, List.getElem?_drop] at hi
    have hidx := ha.unstable_indexed _ e hi
    omega

/-- The entries that are handed out for application are committed, and not applied yet. -/
theorem Aligned.nextEntries (ha : l.Aligned) :
    Ensures l.nextEntries fun es => ∀ e ∈ es, l.applied < e.index ∧ e.index ≤ l.committed := by
  unfold RaftLog.nextEntries
  refine Ensures.ite (fun hlt => ?_) fun _ => Ensures.pure (by simp)
  refine Ensures.bind (l.slice_prefix _ _ _) fun p hp => ?_
  refine Ensures.ite (fun hst => Ensures.pure fun e he => ?_) fun _ => Ensures.error
  obtain ⟨⟨hpre, -⟩, hdummy⟩ := hp (Status.isOk_iff.mp hst)
  have hidx := ha.index_of_mem_range hdummy (hpre.subset he)
  omega

/-- A round that is under way, as far as what is applied is concerned. -/
structure Taken (l : RaftLog) (rd : Ready) : Prop where
  /-- The entries carry their indices. -/
  indexed : ∃ a, IndexedFrom a rd.entries
  /-- What was handed out for application is committed. -/
  cursor_le : rd.appliedCursor ≤ l.committed
  /-- It was not applied before. -/
  cursor_gt : rd.appliedCursor = 0 ∨ l.applied < rd.appliedCursor
  /-- A snapshot that came in since then is ahead of it. -/
  pending : ∀ s ∈ l.unstable.snapshot, s = rd.snapshot ∨ rd.appliedCursor < s.metadata.index

/-- What is taken. -/
theorem Aligned.taken (ha : l.Aligned) (hentries : rd.entries = l.unstable.entries)
    (hsnap : rd.snapshot = l.unstable.snapshot.getD {})
    (hnext : l.nextEntries = .ok rd.committedEntries) : l.Taken rd := by
  have hcursor : rd.appliedCursor ≤ l.committed ∧
      (rd.appliedCursor = 0 ∨ l.applied < rd.appliedCursor) := by
    unfold Ready.appliedCursor
    cases hlast : rd.committedEntries.getLast? with
    | some e =>
      have hbounds := ha.nextEntries _ hnext e (List.mem_of_getLast? hlast)
      exact ⟨hbounds.2, Or.inr hbounds.1⟩
    | none =>
      dsimp only
      rw [hsnap]
      cases hs : l.unstable.snapshot with
      | none => exact ⟨Nat.zero_le _, Or.inl rfl⟩
      | some s => exact ⟨(ha.pending s hs).2, Or.inr (ha.pending s hs).1⟩
  constructor
  · exact ⟨_, hentries ▸ ha.unstable_indexed⟩
  · exact hcursor.1
  · exact hcursor.2
  · intro s hs
    refine Or.inl ?_
    rw [hsnap, show l.unstable.snapshot = some s from hs]
    rfl

/-- The round goes on. -/
theorem Taken.follows {l' : RaftLog} (ht : l.Taken rd) (h : l.Follows l') :
    l'.Taken rd := by
  constructor
  · exact ht.indexed
  · exact ht.cursor_le.trans h.committed_le
  · rw [h.applied]
    exact ht.cursor_gt
  · intro s hs
    obtain hs | ⟨hlt, -⟩ := h.pending s hs
    · exact ht.pending s hs
    · exact Or.inr (ht.cursor_le.trans_lt hlt)

/-- The node advances. -/
theorem Aligned.advance (ha : l.Aligned) (ht : l.Taken rd) :
    (l.advance rd).Aligned ∧ l.applied ≤ (l.advance rd).applied := by
  have hle := ht.cursor_le
  have hgt := ht.cursor_gt
  have happlied := ha.applied_le
  have hmono : l.applied ≤ l.appliedAfter rd ∧ l.appliedAfter rd ≤ l.committed := by
    unfold appliedAfter
    split_ifs with hzero
    · exact ⟨le_refl _, happlied⟩
    · omega
  have hstab : (stabilized l.unstable rd).snapshot = l.unstable.snapshot ∧
      IndexedFrom (stabilized l.unstable rd).offset (stabilized l.unstable rd).entries := by
    unfold stabilized
    cases rd.entries.getLast? with
    | none => exact ⟨rfl, ha.unstable_indexed⟩
    | some e =>
      dsimp only
      unfold Unstable.stableTo
      split_ifs with hfire
      · refine ⟨rfl, ?_⟩
        have hdrop := ha.unstable_indexed.drop (e.index + 1 - l.unstable.offset)
        rwa [show l.unstable.offset + (e.index + 1 - l.unstable.offset) = e.index + 1 by omega] at hdrop
      · exact ⟨rfl, ha.unstable_indexed⟩
  rw [advance_eq]
  refine ⟨⟨ha.storage_indexed, ?_, hmono.2, fun s hs => ?_⟩, hmono.1⟩
  · dsimp only
    split_ifs
    · exact hstab.2
    · obtain ⟨hentries, hoff⟩ := stableSnapTo_eq (stabilized l.unstable rd) rd.snapshot.metadata.index
      rw [hentries, hoff]
      exact hstab.2
  · dsimp only at hs ⊢
    -- The snapshot of the round is forgotten, and any other one is ahead of what was handed out.
    have hpending : s ∈ l.unstable.snapshot ∧
        (rd.snapshot.isEmpty = true ∨ s.metadata.index ≠ rd.snapshot.metadata.index) := by
      split_ifs at hs with hempty
      · exact ⟨hstab.1 ▸ hs, Or.inl hempty⟩
      · unfold Unstable.stableSnapTo at hs
        split_ifs at hs with hforget
        · cases hs
        · rw [hstab.1] at hs hforget
          refine ⟨hs, Or.inr fun heq => hforget ?_⟩
          rw [show l.unstable.snapshot = some s from hs, ← heq]
          rfl
    obtain ⟨hlt, hcommitted⟩ := ha.pending s hpending.1
    refine ⟨?_, hcommitted⟩
    have hcursor : rd.appliedCursor < s.metadata.index := by
      obtain heq | hlt' := ht.pending s hpending.1
      · obtain hempty | hne := hpending.2
        · have hzero : rd.snapshot.metadata.index = 0 := by simpa [Snapshot.isEmpty] using hempty
          rw [← heq] at hzero
          omega
        · exact absurd (congrArg (fun s => s.metadata.index) heq) hne
      · exact hlt'
    unfold appliedAfter
    split_ifs
    · exact hlt
    · exact hcursor

/-- Another storage that carries its indices. -/
theorem Aligned.setStorage (ha : l.Aligned) {s : MemoryStorage}
    (hs : IndexedFrom s.dummy.index s.entries) : ({ l with storage := s } : RaftLog).Aligned :=
  ⟨hs, ha.unstable_indexed, ha.applied_le, ha.pending⟩

/-- What is written to the storage carries its indices. -/
theorem Taken.persist (ht : l.Taken rd) (ha : l.Aligned) :
    Ensures (rd.persist l.storage) fun s => IndexedFrom s.dummy.index s.entries := by
  obtain ⟨a, hes⟩ := ht.indexed
  refine MemoryStorage.indexed_append ?_ hes
  split_ifs
  · exact ha.storage_indexed
  · unfold MemoryStorage.applySnapshot
    split_ifs
    · exact ha.storage_indexed
    · intro i e he
      cases i with
      | zero =>
        cases he
        rfl
      | succ i => cases he

end RaftLog

/-! ## Runs -/

namespace HostEvent

/-- The entries of an append message are consecutive. -/
def Consecutive : HostEvent → Prop
  | .step m | .call m => m.Consecutive
  | _ => True

instance (e : HostEvent) : Decidable e.Consecutive :=
  match e with
  | .step m | .call m => inferInstanceAs (Decidable m.Consecutive)
  | .tick | .applyConfChange _ | .ready | .persist | .advance | .createSnapshot _ _ _ | .compact _ =>
    .isTrue trivial

end HostEvent

namespace Host

/-- The log is aligned, also with what was taken. -/
structure Aligned (h : Host) : Prop where
  /-- The log. -/
  log : h.log.Aligned
  /-- The round. -/
  round : ∀ rd ∈ h.ready, h.log.Taken rd

variable {h h' : Host} {e : HostEvent}

/-- Another storage that carries its indices. -/
theorem Aligned.setStorage (ha : h.Aligned) {s : MemoryStorage}
    (hs : IndexedFrom s.dummy.index s.entries) : ({ h with node := h.node.setStorage s } : Host).Aligned :=
  ⟨ha.log.setStorage hs, fun rd hrd => ⟨(ha.round rd hrd).indexed, (ha.round rd hrd).cursor_le,
    (ha.round rd hrd).cursor_gt, (ha.round rd hrd).pending⟩⟩

/-- Any step keeps the log aligned, and does not take back what is applied. -/
theorem Aligned.handle (ha : h.Aligned) (hh : h.handle e = .ok h') (hcons : e.Consecutive) :
    h'.Aligned ∧ h.log.applied ≤ h'.log.applied := by
  cases handled hh with
  | moved hc hmoves =>
    rename_i c n
    have hfollows : h.log.Follows n.raft.raftLog := by
      refine hmoves.follows fun m hm => ?_
      subst hm
      cases e <;> cases hc
      · exact hcons
      · exact hcons
    exact ⟨⟨hfollows.aligned ha.log, fun rd hrd => (ha.round rd hrd).follows hfollows⟩,
      hfollows.applied.ge⟩
  | nothing _ => exact ⟨ha, le_refl _⟩
  | ready hnone hn =>
    obtain ⟨-, -, hentries, hsnap, hnext, size, rfl⟩ := RawNode.ready_eq hn
    refine ⟨⟨ha.log, ?_⟩, le_refl _⟩
    rintro _ ⟨⟩
    exact ha.log.taken hentries hsnap hnext
  | persist hsome hst =>
    have hidx := (ha.round _ hsome).persist ha.log _ hst
    exact ⟨⟨(ha.setStorage hidx).log, (ha.setStorage hidx).round⟩, le_refl _⟩
  | advance hsome =>
    obtain ⟨haligned, hle⟩ := ha.log.advance (ha.round _ hsome)
    exact ⟨⟨haligned, nofun⟩, hle⟩
  | createSnapshot hst =>
    refine ⟨ha.setStorage ?_, le_refl _⟩
    obtain heq | ⟨-, hentries⟩ := MemoryStorage.createSnapshot_spec _ _ _ _ hst
    · dsimp only at heq
      rw [heq]
      exact ha.log.storage_indexed
    · have hdummy := MemoryStorage.dummy_of_entries (s := h.node.storage) (Nat.le_refl 1)
        (hentries.trans (List.take_append_drop 1 _).symm)
      rw [hdummy, hentries]
      exact ha.log.storage_indexed
  | compact hst =>
    refine ⟨ha.setStorage ?_, le_refl _⟩
    obtain heq | ⟨-, hdummy, -, hidx, -⟩ := MemoryStorage.compact_spec ha.log.storage_indexed _ _ hst
    · dsimp only at heq
      rw [heq]
      exact ha.log.storage_indexed
    · rw [hdummy]
      exact hidx

/-- A node that was just built over a consistent storage. -/
theorem Built.aligned {c : Config} (hb : Built c h) (hs : c.storage.Consistent)
    (happ : c.AppliedFits) : h.Aligned := by
  have hsound := hb.sound hs happ
  refine ⟨hsound.log.aligned, fun rd hrd => ?_⟩
  have hnone : h.ready = none := by cases hb <;> rfl
  rw [hnone] at hrd
  cases hrd

end Host

end RaftCpp
