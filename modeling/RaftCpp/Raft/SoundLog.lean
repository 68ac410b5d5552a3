import RaftCpp.Raft.Entries
import RaftCpp.Raft.Handlers

/-!
# The cursors of a log

The storage, the unstable part, and the cursors of a log fit together: the unstable part continues or
overrides the storage, or follows a snapshot that is still to be installed, and `applied`, `committed`,
and the last index are in this order. The log is changed by a few edits, each of which keeps this, and
the handlers make no other changes.
-/

namespace RaftCpp

open Outcome

namespace RaftLog

/-- The parts of a log fit together. -/
structure Sound (l : RaftLog) : Prop where
  /-- The entries of the storage carry their indices, the placeholder included. -/
  storage_indexed : IndexedFrom l.storage.dummy.index l.storage.entries
  /-- The unstable entries carry their indices. -/
  unstable_indexed : IndexedFrom l.unstable.offset l.unstable.entries
  /-- What is applied is committed. -/
  applied_le : l.applied ≤ l.committed
  /-- What is committed is in the log. -/
  committed_le : l.committed ≤ l.lastIndex
  /-- The storage's snapshot is of committed entries. -/
  snapshot_le : l.storage.snapshot.metadata.index ≤ l.committed
  /-- Without a snapshot to install, only what is applied may be compacted. -/
  compacted : l.unstable.snapshot = none → l.storage.dummy.index ≤ l.applied
  /-- Something above the applied entries is unstable, or all of them are in the storage. -/
  applied_lt : l.unstable.snapshot = none →
    l.applied < l.unstable.offset + (l.unstable.entries.length - 1)
  /-- The unstable part continues the storage, or overrides a part of it. -/
  offset_le : l.unstable.snapshot = none → l.unstable.offset ≤ l.storage.lastIndex + 1
  /-- Where nothing is unstable, nothing is overridden. -/
  offset_eq : l.unstable.snapshot = none → l.unstable.entries = [] →
    l.unstable.offset = l.storage.lastIndex + 1
  /-- The unstable part follows the snapshot to install. -/
  pending_offset : ∀ s ∈ l.unstable.snapshot, l.unstable.offset = s.metadata.index + 1
  /-- The snapshot is ahead of what is applied. -/
  pending_applied : ∀ s ∈ l.unstable.snapshot, l.applied < s.metadata.index
  /-- The snapshot is of committed entries. -/
  pending_committed : ∀ s ∈ l.unstable.snapshot, s.metadata.index ≤ l.committed
  /-- The storage is not compacted beyond the snapshot. -/
  pending_dummy : ∀ s ∈ l.unstable.snapshot, l.storage.dummy.index ≤ s.metadata.index

variable {l l' : RaftLog} {c : Cause} {r r' : Raft}

/-- Where something is unstable, the last index is that of the last unstable entry. -/
theorem lastIndex_of_ne_nil (h : l.unstable.entries ≠ []) :
    l.lastIndex = l.unstable.offset + l.unstable.entries.length - 1 := by
  have hlen : l.unstable.entries.length ≠ 0 := fun h0 => h (List.length_eq_zero_iff.mp h0)
  unfold lastIndex Unstable.maybeLastIndex
  rw [if_pos hlen, Option.getD_some]

/-- Where nothing is unstable, the last index is that of the snapshot or of the storage. -/
theorem lastIndex_of_nil (h : l.unstable.entries = []) :
    l.lastIndex = (l.unstable.snapshot.map (·.metadata.index)).getD l.storage.lastIndex := by
  unfold lastIndex Unstable.maybeLastIndex
  rw [if_neg (by simp [h])]

/-- The storage reaches from its placeholder to its last index. -/
theorem storage_lastIndex_succ (s : MemoryStorage) :
    s.lastIndex + 1 = s.dummy.index + s.entries.length := by
  have := List.length_pos_iff.mpr s.entries_ne_nil
  unfold MemoryStorage.lastIndex
  omega

namespace Sound

/-- The last index ends the unstable part. -/
theorem lastIndex_succ (h : l.Sound) :
    l.lastIndex + 1 = l.unstable.offset + l.unstable.entries.length := by
  by_cases hnil : l.unstable.entries = []
  · rw [lastIndex_of_nil hnil, hnil]
    cases hs : l.unstable.snapshot with
    | none => exact (h.offset_eq hs hnil).symm
    | some s => exact (h.pending_offset s hs).symm
  · have := List.length_pos_iff.mpr hnil
    rw [lastIndex_of_ne_nil hnil]
    omega

/-- The first index, without a snapshot to install. -/
theorem firstIndex_of_none (h : l.unstable.snapshot = none) :
    l.firstIndex = l.storage.dummy.index + 1 := by
  simp [firstIndex, Unstable.maybeFirstIndex, h, MemoryStorage.firstIndex]

/-- The first index, with a snapshot to install. -/
theorem firstIndex_of_some {s : Snapshot} (h : l.unstable.snapshot = some s) :
    l.firstIndex = s.metadata.index + 1 := by
  simp [firstIndex, Unstable.maybeFirstIndex, h]

/-- What is committed lies between the start of the log and its end. -/
theorem firstIndex_le (h : l.Sound) : l.firstIndex ≤ l.committed + 1 := by
  cases hs : l.unstable.snapshot with
  | none =>
    have h₁ := h.compacted hs
    have h₂ := h.applied_le
    rw [firstIndex_of_none hs]
    omega
  | some s =>
    have h₁ := h.pending_committed s hs
    rw [firstIndex_of_some hs]
    omega

end Sound

/-! ## Reading -/

/-- The index of the next entry to apply. -/
def nextIndex (l : RaftLog) : ℕ := max (l.applied + 1) l.firstIndex

namespace Sound

/-- The entry at an index carries it. -/
theorem entryAt_index (h : l.Sound) {i : ℕ} {e : Entry} (he : l.entryAt i = some e) :
    e.index = i := by
  unfold entryAt at he
  split_ifs at he with h₁ h₂
  · rw [h.storage_indexed _ e he]
    omega
  · rw [h.unstable_indexed _ e he]
    omega

/-- From the first index on, what is below the offset is in the storage. -/
theorem storage_of_lt (h : l.Sound) {low : ℕ} (hlow : l.firstIndex ≤ low)
    (hoff : low < l.unstable.offset) :
    l.unstable.snapshot = none ∧ l.unstable.offset ≤ l.storage.lastIndex + 1 := by
  cases hs : l.unstable.snapshot with
  | none => exact ⟨rfl, h.offset_le hs⟩
  | some s =>
    rw [firstIndex_of_some hs, ← h.pending_offset s hs] at hlow
    omega

/-- The first index is above the placeholder. -/
theorem dummy_lt_firstIndex (h : l.Sound) : l.storage.dummy.index < l.firstIndex := by
  cases hs : l.unstable.snapshot with
  | none =>
    rw [firstIndex_of_none hs]
    exact Nat.lt_succ_self _
  | some s =>
    rw [firstIndex_of_some hs]
    exact Nat.lt_succ_of_le (h.pending_dummy s hs)

/-- `slice` returns entries for every range of the log, at least one if the range is not empty. -/
theorem slice_ok (h : l.Sound) {low high : ℕ} (hlow : l.firstIndex ≤ low) (hle : low ≤ high)
    (hhigh : high ≤ l.lastIndex + 1) (maxSize : ℕ) :
    ∃ es, l.slice low high maxSize = .ok (.ok, es) ∧ (low < high → es ≠ []) := by
  have hlast := h.lastIndex_succ
  have hfirst := h.firstIndex_le
  have hcommitted := h.committed_le
  have hdummy := h.dummy_lt_firstIndex
  have hcheck : l.mustCheckOutOfBounds low high = .ok .ok := by
    unfold mustCheckOutOfBounds
    rw [sub64_of_le (by omega), if_neg (by omega), if_neg (by omega), if_neg (by omega)]
  -- The part above the offset.
  have hunstable : ∀ stable : List Entry, low < high → (stable ≠ [] ∨ l.unstable.offset ≤ low) →
      ∃ es, l.sliceUnstable low high maxSize stable = .ok (.ok, es) ∧ es ≠ [] := by
    intro stable hlt hne
    unfold sliceUnstable
    by_cases hoff : high > l.unstable.offset
    · rw [if_pos hoff]
      unfold Unstable.slice
      rw [if_neg (by omega), if_neg (by omega)]
      refine ⟨_, rfl, fun hnil => ?_⟩
      have happ := List.append_eq_nil_iff.mp (entryLimitSize_eq_nil.mp hnil)
      rcases hne with hne | hne
      · exact hne happ.1
      · have hlen := congrArg List.length happ.2
        simp only [List.length_take, List.length_drop, List.length_nil] at hlen
        omega
    · rw [if_neg hoff]
      refine ⟨_, rfl, fun hnil => ?_⟩
      rcases hne with hne | hne
      · exact hne (entryLimitSize_eq_nil.mp hnil)
      · omega
  unfold slice
  simp only [hcheck, bind, Except.bind, Status.isOk, not_true_eq_false, if_false]
  by_cases heq : low = high
  · exact ⟨[], by rw [if_pos heq]; rfl, fun hlt => by omega⟩
  rw [if_neg heq]
  by_cases hoff : low < l.unstable.offset
  · rw [if_pos hoff]
    obtain ⟨-, hstorage⟩ := h.storage_of_lt hlow hoff
    have hslen := storage_lastIndex_succ l.storage
    have hentries : l.storage.entriesIn low (min high l.unstable.offset) maxSize =
        .ok (.ok, entryLimitSize maxSize ((l.storage.entries.drop (low - l.storage.dummy.index)).take
          (min high l.unstable.offset - low))) := by
      unfold MemoryStorage.entriesIn
      rw [if_neg (by omega), if_neg (by omega), if_neg (by omega), if_neg (by omega)]
    have hne : entryLimitSize maxSize ((l.storage.entries.drop (low - l.storage.dummy.index)).take
        (min high l.unstable.offset - low)) ≠ [] := fun hnil => by
      have hlen := congrArg List.length (entryLimitSize_eq_nil.mp hnil)
      simp only [List.length_take, List.length_drop, List.length_nil] at hlen
      omega
    simp only [hentries, not_true_eq_false, if_false]
    split_ifs
    · exact ⟨_, rfl, fun _ => hne⟩
    · obtain ⟨es, hes, hnil⟩ := hunstable _ (by omega) (Or.inl hne)
      exact ⟨es, hes, fun _ => hnil⟩
  · rw [if_neg hoff]
    obtain ⟨es, hes, hnil⟩ := hunstable [] (by omega) (Or.inr (by omega))
    exact ⟨es, hes, fun _ => hnil⟩

/-- What `next_entries` returns: entries of the log from the next index on, up to the commit index at
most, and at least one if there is one. -/
theorem nextEntries_ok (h : l.Sound) :
    ∃ es, l.nextEntries = .ok es ∧ (∀ i e, es[i]? = some e → l.entryAt (l.nextIndex + i) = some e) ∧
      l.nextIndex + es.length ≤ l.committed + 1 ∧ (l.hasNextEntries = true → es ≠ []) := by
  have hfirst := h.firstIndex_le
  have hcommitted := h.committed_le
  have happlied := h.applied_le
  have hdummy := h.dummy_lt_firstIndex
  have hnext : l.firstIndex ≤ l.nextIndex ∧ l.nextIndex ≤ l.committed + 1 := by
    unfold nextIndex
    omega
  unfold nextEntries hasNextEntries
  dsimp only
  rw [show max (l.applied + 1) l.firstIndex = l.nextIndex from rfl]
  by_cases hgt : l.committed + 1 > l.nextIndex
  · obtain ⟨es, hes, hne⟩ := h.slice_ok hnext.1 (Nat.le_of_lt hgt) (by omega) l.maxNextEntsSize
    obtain ⟨⟨hpre, -⟩, -⟩ := l.slice_prefix _ _ _ _ hes rfl
    have hrange : (l.range l.nextIndex (l.committed + 1)).length ≤ l.committed + 1 - l.nextIndex := by
      unfold range
      simp only [List.length_append, List.length_take]
      omega
    have hlen : es.length ≤ _ := hpre.length_le
    refine ⟨es, ?_, fun i e he => ?_, by omega, fun _ => hne hgt⟩
    · simp only [hes, if_pos hgt, bind, Except.bind, Status.isOk, if_true]
      rfl
    · have hi := (List.getElem?_eq_some_iff.mp he).1
      have hat : (l.range l.nextIndex (l.committed + 1))[l.nextIndex + i - l.nextIndex]? =
          l.entryAt (l.nextIndex + i) := l.range_getElem? (by omega) (by omega) (by omega) fun hoff => by
        have := (h.storage_of_lt hnext.1 hoff).2
        omega
      rw [← hat]
      obtain ⟨rest, hrest⟩ := hpre
      rw [← hrest, Nat.add_sub_cancel_left, List.getElem?_append_left hi, he]
  · rw [if_neg hgt]
    refine ⟨[], rfl, fun i e he => ?_, by simpa using hnext.2, fun hhas => ?_⟩
    · rw [List.getElem?_nil] at he
      cases he
    · exact absurd (of_decide_eq_true hhas) hgt

end Sound

/-! ## Edits -/

/-- The unstable part with other entries from an index on. -/
def cutAt (u : Unstable) (j : ℕ) (es : List Entry) : Unstable :=
  if j ≤ u.offset then { u with offset := j, entries := es }
  else { u with entries := u.entries.take (j - u.offset) ++ es }

/-- One change of a log. -/
inductive Edit (l : RaftLog) : RaftLog → Prop
  /-- The commit index is raised. -/
  | commit (k : ℕ) (h : l.committed ≤ k) (hk : k ≤ l.lastIndex) : Edit l { l with committed := k }
  /-- Entries are added at the end. -/
  | append (es : List Entry) (hne : es ≠ []) (hes : IndexedFrom (l.lastIndex + 1) es) :
      Edit l { l with unstable := { l.unstable with entries := l.unstable.entries ++ es } }
  /-- Entries above the committed ones are replaced. -/
  | cut (j : ℕ) (es : List Entry) (hj : l.committed < j) (hle : j ≤ l.lastIndex) (hne : es ≠ [])
      (hes : IndexedFrom j es) : Edit l { l with unstable := cutAt l.unstable j es }
  /-- A snapshot takes the place of the log. -/
  | restore (s : Snapshot) (h : l.committed < s.metadata.index) : Edit l (l.restore s)

/-- A sequence of edits. -/
abbrev Edits : RaftLog → RaftLog → Prop := Relation.ReflTransGen Edit

/-- An edit changes neither the storage nor what is applied, and does not lower the commit index. -/
theorem Edit.frame (h : Edit l l') : l'.storage = l.storage ∧ l'.applied = l.applied ∧
    l'.maxNextEntsSize = l.maxNextEntsSize ∧ l.committed ≤ l'.committed := by
  cases h with
  | commit k h hk => exact ⟨rfl, rfl, rfl, h⟩
  | restore s h => exact ⟨rfl, rfl, rfl, Nat.le_of_lt h⟩
  | _ => exact ⟨rfl, rfl, rfl, Nat.le_refl _⟩

/-- Edits change neither the storage nor what is applied, and do not lower the commit index. -/
theorem Edits.frame (h : Edits l l') : l'.storage = l.storage ∧ l'.applied = l.applied ∧
    l'.maxNextEntsSize = l.maxNextEntsSize ∧ l.committed ≤ l'.committed := by
  induction h with
  | refl => exact ⟨rfl, rfl, rfl, Nat.le_refl _⟩
  | tail _ hedit ih =>
    obtain ⟨h₁, h₂, h₃, h₄⟩ := hedit.frame
    exact ⟨h₁.trans ih.1, h₂.trans ih.2.1, h₃.trans ih.2.2.1, Nat.le_trans ih.2.2.2 h₄⟩

/-- Where a cut leaves the unstable part: the snapshot stays, the entries reach up to the new ones, and
the offset is not above the old one. -/
theorem cutAt_place {u : Unstable} {j : ℕ} (es : List Entry)
    (hle : j ≤ u.offset + u.entries.length) :
    (cutAt u j es).snapshot = u.snapshot ∧ (cutAt u j es).offset = min j u.offset ∧
      (cutAt u j es).offset + (cutAt u j es).entries.length = j + es.length := by
  unfold cutAt
  split_ifs with hj
  · exact ⟨rfl, (Nat.min_eq_left hj).symm, rfl⟩
  · refine ⟨rfl, ?_, ?_⟩
    · show u.offset = min j u.offset
      omega
    · simp only [List.length_append, List.length_take]
      omega

/-- What a cut leaves, of entries that carry their indices. -/
theorem cutAt_spec {u : Unstable} {j : ℕ} {es : List Entry} (hle : j ≤ u.offset + u.entries.length)
    (hes : IndexedFrom j es) (hu : IndexedFrom u.offset u.entries) :
    (cutAt u j es).snapshot = u.snapshot ∧ (cutAt u j es).offset = min j u.offset ∧
      (cutAt u j es).offset + (cutAt u j es).entries.length = j + es.length ∧
      IndexedFrom (cutAt u j es).offset (cutAt u j es).entries := by
  obtain ⟨hsnap, hoff, hlen⟩ := cutAt_place es hle
  refine ⟨hsnap, hoff, hlen, ?_⟩
  unfold cutAt
  split_ifs with hj
  · exact hes
  · have hlen : (u.entries.take (j - u.offset)).length = j - u.offset := by
      rw [List.length_take]
      omega
    refine (hu.of_isPrefix (List.take_prefix _ _)).append ?_
    rw [hlen, show u.offset + (j - u.offset) = j by omega]
    exact hes

/-- An edit keeps the parts of the log together. -/
theorem Sound.edit (h : l.Sound) (he : Edit l l') : l'.Sound := by
  have hlast := h.lastIndex_succ
  cases he with
  | commit k hk hle =>
    exact { h with
      applied_le := Nat.le_trans h.applied_le hk
      committed_le := hle
      snapshot_le := Nat.le_trans h.snapshot_le hk
      pending_committed := fun s hs => Nat.le_trans (h.pending_committed s hs) hk }
  | append es hne hes =>
    have hpos := List.length_pos_iff.mpr hne
    have hne' : l.unstable.entries ++ es ≠ [] := List.append_ne_nil_of_right_ne_nil _ hne
    exact { h with
      unstable_indexed := h.unstable_indexed.append (by rw [← hlast]; exact hes)
      committed_le := by
        have hc := h.committed_le
        rw [lastIndex_of_ne_nil hne']
        simp only [List.length_append]
        omega
      applied_lt := fun hs => by
        have ha := h.applied_lt hs
        simp only [List.length_append]
        omega
      offset_eq := fun _ hnil => absurd hnil hne' }
  | cut j es hj hle hne hes =>
    have hpos := List.length_pos_iff.mpr hne
    obtain ⟨hsnap, hoff, hlen, hidx⟩ := cutAt_spec (by omega) hes h.unstable_indexed
    have happlied := h.applied_le
    have hne' : (cutAt l.unstable j es).entries ≠ [] := fun hnil => by
      rw [hnil] at hlen
      simp only [List.length_nil] at hlen
      omega
    -- With a snapshot to install, the cut is above it.
    have hpending : ∀ s ∈ l.unstable.snapshot, l.unstable.offset ≤ j := fun s hs => by
      have h₁ := h.pending_offset s hs
      have h₂ := h.pending_committed s hs
      omega
    constructor
    · exact h.storage_indexed
    · exact hidx
    · exact happlied
    · rw [lastIndex_of_ne_nil hne']
      show l.committed ≤ _
      simp only
      omega
    · exact h.snapshot_le
    · exact fun hs => h.compacted (hsnap.symm.trans hs)
    · intro hs
      show l.applied < _
      simp only
      omega
    · intro hs
      have := h.offset_le (hsnap.symm.trans hs)
      simp only [hoff]
      omega
    · exact fun _ hnil => absurd hnil hne'
    · intro s hs
      have hs' : s ∈ l.unstable.snapshot := hsnap ▸ hs
      simp only [hoff, Nat.min_eq_right (hpending s hs')]
      exact h.pending_offset s hs'
    · exact fun s hs => h.pending_applied s (hsnap ▸ hs)
    · exact fun s hs => h.pending_committed s (hsnap ▸ hs)
    · exact fun s hs => h.pending_dummy s (hsnap ▸ hs)
  | restore s hs =>
    have happlied := h.applied_le
    have hdummy : l.storage.dummy.index ≤ l.committed := by
      cases hp : l.unstable.snapshot with
      | none => exact Nat.le_trans (h.compacted hp) happlied
      | some s' => exact Nat.le_trans (h.pending_dummy s' hp) (h.pending_committed s' hp)
    constructor
    · exact h.storage_indexed
    · exact nofun
    · exact Nat.le_of_lt (Nat.lt_of_le_of_lt happlied hs)
    · exact Nat.le_refl _
    · exact Nat.le_of_lt (Nat.lt_of_le_of_lt h.snapshot_le hs)
    · exact nofun
    · exact nofun
    · exact nofun
    · exact nofun
    · rintro _ ⟨⟩
      rfl
    · rintro _ ⟨⟩
      exact Nat.lt_of_le_of_lt happlied hs
    · rintro _ ⟨⟩
      exact Nat.le_refl _
    · rintro _ ⟨⟩
      exact Nat.le_of_lt (Nat.lt_of_le_of_lt hdummy hs)

/-- Edits keep the parts of the log together. -/
theorem Sound.edits (h : l.Sound) (he : Edits l l') : l'.Sound := by
  induction he with
  | refl => exact h
  | tail _ hedit ih => exact ih.edit hedit

/-! ## What the handlers do -/

/-- A log that commits up to an index. -/
theorem commitTo_edits (l : RaftLog) (k : ℕ) : Ensures (l.commitTo k) (Edits l) := by
  unfold commitTo
  refine Ensures.ite (fun hlt => ?_) fun _ => Ensures.ok Relation.ReflTransGen.refl
  refine Ensures.ite (fun _ => Ensures.error) fun hle => Ensures.ok ?_
  exact Relation.ReflTransGen.single (Edit.commit k (Nat.le_of_lt hlt) (Nat.le_of_not_lt hle))

/-- A log that appends entries. -/
theorem append_edits (h : l.Sound) {j : ℕ} {es : List Entry} (hj : 1 ≤ j) (hes : IndexedFrom j es) :
    Ensures (l.append es) (Edits l) := by
  have hlast := h.lastIndex_succ
  unfold append
  cases es with
  | nil => exact Ensures.pure Relation.ReflTransGen.refl
  | cons e es =>
    have hej : e.index = j := hes.head
    dsimp only
    rw [hej, sub64_of_le hj]
    refine Ensures.ite (fun _ => Ensures.error) fun hcommitted => ?_
    refine Ensures.bind (P := fun u => Edit l { l with unstable := u }) ?_ fun u hu =>
      Ensures.pure (Relation.ReflTransGen.single hu)
    have hcut : j ≤ l.lastIndex → Edit l { l with unstable := cutAt l.unstable j (e :: es) } :=
      fun hle => Edit.cut j (e :: es) (by omega) hle (List.cons_ne_nil _ _) hes
    unfold Unstable.truncateAndAppend
    dsimp only
    rw [hej]
    refine Ensures.ite (fun hend => Ensures.pure ?_) fun hend => ?_
    · exact Edit.append (e :: es) (List.cons_ne_nil _ _) (by rw [hlast, ← hend]; exact hes)
    refine Ensures.ite (fun hlow => Ensures.pure ?_) fun hlow => ?_
    · have := hcut (by omega)
      rw [cutAt, if_pos hlow] at this
      exact this
    · refine Ensures.bind (l.unstable.slice_spec _ _) fun kept hkept => Ensures.pure ?_
      obtain ⟨rfl, -, hle⟩ := hkept
      have := hcut (by omega)
      rw [cutAt, if_neg hlow] at this
      rw [Nat.sub_self, List.drop_zero]
      exact this

/-- Adding entries at the end is no edit or one. -/
theorem edits_append (l : RaftLog) {es : List Entry} (hes : IndexedFrom (l.lastIndex + 1) es) :
    l.Edits { l with unstable := { l.unstable with entries := l.unstable.entries ++ es } } := by
  by_cases hnil : es = []
  · rw [hnil, List.append_nil]
  · exact Relation.ReflTransGen.single (Edit.append es hnil hes)

/-- Entries that follow the last index are added at the end. -/
theorem append_at_end (h : l.Sound) {es : List Entry} (hes : IndexedFrom (l.lastIndex + 1) es) :
    l.append es =
      .ok { l with unstable := { l.unstable with entries := l.unstable.entries ++ es } } := by
  have hlast := h.lastIndex_succ
  have hcommitted := h.committed_le
  unfold append
  cases es with
  | nil => rw [List.append_nil]; rfl
  | cons e es =>
    have hej : e.index = l.lastIndex + 1 := hes.head
    dsimp only
    rw [hej, sub64_of_le (Nat.succ_pos _), if_neg (by omega)]
    unfold Unstable.truncateAndAppend
    dsimp only
    rw [hej, if_pos hlast]
    rfl

/-- A log that writes the entries of an append message. -/
theorem maybeAppend_edits (h : l.Sound) {index logTerm committed : ℕ} {es : List Entry}
    (hes : IndexedFrom (index + 1) es) :
    Ensures (l.maybeAppend index logTerm committed es) fun p => Edits l p.2 := by
  unfold maybeAppend
  refine Ensures.ite (fun _ => ?_) fun _ => Ensures.pure Relation.ReflTransGen.refl
  refine Ensures.bind (P := Edits l) ?_ fun l₁ h₁ => ?_
  · unfold appendFrom
    dsimp only
    refine Ensures.ite (fun _ => Ensures.ok Relation.ReflTransGen.refl) fun _ => ?_
    refine Ensures.ite (fun _ => Ensures.error) fun _ => ?_
    refine Ensures.ite (fun _ => Ensures.error) fun hlen => ?_
    exact append_edits h (by omega) (hes.drop _)
  · exact Ensures.bind (l₁.commitTo_edits _) fun l₂ h₂ => Ensures.pure (h₁.trans h₂)

end RaftLog

/-- The entries of an append message follow its index, as those that a leader sends do. -/
def Message.Consecutive (m : Message) : Prop :=
  m.type = .msgApp → IndexedFrom (m.index + 1) m.entries

instance (k : ℕ) (es : List Entry) : Decidable (IndexedFrom k es) :=
  decidable_of_iff (∀ i : Fin es.length, es[i].index = k + i) <| by
    constructor
    · intro h i e he
      obtain ⟨hi, rfl⟩ := List.getElem?_eq_some_iff.mp he
      exact h ⟨i, hi⟩
    · intro h i
      exact h i es[i] (List.getElem?_eq_getElem i.2)

instance (m : Message) : Decidable m.Consecutive :=
  inferInstanceAs (Decidable (_ → IndexedFrom _ _))

variable {c : Cause} {r r' : Raft}

/-- A change of the log is a sequence of edits. -/
theorem LogMove.edits {l : RaftLog} (h : LogMove c r l) (hsound : r.raftLog.Sound)
    (hc : ∀ m, c = .step m → m.Consecutive) : r.raftLog.Edits l := by
  cases h with
  | commit k h => exact r.raftLog.commitTo_edits k l h
  | propose m es hm htype hlead hes h =>
    exact RaftLog.append_edits hsound (Nat.succ_pos _)
      (Raft.stampEntries_spec _ _ _).1 l h
  | elected hlead h =>
    exact RaftLog.append_edits hsound (Nat.succ_pos _)
      (Raft.stampEntries_spec _ _ _).1 l h
  | write m last hm htype hindex h =>
    exact RaftLog.maybeAppend_edits hsound (hc m hm htype) (last, l) h
  | restore m hm htype hindex hterm =>
    exact Relation.ReflTransGen.single (RaftLog.Edit.restore m.snapshot hindex)

/-- What a move does to the log is a sequence of edits. -/
theorem Move.edits (h : Move c r r') (hsound : r.raftLog.Sound)
    (hc : ∀ m, c = .step m → m.Consecutive) : r.raftLog.Edits r'.raftLog := by
  have hsame : r'.raftLog = r.raftLog → r.raftLog.Edits r'.raftLog := fun heq => by
    rw [heq]
  cases h with
  | other h => exact hsame (congrArg Outline.raftLog h)
  | send x hx h =>
    obtain ⟨rfl, -⟩ := Raft.send_eq h
    exact hsame rfl
  | follow t lead h => exact hsame (r.reset_raftLog t)
  | campaign hstate h => exact hsame (r.reset_raftLog _)
  | lead hstate hcount => exact hsame (r.reset_raftLog _)
  | log h => exact h.edits hsound hc
  | members hm h => exact hsame (congrArg Outline.raftLog h)
  | _ => exact hsame rfl

/-- What moves do to the log is a sequence of edits. -/
theorem Course.edits (h : Course c r r') (hsound : r.raftLog.Sound)
    (hc : ∀ m, c = .step m → m.Consecutive) : r.raftLog.Edits r'.raftLog := by
  induction h with
  | refl => exact Relation.ReflTransGen.refl
  | tail _ hmove ih => exact ih.trans (hmove.edits (hsound.edits ih) hc)

/-- Writing to the unstable part leaves the snapshot to install alone. -/
theorem Unstable.truncateAndAppend_snapshot {u : Unstable} {es : List Entry} :
    Ensures (u.truncateAndAppend es) fun u' => u'.snapshot = u.snapshot := by
  unfold truncateAndAppend
  cases es with
  | nil => exact Ensures.pure rfl
  | cons e es =>
    refine Ensures.ite (fun _ => Ensures.pure rfl) fun _ => ?_
    refine Ensures.ite (fun _ => Ensures.pure rfl) fun _ => ?_
    exact Ensures.bind Ensures.any fun _ _ => Ensures.pure rfl

namespace RaftLog

/-- So does `commit_to`. -/
theorem commitTo_snapshot (l : RaftLog) (k : ℕ) :
    Ensures (l.commitTo k) fun l' => l'.unstable.snapshot = l.unstable.snapshot := by
  unfold commitTo
  refine Ensures.ite (fun _ => ?_) fun _ => Ensures.ok rfl
  exact Ensures.ite (fun _ => Ensures.error) fun _ => Ensures.ok rfl

/-- So does `append`. -/
theorem append_snapshot (l : RaftLog) (es : List Entry) :
    Ensures (l.append es) fun l' => l'.unstable.snapshot = l.unstable.snapshot := by
  unfold append
  split
  · exact Ensures.pure rfl
  · refine Ensures.ite (fun _ => Ensures.error) fun _ => ?_
    exact Ensures.bind Unstable.truncateAndAppend_snapshot fun _ hu => Ensures.pure hu

/-- So does `maybe_append`. -/
theorem maybeAppend_snapshot (l : RaftLog) (index logTerm committed : ℕ) (es : List Entry) :
    Ensures (l.maybeAppend index logTerm committed es) fun p =>
      p.2.unstable.snapshot = l.unstable.snapshot := by
  unfold maybeAppend
  refine Ensures.ite (fun _ => ?_) fun _ => Ensures.pure rfl
  have hwritten : Ensures (l.appendFrom index es) fun l' => l'.unstable.snapshot = l.unstable.snapshot := by
    unfold appendFrom
    refine Ensures.ite (fun _ => Ensures.ok rfl) fun _ => ?_
    refine Ensures.ite (fun _ => Ensures.error) fun _ => ?_
    exact Ensures.ite (fun _ => Ensures.error) fun _ => append_snapshot _ _
  refine Ensures.bind hwritten fun l₁ h₁ => ?_
  exact Ensures.bind (commitTo_snapshot _ _) fun l₂ h₂ => Ensures.pure (h₂.trans h₁)

end RaftLog

/-- The snapshot to install stays, or a snapshot message brings it. -/
theorem LogMove.snapshot_cases {l : RaftLog} (h : LogMove c r l) :
    l.unstable.snapshot = r.raftLog.unstable.snapshot ∨
      ∃ m, c = .step m ∧ m.type = .msgSnap ∧ l.unstable.snapshot = some m.snapshot := by
  cases h with
  | commit k h => exact Or.inl (r.raftLog.commitTo_snapshot k l h)
  | elected hlead h => exact Or.inl (r.raftLog.append_snapshot _ l h)
  | propose m es hm htype hlead hes h => exact Or.inl (r.raftLog.append_snapshot _ l h)
  | write m last hm htype hindex h => exact Or.inl (r.raftLog.maybeAppend_snapshot _ _ _ _ (last, l) h)
  | restore m hm htype hindex hterm => exact Or.inr ⟨m, hm, htype, rfl⟩

/-- The snapshot to install stays, or a snapshot message brings it. -/
theorem Course.snapshot_cases (h : Course c r r') :
    r'.raftLog.unstable.snapshot = r.raftLog.unstable.snapshot ∨
      ∃ m, c = .step m ∧ m.type = .msgSnap ∧ r'.raftLog.unstable.snapshot = some m.snapshot := by
  induction h with
  | refl => exact Or.inl rfl
  | @tail r₁ r₂ _ hmove ih =>
    have hlog : r₂.raftLog.unstable.snapshot = r₁.raftLog.unstable.snapshot ∨
        ∃ m, c = .step m ∧ m.type = .msgSnap ∧ r₂.raftLog.unstable.snapshot = some m.snapshot := by
      cases hmove with
      | other h => exact Or.inl (by rw [show r₂.raftLog = r₁.raftLog from congrArg Outline.raftLog h])
      | send x hx h =>
        obtain ⟨rfl, -⟩ := Raft.send_eq h
        exact Or.inl rfl
      | follow t lead h => exact Or.inl (congrArg (·.unstable.snapshot) (r₁.reset_raftLog t))
      | campaign hstate h => exact Or.inl (congrArg (·.unstable.snapshot) (r₁.reset_raftLog _))
      | lead hstate hcount => exact Or.inl (congrArg (·.unstable.snapshot) (r₁.reset_raftLog _))
      | log h => exact h.snapshot_cases
      | members hm h => exact Or.inl (by rw [show r₂.raftLog = r₁.raftLog from congrArg Outline.raftLog h])
      | _ => exact Or.inl rfl
    obtain heq | hnew := hlog
    · rw [heq]
      exact ih
    · exact Or.inr hnew

/-- Only a snapshot message brings a snapshot to install. -/
theorem Course.snapshot_eq (h : Course c r r') (hc : ∀ m, c = .step m → m.type ≠ .msgSnap) :
    r'.raftLog.unstable.snapshot = r.raftLog.unstable.snapshot :=
  h.snapshot_cases.resolve_right fun ⟨m, hm, htype, _⟩ => hc m hm htype

end RaftCpp
