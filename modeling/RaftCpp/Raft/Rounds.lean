import RaftCpp.Raft.Host
import RaftCpp.Raft.SoundLog

/-!
# The rounds of an application

Between `ready` and `advance` the node may go on: it appends, replaces what was taken, or restores a newer
snapshot. What was taken can be written to the storage all the same, and the node can advance past it,
unless a newer snapshot is to be installed and what was taken is part of the log again.
-/

namespace RaftCpp

open Outcome

/-! ## The storage -/

namespace MemoryStorage

variable {s : MemoryStorage}

/-- The placeholder stays at the front. -/
theorem dummy_of_entries {s' : MemoryStorage} {n : ℕ} {es : List Entry} (hn : 1 ≤ n)
    (h : s'.entries = s.entries.take n ++ es) : s'.dummy = s.dummy := by
  obtain ⟨rest, hrest⟩ := RaftLog.storage_entries s
  obtain ⟨m, rfl⟩ : ∃ m, n = m + 1 := ⟨n - 1, by omega⟩
  have hhead : s'.entries.head? = some s.dummy := by
    rw [h, hrest]
    rfl
  rw [List.head?_eq_some_head s'.entries_ne_nil] at hhead
  exact Option.some.inj hhead

/-- `append` overwrites the storage with entries that continue it or override a part of it, and reach
above what is compacted. -/
theorem append_ok {a : ℕ} {es : List Entry} (hes : IndexedFrom a es) (hne : es ≠ [])
    (ha : a ≤ s.lastIndex + 1) (hlast : s.dummy.index + 2 ≤ a + es.length) :
    ∃ s', s.append es = .ok s' ∧ s'.hardState = s.hardState ∧ s'.snapshot = s.snapshot ∧
      s'.dummy = s.dummy ∧ s'.entries = s.entries.take (max a (s.dummy.index + 1) - s.dummy.index) ++
        es.drop (s.dummy.index + 1 - a) := by
  have hslen := RaftLog.storage_lastIndex_succ s
  have hslen_pos := List.length_pos_iff.mpr s.entries_ne_nil
  cases es with
  | nil => exact absurd rfl hne
  | cons e es =>
    have hea : e.index = a := hes.head
    unfold append firstIndex
    dsimp only
    rw [hea, if_neg (by omega)]
    cases hdrop : (e :: es).drop (s.dummy.index + 1 - a) with
    | nil =>
      have hlen := congrArg List.length hdrop
      simp only [List.length_drop, List.length_nil, List.length_cons] at hlen hlast
      omega
    | cons e' es' =>
      have he' : e'.index = max a (s.dummy.index + 1) := by
        have hi := hes.drop (s.dummy.index + 1 - a)
        rw [hdrop] at hi
        rw [hi.head]
        omega
      have hsub : sub64 e'.index s.dummy.index = max a (s.dummy.index + 1) - s.dummy.index := by
        rw [sub64_of_le (by omega), he']
      have hpos : 1 ≤ sub64 e'.index s.dummy.index := by omega
      have hle : sub64 e'.index s.dummy.index ≤ s.entries.length := by omega
      dsimp only
      unfold overwrite
      dsimp only
      by_cases hgt : s.entries.length > sub64 e'.index s.dummy.index
      · rw [if_pos hgt, ← hsub]
        refine ⟨_, rfl, rfl, rfl, ?_, rfl⟩
        exact dummy_of_entries hpos rfl
      · have heq : s.entries.length = sub64 e'.index s.dummy.index := by omega
        rw [if_neg hgt, if_pos heq, ← hsub]
        have htake : s.entries ++ e' :: es' =
            s.entries.take (sub64 e'.index s.dummy.index) ++ e' :: es' := by
          rw [← heq, List.take_length]
        refine ⟨_, rfl, rfl, rfl, ?_, htake⟩
        exact dummy_of_entries hpos htake

/-- After `append`, the storage ends with the new entries. -/
theorem append_indexed (hs : IndexedFrom s.dummy.index s.entries) {a : ℕ} {es : List Entry}
    (hes : IndexedFrom a es) (hne : es ≠ []) (ha : a ≤ s.lastIndex + 1)
    (hlast : s.dummy.index + 2 ≤ a + es.length) :
    Ensures (s.append es) fun s' => s'.snapshot = s.snapshot ∧ s'.dummy = s.dummy ∧
      IndexedFrom s'.dummy.index s'.entries ∧ s'.lastIndex + 1 = a + es.length := by
  obtain ⟨s', happ, -, hsnap, hdummy, hentries⟩ := append_ok hes hne ha hlast
  intro s'' hs''
  rw [happ] at hs''
  cases hs''
  have hslen := RaftLog.storage_lastIndex_succ s
  have hslen' := RaftLog.storage_lastIndex_succ s'
  have hpos := List.length_pos_iff.mpr s.entries_ne_nil
  have htake : (s.entries.take (max a (s.dummy.index + 1) - s.dummy.index)).length =
      max a (s.dummy.index + 1) - s.dummy.index := by
    rw [List.length_take]
    omega
  refine ⟨hsnap, hdummy, ?_, ?_⟩
  · rw [hdummy, hentries]
    refine (hs.of_isPrefix (List.take_prefix _ _)).append ?_
    rw [htake]
    have hdrop := hes.drop (s.dummy.index + 1 - a)
    rw [show s.dummy.index + (max a (s.dummy.index + 1) - s.dummy.index) =
      a + (s.dummy.index + 1 - a) by omega]
    exact hdrop
  · rw [hslen', hdummy, hentries, List.length_append, htake, List.length_drop]
    omega

/-- `compact` moves the placeholder to an index of the storage, or does nothing. -/
theorem compact_spec (hs : IndexedFrom s.dummy.index s.entries) (index : ℕ) :
    Ensures (s.compact index) fun p => p.2 = s ∨
      p.2.snapshot = s.snapshot ∧ p.2.dummy.index = index ∧ s.dummy.index < index ∧
        IndexedFrom index p.2.entries ∧ p.2.lastIndex = s.lastIndex := by
  have hslen := RaftLog.storage_lastIndex_succ s
  unfold compact
  refine Ensures.ite (fun _ => Ensures.pure (Or.inl rfl)) fun hgt => ?_
  refine Ensures.ite (fun _ => Ensures.error) fun hle => ?_
  refine Ensures.bind (P := fun e => e.index = index) ?_ fun e he => Ensures.pure (Or.inr ?_)
  · intro e he
    unfold elemAt at he
    split at he
    · next e' he' =>
      cases he
      rw [hs _ _ he']
      omega
    · cases he
  · have hdrop := hs.drop (index - s.dummy.index + 1)
    rw [show s.dummy.index + (index - s.dummy.index + 1) = index + 1 by omega] at hdrop
    have hidx : IndexedFrom index ({ s.dummy with index := e.index, term := e.term } ::
        s.entries.drop (index - s.dummy.index + 1)) := by
      intro i e' he'
      cases i with
      | zero =>
        cases he'
        exact he
      | succ i =>
        rw [hdrop i e' he']
        omega
    refine ⟨rfl, he, by omega, hidx, ?_⟩
    subst he
    unfold lastIndex at hslen hle ⊢
    simp only [List.length_cons, List.length_drop]
    show e.index + _ - 1 = _
    omega

/-- `create_snapshot` puts a snapshot of the index into the storage, or does nothing. -/
theorem createSnapshot_spec (index : ℕ) (cs : Option ConfState) (data : Bytes) :
    Ensures (s.createSnapshot index cs data) fun p => p.2.2 = s ∨
      p.2.2.snapshot.metadata.index = index ∧ p.2.2.entries = s.entries := by
  unfold createSnapshot
  refine Ensures.ite (fun _ => Ensures.pure (Or.inl rfl)) fun _ => ?_
  refine Ensures.ite (fun _ => Ensures.error) fun _ => ?_
  exact Ensures.bind Ensures.any fun e _ => Ensures.pure (Or.inr ⟨rfl, rfl⟩)

end MemoryStorage

/-! ## What was taken, and what has become of it -/

namespace RaftLog

variable {l l' : RaftLog} {rd : Ready} {a : ℕ} {persisted : Bool}

/-- The snapshot of the unstable part is the one that was taken, if any. -/
def HasSnapshotOf (l : RaftLog) (rd : Ready) : Prop :=
  l.unstable.snapshot = if rd.snapshot.isEmpty then none else some rd.snapshot

/-- What has become of the unstable part since it was taken, with its offset at that time. -/
inductive Place (l : RaftLog) (rd : Ready) (a : ℕ) : Prop
  /-- It is still there, perhaps with more entries. -/
  | kept (hsnap : l.HasSnapshotOf rd) (hoff : l.unstable.offset = a)
      (hpre : rd.entries <+: l.unstable.entries)
  /-- Some of its entries were replaced, all of them above what was handed out for application. -/
  | cut (hsnap : l.HasSnapshotOf rd) (hoff : l.unstable.offset ≤ a) (hne : l.unstable.entries ≠ [])
      (hcursor : rd.appliedCursor < l.unstable.offset + (l.unstable.entries.length - 1))
  /-- A newer snapshot took its place. -/
  | replaced (s : Snapshot) (hs : l.unstable.snapshot = some s)
      (hcursor : rd.appliedCursor < s.metadata.index)
      (hnew : rd.snapshot.metadata.index < s.metadata.index)
      (hfresh : l.storage.snapshot.metadata.index < s.metadata.index)

/-- A round that is under way: what was taken, against the log as it is now. -/
structure InRound (l : RaftLog) (rd : Ready) (persisted : Bool) (a : ℕ) : Prop where
  /-- The entries carry their indices. -/
  entries_indexed : IndexedFrom a rd.entries
  /-- What was handed out for application is committed. -/
  cursor_le : rd.appliedCursor ≤ l.committed
  /-- It was not applied before. -/
  cursor_gt : rd.appliedCursor = 0 ∨ l.applied < rd.appliedCursor
  /-- It is in the log that was taken. -/
  cursor_lt : rd.appliedCursor < a + rd.entries.length
  /-- The snapshot is not ahead of it. -/
  snapshot_le_cursor : rd.snapshot.metadata.index ≤ rd.appliedCursor
  /-- The snapshot is ahead of what was applied, and the entries follow it. -/
  snapshot_gt : rd.snapshot.isEmpty = false →
    l.applied < rd.snapshot.metadata.index ∧ a = rd.snapshot.metadata.index + 1
  /-- What has become of it. -/
  place : l.Place rd a
  /-- It can be written to the storage. -/
  writable : persisted = false →
    (rd.snapshot.isEmpty = true → l.storage.dummy.index ≤ l.applied ∧ a ≤ l.storage.lastIndex + 1 ∧
        l.applied < a + (rd.entries.length - 1)) ∧
      (rd.snapshot.isEmpty = false →
        l.storage.snapshot.metadata.index < rd.snapshot.metadata.index)
  /-- It was written to the storage. -/
  written : persisted = true → rd.entries ≠ [] ∨ rd.snapshot.isEmpty = false →
    l.storage.lastIndex + 1 = a + rd.entries.length

/-- A snapshot to install is newer than the storage's. -/
def Fresh (l : RaftLog) : Prop :=
  ∀ s ∈ l.unstable.snapshot, l.storage.snapshot.metadata.index < s.metadata.index

/-- An edit leaves the round as it is. -/
theorem Place.edit (h : l.Place rd a) (hsound : l.Sound) (he : l.Edit l')
    (hcursor : rd.appliedCursor ≤ l.committed) : l'.Place rd a := by
  have hlast := hsound.lastIndex_succ
  cases he with
  | commit k hk hle =>
    cases h with
    | kept hsnap hoff hpre => exact Place.kept hsnap hoff hpre
    | cut hsnap hoff hne hc => exact Place.cut hsnap hoff hne hc
    | replaced s hs hc hnew hfresh => exact Place.replaced s hs hc hnew hfresh
  | append es hne hes =>
    cases h with
    | kept hsnap hoff hpre =>
      exact Place.kept hsnap hoff (hpre.trans (List.prefix_append _ _))
    | cut hsnap hoff hne' hc =>
      refine Place.cut hsnap hoff (List.append_ne_nil_of_right_ne_nil _ hne) ?_
      simp only [List.length_append]
      omega
    | replaced s hs hc hnew hfresh => exact Place.replaced s hs hc hnew hfresh
  | cut j es hj hle hne hes =>
    have hpos := List.length_pos_iff.mpr hne
    obtain ⟨hsnap', hoff', hlen', -⟩ := cutAt_spec (by omega) hes hsound.unstable_indexed
    have hne' : (cutAt l.unstable j es).entries ≠ [] := fun hnil => by
      rw [hnil] at hlen'
      simp only [List.length_nil] at hlen'
      omega
    have hcut : l.HasSnapshotOf rd → l.unstable.offset ≤ a →
        Place { l with unstable := cutAt l.unstable j es } rd a := fun hsnap hoff => by
      refine Place.cut (hsnap'.trans hsnap) ?_ hne' ?_
      · show (cutAt l.unstable j es).offset ≤ a
        omega
      · show _ < (cutAt l.unstable j es).offset + ((cutAt l.unstable j es).entries.length - 1)
        omega
    cases h with
    | kept hsnap hoff hpre => exact hcut hsnap (Nat.le_of_eq hoff)
    | cut hsnap hoff _ _ => exact hcut hsnap hoff
    | replaced s hs hc hnew hfresh => exact Place.replaced s (hsnap'.trans hs) hc hnew hfresh
  | restore s hs =>
    have hnew : rd.snapshot.metadata.index ≤ l.committed := by
      have hown : l.HasSnapshotOf rd → rd.snapshot.metadata.index ≤ l.committed := fun hsnap => by
        unfold HasSnapshotOf at hsnap
        split_ifs at hsnap with hempty
        · rw [show rd.snapshot.metadata.index = 0 by simpa [Snapshot.isEmpty] using hempty]
          exact Nat.zero_le _
        · exact hsound.pending_committed _ hsnap
      cases h with
      | kept hsnap _ _ => exact hown hsnap
      | cut hsnap _ _ _ => exact hown hsnap
      | replaced s' hs' _ hnew _ =>
        exact Nat.le_trans (Nat.le_of_lt hnew) (hsound.pending_committed s' hs')
    exact Place.replaced s rfl (Nat.lt_of_le_of_lt hcursor hs) (Nat.lt_of_le_of_lt hnew hs)
      (Nat.lt_of_le_of_lt hsound.snapshot_le hs)

/-- Edits leave the round as it is. -/
theorem InRound.edits (h : l.InRound rd persisted a) (hsound : l.Sound) (he : l.Edits l') :
    l'.InRound rd persisted a := by
  have hplace : l'.Place rd a ∧ rd.appliedCursor ≤ l'.committed := by
    induction he with
    | refl => exact ⟨h.place, h.cursor_le⟩
    | tail hpre hedit ih =>
      exact ⟨ih.1.edit (hsound.edits hpre) hedit ih.2, Nat.le_trans ih.2 hedit.frame.2.2.2⟩
  obtain ⟨hstorage, happlied, -, -⟩ := he.frame
  constructor
  · exact h.entries_indexed
  · exact hplace.2
  · rw [happlied]
    exact h.cursor_gt
  · exact h.cursor_lt
  · exact h.snapshot_le_cursor
  · rw [happlied]
    exact h.snapshot_gt
  · exact hplace.1
  · rw [happlied, hstorage]
    exact h.writable
  · rw [hstorage]
    exact h.written

/-- A snapshot that an edit brings in is newer than the storage's. -/
theorem Fresh.edits (h : l.Fresh) (hsound : l.Sound) (he : l.Edits l') : l'.Fresh := by
  induction he with
  | refl => exact h
  | tail hpre hedit ih =>
    have hsound' := hsound.edits hpre
    unfold Fresh at ih ⊢
    cases hedit with
    | commit k hk hle => exact ih
    | append es hne hes => exact ih
    | cut j es hj hle hne hes =>
      have hlast := hsound'.lastIndex_succ
      intro s hs
      rw [(cutAt_spec (by omega) hes hsound'.unstable_indexed).1] at hs
      exact ih s hs
    | restore s hs =>
      rintro _ ⟨⟩
      exact Nat.lt_of_le_of_lt hsound'.snapshot_le hs

/-! ## Taking -/

/-- The index of the last entry that was handed out. -/
theorem appliedCursor_of_ne_nil (hsound : l.Sound) (hnext : l.nextEntries = .ok rd.committedEntries)
    (hne : rd.committedEntries ≠ []) :
    rd.appliedCursor + 1 = l.nextIndex + rd.committedEntries.length := by
  obtain ⟨es, hes, hentry, -, -⟩ := hsound.nextEntries_ok
  rw [hnext] at hes
  cases hes
  have hpos := List.length_pos_iff.mpr hne
  have hlast : rd.committedEntries.getLast? = some (rd.committedEntries.getLast hne) :=
    List.getLast?_eq_some_getLast hne
  unfold Ready.appliedCursor
  rw [hlast]
  rw [List.getLast?_eq_getElem?] at hlast
  have hidx := hsound.entryAt_index (hentry _ _ hlast)
  dsimp only
  omega

/-- Without such an entry, it is the snapshot's. -/
theorem appliedCursor_of_nil (h : rd.committedEntries = []) :
    rd.appliedCursor = rd.snapshot.metadata.index := by
  unfold Ready.appliedCursor
  rw [h]
  rfl

/-- What is taken begins a round. -/
theorem Sound.ready (h : l.Sound) (hfresh : l.Fresh) (hentries : rd.entries = l.unstable.entries)
    (hsnap : rd.snapshot = l.unstable.snapshot.getD {})
    (hnext : l.nextEntries = .ok rd.committedEntries) :
    l.InRound rd false l.unstable.offset := by
  have hlast := h.lastIndex_succ
  have hcommitted := h.committed_le
  obtain ⟨es, hes, -, hle, -⟩ := h.nextEntries_ok
  rw [hnext] at hes
  cases hes
  -- The snapshot, in the two cases.
  have hnone : l.unstable.snapshot = none → rd.snapshot.metadata.index = 0 ∧
      rd.snapshot.isEmpty = true := fun hs => by
    rw [hsnap, hs]
    exact ⟨rfl, rfl⟩
  have hsome : ∀ s, l.unstable.snapshot = some s → rd.snapshot = s ∧ rd.snapshot.isEmpty = false ∧
      l.applied < s.metadata.index ∧ l.unstable.offset = s.metadata.index + 1 ∧
      s.metadata.index ≤ l.committed := fun s hs => by
    have happlied := h.pending_applied s hs
    have heq : rd.snapshot = s := by rw [hsnap, hs, Option.getD_some]
    refine ⟨heq, ?_, happlied, h.pending_offset s hs, h.pending_committed s hs⟩
    simp only [heq, Snapshot.isEmpty, beq_eq_false_iff_ne, ne_eq]
    omega
  have hplace : l.HasSnapshotOf rd := by
    unfold HasSnapshotOf
    cases hs : l.unstable.snapshot with
    | none => rw [if_pos (hnone hs).2]
    | some s =>
      obtain ⟨heq, hempty, -⟩ := hsome s hs
      rw [hempty, heq]
      rfl
  have hnextIndex : l.applied < l.nextIndex := by
    unfold nextIndex
    omega
  have hcursor : rd.appliedCursor ≤ l.committed ∧
      (rd.appliedCursor = 0 ∨ l.applied < rd.appliedCursor) ∧
      rd.appliedCursor < l.unstable.offset + rd.entries.length ∧
      rd.snapshot.metadata.index ≤ rd.appliedCursor := by
    by_cases hnil : rd.committedEntries = []
    · rw [appliedCursor_of_nil hnil, hentries]
      cases hs : l.unstable.snapshot with
      | none =>
        have happlied := h.applied_lt hs
        rw [(hnone hs).1]
        exact ⟨Nat.zero_le _, Or.inl rfl, by omega, Nat.le_refl _⟩
      | some s =>
        obtain ⟨heq, -, happlied, hoff, hsc⟩ := hsome s hs
        rw [heq]
        exact ⟨hsc, Or.inr happlied, by omega, Nat.le_refl _⟩
    · have hc := appliedCursor_of_ne_nil h hnext hnil
      have hpos := List.length_pos_iff.mpr hnil
      refine ⟨by omega, Or.inr (by omega), by rw [hentries]; omega, ?_⟩
      cases hs : l.unstable.snapshot with
      | none =>
        rw [(hnone hs).1]
        exact Nat.zero_le _
      | some s =>
        have hfirst : s.metadata.index + 1 ≤ l.nextIndex := by
          unfold nextIndex
          rw [Sound.firstIndex_of_some hs]
          exact Nat.le_max_right _ _
        rw [(hsome s hs).1]
        omega
  constructor
  · rw [hentries]
    exact h.unstable_indexed
  · exact hcursor.1
  · exact hcursor.2.1
  · exact hcursor.2.2.1
  · exact hcursor.2.2.2
  · intro hempty
    cases hs : l.unstable.snapshot with
    | none =>
      rw [(hnone hs).2] at hempty
      cases hempty
    | some s =>
      obtain ⟨heq, -, happlied, hoff, -⟩ := hsome s hs
      rw [heq]
      exact ⟨happlied, hoff⟩
  · exact Place.kept hplace rfl (by rw [hentries])
  · intro _
    cases hs : l.unstable.snapshot with
    | none =>
      refine ⟨fun _ => ⟨h.compacted hs, h.offset_le hs, ?_⟩, fun hempty => ?_⟩
      · rw [hentries]
        exact h.applied_lt hs
      · rw [(hnone hs).2] at hempty
        cases hempty
    | some s =>
      obtain ⟨heq, hempty, -⟩ := hsome s hs
      refine ⟨fun hempty' => ?_, fun _ => ?_⟩
      · rw [hempty] at hempty'
        cases hempty'
      · rw [heq]
        exact hfresh s hs
  · exact nofun

/-! ## Writing -/

/-- What the storage is after what was taken is written to it. -/
theorem InRound.persist_spec (hr : l.InRound rd false a)
    (hs : IndexedFrom l.storage.dummy.index l.storage.entries) :
    Ensures (rd.persist l.storage) fun s => IndexedFrom s.dummy.index s.entries ∧
      (rd.entries = [] → rd.snapshot.isEmpty = true → s = l.storage) ∧
      (rd.entries ≠ [] ∨ rd.snapshot.isEmpty = false → s.lastIndex + 1 = a + rd.entries.length) ∧
      (rd.snapshot.isEmpty = true → s.dummy = l.storage.dummy ∧ s.snapshot = l.storage.snapshot) ∧
      (rd.snapshot.isEmpty = false →
        s.dummy.index = rd.snapshot.metadata.index ∧ s.snapshot = rd.snapshot) := by
  obtain ⟨hempty, hfull⟩ := hr.writable rfl
  unfold Ready.persist
  dsimp only
  cases he : rd.snapshot.isEmpty with
  | true =>
    obtain ⟨hdummy, ha, happlied⟩ := hempty he
    simp only [if_true]
    by_cases hnil : rd.entries = []
    · rw [hnil]
      exact Ensures.ok ⟨hs, fun _ _ => rfl, by simp, fun _ => ⟨rfl, rfl⟩, nofun⟩
    · have hpos := List.length_pos_iff.mpr hnil
      refine (MemoryStorage.append_indexed hs hr.entries_indexed hnil ha (by omega)).mono ?_
      rintro s' ⟨hsnap', hdummy', hidx', hlast'⟩
      exact ⟨hidx', fun h => absurd h hnil, fun _ => hlast', fun _ => ⟨hdummy', hsnap'⟩, nofun⟩
  | false =>
    have hnew := hfull he
    obtain ⟨-, ha⟩ := hr.snapshot_gt he
    obtain ⟨s₁, happ, hd₁, hs₁, hsnap₁, hlast₁⟩ : ∃ s₁ : MemoryStorage,
        (l.storage.applySnapshot rd.snapshot).2 = s₁ ∧
        s₁.dummy.index = rd.snapshot.metadata.index ∧ IndexedFrom s₁.dummy.index s₁.entries ∧
        s₁.snapshot = rd.snapshot ∧ s₁.lastIndex = rd.snapshot.metadata.index := by
      unfold MemoryStorage.applySnapshot
      rw [if_neg (by omega)]
      refine ⟨_, rfl, rfl, ?_, rfl, rfl⟩
      intro i e hi
      cases i with
      | zero =>
        cases hi
        rfl
      | succ i => cases hi
    simp only [Bool.false_eq_true, if_false]
    rw [happ]
    by_cases hnil : rd.entries = []
    · rw [hnil]
      refine Ensures.ok ⟨hs₁, nofun, fun _ => ?_, nofun, fun _ => ⟨hd₁, hsnap₁⟩⟩
      rw [hlast₁, ha]
      rfl
    · have hpos := List.length_pos_iff.mpr hnil
      refine (MemoryStorage.append_indexed hs₁ hr.entries_indexed hnil (by omega) (by omega)).mono ?_
      rintro s' ⟨hsnap', hdummy', hidx', hlast'⟩
      refine ⟨hidx', fun h => absurd h hnil, fun _ => hlast', nofun, fun _ => ⟨?_, ?_⟩⟩
      · rw [hdummy', hd₁]
      · rw [hsnap', hsnap₁]

/-- Without a snapshot to install, nothing of a round has a snapshot, and what was taken is not above
the unstable part. -/
theorem InRound.of_none (hr : l.InRound rd persisted a) (hnone : l.unstable.snapshot = none) :
    rd.snapshot.isEmpty = true ∧ l.unstable.offset ≤ a ∧
      (rd.entries ≠ [] → l.unstable.entries ≠ []) := by
  have hempty : l.HasSnapshotOf rd → rd.snapshot.isEmpty = true := fun hsnap => by
    unfold HasSnapshotOf at hsnap
    split_ifs at hsnap with he
    · exact he
    · rw [hnone] at hsnap
      cases hsnap
  cases hr.place with
  | kept hsnap hoff hpre =>
    refine ⟨hempty hsnap, Nat.le_of_eq hoff, fun hne hnil => hne ?_⟩
    rw [hnil] at hpre
    exact List.prefix_nil.mp hpre
  | cut hsnap hoff hne _ => exact ⟨hempty hsnap, hoff, fun _ => hne⟩
  | replaced s hs _ _ _ =>
    rw [hnone] at hs
    cases hs

/-- A snapshot to install is not older than the one of the round. -/
theorem InRound.snapshot_le_of_some (hr : l.InRound rd persisted a) {s : Snapshot}
    (hs : l.unstable.snapshot = some s) : rd.snapshot.metadata.index ≤ s.metadata.index := by
  have hown : l.HasSnapshotOf rd → rd.snapshot.metadata.index ≤ s.metadata.index := fun hsnap => by
    unfold HasSnapshotOf at hsnap
    rw [hs] at hsnap
    split_ifs at hsnap
    cases hsnap
    exact Nat.le_refl _
  cases hr.place with
  | kept hsnap _ _ => exact hown hsnap
  | cut hsnap _ _ _ => exact hown hsnap
  | replaced s' hs' _ hnew _ =>
    rw [hs] at hs'
    cases hs'
    exact Nat.le_of_lt hnew

/-- Writing what was taken to the storage keeps the parts of the log together. -/
theorem Sound.persist (h : l.Sound) (hr : l.InRound rd false a) :
    Ensures (rd.persist l.storage) fun s =>
      ({ l with storage := s } : RaftLog).Sound ∧
        ({ l with storage := s } : RaftLog).InRound rd true a := by
  refine (hr.persist_spec h.storage_indexed).mono ?_
  rintro s ⟨hidx, hsame, hlast, hempty, hfull⟩
  have hsnapshot : s.snapshot.metadata.index ≤ l.committed := by
    cases he : rd.snapshot.isEmpty with
    | true =>
      rw [(hempty he).2]
      exact h.snapshot_le
    | false =>
      rw [(hfull he).2]
      exact Nat.le_trans hr.snapshot_le_cursor hr.cursor_le
  refine ⟨?_, ?_⟩
  · -- Where nothing is unstable, nothing was written.
    have hnil : l.unstable.snapshot = none → l.unstable.entries = [] → s = l.storage :=
      fun hs hnil => by
        obtain ⟨he, -, hne⟩ := hr.of_none hs
        refine hsame ?_ he
        by_contra hrd
        exact hne hrd hnil
    have hlastIndex : ({ l with storage := s } : RaftLog).lastIndex = l.lastIndex := by
      by_cases hne : l.unstable.entries = []
      · rw [lastIndex_of_nil (l := l) hne, lastIndex_of_nil (l := { l with storage := s }) hne]
        cases hs : l.unstable.snapshot with
        | none =>
          show s.lastIndex = l.storage.lastIndex
          rw [hnil hs hne]
        | some _ => rfl
      · rw [lastIndex_of_ne_nil (l := l) hne, lastIndex_of_ne_nil (l := { l with storage := s }) hne]
    constructor
    · exact hidx
    · exact h.unstable_indexed
    · exact h.applied_le
    · rw [hlastIndex]
      exact h.committed_le
    · exact hsnapshot
    · intro hs
      show s.dummy.index ≤ l.applied
      rw [(hempty (hr.of_none hs).1).1]
      exact h.compacted hs
    · exact h.applied_lt
    · intro hs
      show l.unstable.offset ≤ s.lastIndex + 1
      by_cases hrd : rd.entries = []
      · rw [hsame hrd (hr.of_none hs).1]
        exact h.offset_le hs
      · have h₁ := hlast (Or.inl hrd)
        have h₂ := (hr.of_none hs).2.1
        omega
    · intro hs hne
      show l.unstable.offset = s.lastIndex + 1
      rw [hnil hs hne]
      exact h.offset_eq hs hne
    · exact h.pending_offset
    · exact h.pending_applied
    · exact h.pending_committed
    · intro s' hs'
      show s.dummy.index ≤ s'.metadata.index
      cases he : rd.snapshot.isEmpty with
      | true =>
        rw [(hempty he).1]
        exact h.pending_dummy s' hs'
      | false =>
        rw [(hfull he).1]
        exact hr.snapshot_le_of_some hs'
  · constructor
    · exact hr.entries_indexed
    · exact hr.cursor_le
    · exact hr.cursor_gt
    · exact hr.cursor_lt
    · exact hr.snapshot_le_cursor
    · exact hr.snapshot_gt
    · cases hr.place with
      | kept hsnap hoff hpre => exact Place.kept hsnap hoff hpre
      | cut hsnap hoff hne hc => exact Place.cut hsnap hoff hne hc
      | replaced s' hs' hc hnew hfresh =>
        refine Place.replaced s' hs' hc hnew ?_
        show s.snapshot.metadata.index < s'.metadata.index
        cases he : rd.snapshot.isEmpty with
        | true =>
          rw [(hempty he).2]
          exact hfresh
        | false =>
          rw [(hfull he).2]
          exact hnew
    · exact nofun
    · exact fun _ => hlast

/-! ## Advancing -/

/-- What `advance` does to the log. -/
def advance (l : RaftLog) (rd : Ready) : RaftLog :=
  let l := l.appliedTo rd.appliedCursor
  let l := match rd.entries.getLast? with
    | some e => l.stableTo e.index e.term
    | none => l
  if ¬ rd.snapshot.isEmpty then l.stableSnapTo rd.snapshot.metadata.index else l

/-- A snapshot is to be installed that is not the one of the round, and the last entry of the round is
among the unstable entries above it, so that `stable_to` drops entries that are not in any storage that
the snapshot will leave. -/
def DropsAbove (l : RaftLog) (rd : Ready) : Prop :=
  ∃ s ∈ l.unstable.snapshot, s.metadata.index ≠ rd.snapshot.metadata.index ∧
    ∃ e ∈ rd.entries.getLast?, l.unstable.maybeTerm e.index = some e.term ∧
      l.unstable.offset ≤ e.index

instance (l : RaftLog) (rd : Ready) : Decidable (l.DropsAbove rd) :=
  match hs : l.unstable.snapshot, he : rd.entries.getLast? with
  | some s, some e =>
    if hc : s.metadata.index ≠ rd.snapshot.metadata.index ∧
        l.unstable.maybeTerm e.index = some e.term ∧ l.unstable.offset ≤ e.index then
      .isTrue ⟨s, hs, hc.1, e, he, hc.2⟩
    else .isFalse fun ⟨s', hs', hne, e', he', hc'⟩ => hc (by
      rw [hs] at hs'
      rw [he] at he'
      cases hs'
      cases he'
      exact ⟨hne, hc'⟩)
  | none, _ => .isFalse fun ⟨_, hs', _⟩ => by rw [hs] at hs'; cases hs'
  | some _, none => .isFalse fun ⟨_, _, _, _, he', _⟩ => by rw [he] at he'; cases he'

/-- The unstable part after `stable_to`. -/
def stabilized (u : Unstable) (rd : Ready) : Unstable :=
  match rd.entries.getLast? with
  | some e => u.stableTo e.index e.term
  | none => u

/-- What is applied after the round. -/
def appliedAfter (l : RaftLog) (rd : Ready) : ℕ :=
  if rd.appliedCursor = 0 then l.applied else rd.appliedCursor

/-- What the log is after the round. -/
theorem advance_eq (l : RaftLog) (rd : Ready) :
    l.advance rd = { l with
      applied := l.appliedAfter rd
      unstable :=
        if rd.snapshot.isEmpty then stabilized l.unstable rd
        else (stabilized l.unstable rd).stableSnapTo rd.snapshot.metadata.index } := by
  unfold advance stabilized appliedAfter appliedTo
  cases rd.entries.getLast? <;> cases rd.snapshot.isEmpty <;> dsimp only <;> split_ifs <;> rfl

/-- `stable_to` leaves the unstable part as it was, or without the entries up to the last one of the
round. -/
theorem stabilized_cases (u : Unstable) (rd : Ready) {k : ℕ}
    (hk : ∀ e ∈ rd.entries.getLast?, e.index + 1 = k) :
    (stabilized u rd = u ∧ ∀ e ∈ rd.entries.getLast?,
        ¬(u.maybeTerm e.index = some e.term ∧ u.offset ≤ e.index)) ∨
      (rd.entries ≠ [] ∧ u.offset < k ∧ k ≤ u.offset + u.entries.length ∧
        stabilized u rd = { u with entries := u.entries.drop (k - u.offset), offset := k } ∧
        ∃ e ∈ rd.entries.getLast?, u.maybeTerm e.index = some e.term ∧ u.offset ≤ e.index) := by
  unfold stabilized
  cases hlast : rd.entries.getLast? with
  | none => exact Or.inl ⟨rfl, nofun⟩
  | some e =>
    have hke := hk e hlast
    dsimp only
    unfold Unstable.stableTo
    split_ifs with hfire
    · refine Or.inr ⟨fun hnil => ?_, by omega, ?_, by rw [hke], e, rfl, hfire⟩
      · rw [hnil] at hlast
        cases hlast
      · -- The entry is there, so that its index is in the range.
        have hterm := hfire.1
        unfold Unstable.maybeTerm at hterm
        rw [if_neg (by omega)] at hterm
        obtain ⟨e', he', -⟩ := Option.map_eq_some_iff.mp hterm
        have := (List.getElem?_eq_some_iff.mp he').1
        omega
    · refine Or.inl ⟨rfl, ?_⟩
      rintro _ ⟨⟩
      exact hfire

/-- What is applied after the round lies between what was applied and what is committed. -/
theorem InRound.appliedAfter_bounds (hr : l.InRound rd persisted a) (h : l.Sound) :
    l.applied ≤ l.appliedAfter rd ∧ l.appliedAfter rd ≤ l.committed ∧
      (l.appliedAfter rd = rd.appliedCursor ∨
        l.appliedAfter rd = l.applied ∧ rd.snapshot.isEmpty = true) := by
  have h₁ := h.applied_le
  have h₂ := hr.cursor_le
  have h₃ := hr.cursor_gt
  have h₄ := hr.snapshot_le_cursor
  unfold appliedAfter
  split_ifs with hzero
  · refine ⟨Nat.le_refl _, h₁, Or.inr ⟨rfl, ?_⟩⟩
    rw [hzero] at h₄
    simpa [Snapshot.isEmpty] using h₄
  · exact ⟨by omega, h₂, Or.inl rfl⟩

/-- `stable_to` leaves the snapshot alone. -/
theorem stabilized_snapshot (u : Unstable) (rd : Ready) : (stabilized u rd).snapshot = u.snapshot := by
  unfold stabilized Unstable.stableTo
  cases rd.entries.getLast? with
  | none => rfl
  | some e =>
    dsimp only
    split_ifs <;> rfl

/-- After a round whose snapshot, if any, is still the one to install, no snapshot is to be installed. -/
theorem InRound.snapshot_advance (hsnap : l.HasSnapshotOf rd) : (l.advance rd).unstable.snapshot = none := by
  rw [advance_eq]
  dsimp only
  unfold HasSnapshotOf at hsnap
  split_ifs with he
  · rw [if_pos he] at hsnap
    rw [stabilized_snapshot, hsnap]
  · rw [if_neg he] at hsnap
    unfold Unstable.stableSnapTo
    rw [stabilized_snapshot, hsnap]
    simp

/-- A round brings no snapshot to install. -/
theorem advance_snapshot (hnone : l.unstable.snapshot = none) (rd : Ready) :
    (l.advance rd).unstable.snapshot = none := by
  have hstabilized := (stabilized_snapshot l.unstable rd).trans hnone
  rw [advance_eq]
  dsimp only
  split_ifs
  · exact hstabilized
  · unfold Unstable.stableSnapTo
    rw [hstabilized]
    exact hstabilized

/-- `stable_snap_to` only forgets the snapshot. -/
theorem stableSnapTo_eq (u : Unstable) (index : ℕ) :
    (u.stableSnapTo index).entries = u.entries ∧ (u.stableSnapTo index).offset = u.offset := by
  unfold Unstable.stableSnapTo
  split_ifs
  · exact ⟨rfl, rfl⟩
  · exact ⟨rfl, rfl⟩

/-- Where the unstable part stands after a round in which no newer snapshot came in. -/
theorem Sound.advance_own (h : l.Sound) (hr : l.InRound rd true a) (hsnap : l.HasSnapshotOf rd)
    (hoff : l.unstable.offset ≤ a)
    (hplace : (l.unstable.offset = a ∧ rd.entries <+: l.unstable.entries) ∨
      (l.unstable.entries ≠ [] ∧
        rd.appliedCursor < l.unstable.offset + (l.unstable.entries.length - 1))) :
    (l.advance rd).Sound := by
  have hlast := h.lastIndex_succ
  have hcommitted := h.committed_le
  have hslen := storage_lastIndex_succ l.storage
  obtain ⟨happlied, hA, hAeq⟩ := hr.appliedAfter_bounds h
  have hcursor_lt := hr.cursor_lt
  have hnone := InRound.snapshot_advance (l := l) hsnap
  have hk : ∀ e ∈ rd.entries.getLast?, e.index + 1 = a + rd.entries.length := fun e he =>
    hr.entries_indexed.getLast? he
  have hwritten := hr.written rfl
  -- Without a snapshot in the round, none was to be installed.
  have hempty : rd.snapshot.isEmpty = true → l.unstable.snapshot = none := fun he => by
    unfold HasSnapshotOf at hsnap
    rwa [if_pos he] at hsnap
  have hdummy : l.storage.dummy.index ≤ l.appliedAfter rd := by
    cases he : rd.snapshot.isEmpty with
    | true => exact Nat.le_trans (h.compacted (hempty he)) happlied
    | false =>
      unfold HasSnapshotOf at hsnap
      rw [he, if_neg (by simp)] at hsnap
      have h₁ := h.pending_dummy _ hsnap
      have h₂ := hr.snapshot_le_cursor
      have h₃ := hAeq.resolve_right fun h => by rw [h.2] at he; cases he
      omega
  -- Where the unstable part stands.
  have hU : (l.advance rd).unstable.entries = (stabilized l.unstable rd).entries ∧
      (l.advance rd).unstable.offset = (stabilized l.unstable rd).offset := by
    rw [advance_eq]
    dsimp only
    split_ifs
    · exact ⟨rfl, rfl⟩
    · exact stableSnapTo_eq _ _
  have hstands : IndexedFrom (stabilized l.unstable rd).offset (stabilized l.unstable rd).entries ∧
      l.appliedAfter rd <
        (stabilized l.unstable rd).offset + ((stabilized l.unstable rd).entries.length - 1) ∧
      (stabilized l.unstable rd).offset ≤ l.storage.lastIndex + 1 ∧
      ((stabilized l.unstable rd).entries = [] →
        (stabilized l.unstable rd).offset = l.storage.lastIndex + 1) ∧
      (stabilized l.unstable rd).offset + (stabilized l.unstable rd).entries.length =
        l.lastIndex + 1 := by
    rcases stabilized_cases l.unstable rd hk with ⟨heq, hnot⟩ | ⟨hne, hlt, hle, heq, -⟩
    · rw [heq]
      have happ : (rd.appliedCursor <
          l.unstable.offset + (l.unstable.entries.length - 1)) →
          l.appliedAfter rd < l.unstable.offset + (l.unstable.entries.length - 1) := fun hc => by
        rcases hAeq with h₁ | ⟨h₁, he⟩
        · rwa [h₁]
        · rw [h₁]
          exact h.applied_lt (hempty he)
      have hstored : rd.entries ≠ [] ∨ rd.snapshot.isEmpty = false ∨
          (rd.entries = [] ∧ rd.snapshot.isEmpty = true) := by
        cases rd.snapshot.isEmpty <;> simp [Classical.em, or_comm]
      rcases hplace with ⟨hoffa, hpre⟩ | ⟨hne, hc⟩
      · -- What was taken is still there, so that it would have been dropped.
        have hnil : rd.entries = [] := by
          by_contra hne
          have hpos := List.length_pos_iff.mpr hne
          have hlastE := List.getLast?_eq_some_getLast hne
          have hidx := hk _ hlastE
          refine hnot _ hlastE ⟨?_, by omega⟩
          unfold Unstable.maybeTerm
          rw [if_neg (by omega)]
          have hget : l.unstable.entries[(rd.entries.getLast hne).index - l.unstable.offset]? =
              some (rd.entries.getLast hne) := by
            rw [List.getLast?_eq_getElem?] at hlastE
            obtain ⟨rest, hrest⟩ := hpre
            rw [← hrest, show (rd.entries.getLast hne).index - l.unstable.offset =
              rd.entries.length - 1 by omega, List.getElem?_append_left (by omega)]
            exact hlastE
          rw [hget]
          rfl
        rw [hnil, List.length_nil] at hcursor_lt hwritten
        have hoffset : l.unstable.offset ≤ l.storage.lastIndex + 1 ∧
            (l.unstable.entries = [] → l.unstable.offset = l.storage.lastIndex + 1) := by
          cases he : rd.snapshot.isEmpty with
          | true => exact ⟨h.offset_le (hempty he), h.offset_eq (hempty he)⟩
          | false =>
            have := hwritten (Or.inr he)
            exact ⟨by omega, fun _ => by omega⟩
        exact ⟨h.unstable_indexed, happ (by omega), hoffset.1, hoffset.2, hlast.symm⟩
      · refine ⟨h.unstable_indexed, happ hc, ?_, fun hnil => absurd hnil hne, hlast.symm⟩
        rcases hstored with h₁ | h₁ | ⟨-, h₁⟩
        · have := hwritten (Or.inl h₁)
          omega
        · have := hwritten (Or.inr h₁)
          omega
        · exact h.offset_le (hempty h₁)
    · have hstored := hwritten (Or.inl hne)
      have hdrop := h.unstable_indexed.drop (a + rd.entries.length - l.unstable.offset)
      rw [show l.unstable.offset + (a + rd.entries.length - l.unstable.offset) =
        a + rd.entries.length by omega] at hdrop
      rw [heq]
      refine ⟨hdrop, ?_, Nat.le_of_eq hstored.symm, fun _ => hstored.symm, ?_⟩
      · simp only [List.length_drop]
        rcases hAeq with h₁ | ⟨h₁, he⟩
        · omega
        · have := h.applied_lt (hempty he)
          omega
      · simp only [List.length_drop]
        omega
  rw [← hU.1, ← hU.2] at hstands
  obtain ⟨hidx, happ, hoffset, hoffset_eq, hend⟩ := hstands
  have hframe : (l.advance rd).storage = l.storage ∧ (l.advance rd).committed = l.committed ∧
      (l.advance rd).applied = l.appliedAfter rd := by
    rw [advance_eq]
    exact ⟨rfl, rfl, rfl⟩
  obtain ⟨hstorage, hcommit, hap⟩ := hframe
  constructor
  · rw [hstorage]
    exact h.storage_indexed
  · exact hidx
  · rw [hap, hcommit]
    exact hA
  · rw [hcommit]
    by_cases hnil : (l.advance rd).unstable.entries = []
    · rw [lastIndex_of_nil hnil, hnone, hstorage]
      have := hoffset_eq hnil
      rw [hnil, List.length_nil] at hend
      show l.committed ≤ l.storage.lastIndex
      omega
    · rw [lastIndex_of_ne_nil hnil]
      omega
  · rw [hstorage, hcommit]
    exact h.snapshot_le
  · intro _
    rw [hstorage, hap]
    exact hdummy
  · intro _
    rw [hap]
    exact happ
  · intro _
    rw [hstorage]
    exact hoffset
  · intro _ hnil
    rw [hstorage]
    exact hoffset_eq hnil
  · rw [hnone]
    exact nofun
  · rw [hnone]
    exact nofun
  · rw [hnone]
    exact nofun
  · rw [hnone]
    exact nofun

/-- A round in which a newer snapshot came in leaves the unstable part alone, unless it drops entries
above the snapshot. -/
theorem Sound.advance_replaced (h : l.Sound) (hr : l.InRound rd true a) (hdrop : ¬l.DropsAbove rd)
    {s : Snapshot} (hs : l.unstable.snapshot = some s)
    (hcursor : rd.appliedCursor < s.metadata.index)
    (hnew : rd.snapshot.metadata.index < s.metadata.index) :
    l.advance rd = { l with applied := l.appliedAfter rd } ∧ (l.advance rd).Sound := by
  obtain ⟨happlied, hA, hAeq⟩ := hr.appliedAfter_bounds h
  have hk : ∀ e ∈ rd.entries.getLast?, e.index + 1 = a + rd.entries.length := fun e he =>
    hr.entries_indexed.getLast? he
  have heq : l.advance rd = { l with applied := l.appliedAfter rd } := by
    rw [advance_eq]
    rcases stabilized_cases l.unstable rd hk with ⟨hstab, -⟩ | ⟨-, -, -, -, e, he, hfire⟩
    · rw [hstab]
      unfold Unstable.stableSnapTo
      rw [hs]
      split_ifs with h₁ h₂
      · rfl
      · simp only [Option.map_some, Option.some.injEq] at h₂
        omega
      · rfl
    · exact absurd ⟨s, hs, Nat.ne_of_gt hnew, e, he, hfire⟩ hdrop
  refine ⟨heq, ?_⟩
  have hsapplied := h.pending_applied s hs
  rw [heq]
  exact { h with
    applied_le := hA
    compacted := fun hnone => by
      rw [show l.unstable.snapshot = none from hnone] at hs
      cases hs
    applied_lt := fun hnone => by
      rw [show l.unstable.snapshot = none from hnone] at hs
      cases hs
    pending_applied := fun s' hs' => by
      rw [show l.unstable.snapshot = some s' from hs'] at hs
      cases hs
      show l.appliedAfter rd < s.metadata.index
      rcases hAeq with h₁ | ⟨h₁, -⟩
      · rwa [h₁]
      · rwa [h₁] }

/-- `advance` keeps the parts of the log together, unless it drops entries above a newer snapshot. -/
theorem Sound.advance (h : l.Sound) (hr : l.InRound rd true a) (hdrop : ¬l.DropsAbove rd) :
    (l.advance rd).Sound ∧ (l.advance rd).Fresh := by
  have hfresh : l.HasSnapshotOf rd → (l.advance rd).Fresh := fun hsnap => by
    unfold Fresh
    rw [InRound.snapshot_advance hsnap]
    exact nofun
  cases hr.place with
  | kept hsnap hoff hpre =>
    exact ⟨h.advance_own hr hsnap (Nat.le_of_eq hoff) (Or.inl ⟨hoff, hpre⟩), hfresh hsnap⟩
  | cut hsnap hoff hne hc => exact ⟨h.advance_own hr hsnap hoff (Or.inr ⟨hne, hc⟩), hfresh hsnap⟩
  | replaced s hs hc hnew hf =>
    obtain ⟨heq, hsound⟩ := h.advance_replaced hr hdrop hs hc hnew
    refine ⟨hsound, fun s' hs' => ?_⟩
    rw [heq] at hs' ⊢
    rw [show l.unstable.snapshot = some s' from hs'] at hs
    cases hs
    exact hf

end RaftLog

/-! ## The application -/

namespace Host

/-- The log of the node. -/
def log (h : Host) : RaftLog := h.node.raft.raftLog

/-- The parts of the log fit together, and with what was taken. -/
structure Sound (h : Host) : Prop where
  /-- The log. -/
  log : h.log.Sound
  /-- Between rounds, a snapshot to install is newer than the storage's. -/
  idle : h.ready = none → h.log.Fresh
  /-- The round. -/
  round : ∀ rd ∈ h.ready, ∃ a, h.log.InRound rd h.persisted a

end Host

namespace HostEvent

/-- What the application owes the node: append messages carry consecutive entries, what is taken is
written once before the node advances, and snapshots and compactions are of applied entries. -/
def Orderly (h : Host) : HostEvent → Prop
  | .step m | .call m => m.Consecutive
  | .persist => h.persisted = false
  | .advance => h.persisted = true
  | .createSnapshot index _ _ | .compact index => index ≤ h.log.applied
  | _ => True

instance (h : Host) (e : HostEvent) : Decidable (e.Orderly h) :=
  match e with
  | .step m | .call m => inferInstanceAs (Decidable m.Consecutive)
  | .persist => inferInstanceAs (Decidable (h.persisted = false))
  | .advance => inferInstanceAs (Decidable (h.persisted = true))
  | .createSnapshot index _ _ | .compact index => inferInstanceAs (Decidable (index ≤ h.log.applied))
  | .tick | .applyConfChange _ | .ready => .isTrue trivial

/-- The node advances past entries above a newer snapshot. -/
def DropsAbove (h : Host) (e : HostEvent) : Prop :=
  e = .advance ∧ ∃ rd ∈ h.ready, h.log.DropsAbove rd

instance (h : Host) (e : HostEvent) : Decidable (e.DropsAbove h) :=
  match hr : h.ready with
  | none => .isFalse fun ⟨_, _, hr', _⟩ => by rw [hr] at hr'; cases hr'
  | some rd =>
    if hc : e = .advance ∧ h.log.DropsAbove rd then .isTrue ⟨hc.1, rd, hr, hc.2⟩
    else .isFalse fun ⟨he, rd', hr', hd⟩ => hc ⟨he, by rw [hr] at hr'; cases hr'; exact hd⟩

end HostEvent

namespace RaftLog

variable {l : RaftLog} {rd : Ready} {a : ℕ} {persisted : Bool} {s : MemoryStorage}

/-- Another storage with the same last index, compacted at most up to what is applied. -/
theorem Sound.setStorage (h : l.Sound) (hidx : IndexedFrom s.dummy.index s.entries)
    (hdummy : s.dummy.index = l.storage.dummy.index ∨ s.dummy.index ≤ l.applied)
    (hlast : s.lastIndex = l.storage.lastIndex) (hsnap : s.snapshot.metadata.index ≤ l.committed) :
    ({ l with storage := s } : RaftLog).Sound := by
  have hlastIndex : ({ l with storage := s } : RaftLog).lastIndex = l.lastIndex := by
    unfold lastIndex
    rw [hlast]
  exact
    { storage_indexed := hidx
      unstable_indexed := h.unstable_indexed
      applied_le := h.applied_le
      committed_le := by
        rw [hlastIndex]
        exact h.committed_le
      snapshot_le := hsnap
      compacted := fun hs => by
        rcases hdummy with h₁ | h₁
        · show s.dummy.index ≤ l.applied
          rw [h₁]
          exact h.compacted hs
        · exact h₁
      applied_lt := h.applied_lt
      offset_le := fun hs => by
        show l.unstable.offset ≤ s.lastIndex + 1
        rw [hlast]
        exact h.offset_le hs
      offset_eq := fun hs hnil => by
        show l.unstable.offset = s.lastIndex + 1
        rw [hlast]
        exact h.offset_eq hs hnil
      pending_offset := h.pending_offset
      pending_applied := h.pending_applied
      pending_committed := h.pending_committed
      pending_dummy := fun s' hs => by
        show s.dummy.index ≤ s'.metadata.index
        rcases hdummy with h₁ | h₁
        · rw [h₁]
          exact h.pending_dummy s' hs
        · exact Nat.le_of_lt (Nat.lt_of_le_of_lt h₁ (h.pending_applied s' hs)) }

/-- The round goes on with such a storage, whose snapshot is the same or of applied entries. -/
theorem InRound.setStorage (hr : l.InRound rd persisted a) (h : l.Sound)
    (hdummy : s.dummy.index = l.storage.dummy.index ∨ s.dummy.index ≤ l.applied)
    (hlast : s.lastIndex = l.storage.lastIndex)
    (hsnap : s.snapshot.metadata.index = l.storage.snapshot.metadata.index ∨
      s.snapshot.metadata.index ≤ l.applied) :
    ({ l with storage := s } : RaftLog).InRound rd persisted a := by
  constructor
  · exact hr.entries_indexed
  · exact hr.cursor_le
  · exact hr.cursor_gt
  · exact hr.cursor_lt
  · exact hr.snapshot_le_cursor
  · exact hr.snapshot_gt
  · cases hr.place with
    | kept hs hoff hpre => exact Place.kept hs hoff hpre
    | cut hs hoff hne hc => exact Place.cut hs hoff hne hc
    | replaced s' hs hc hnew hfresh =>
      refine Place.replaced s' hs hc hnew ?_
      show s.snapshot.metadata.index < _
      rcases hsnap with h₁ | h₁
      · rwa [h₁]
      · exact Nat.lt_of_le_of_lt h₁ (h.pending_applied s' hs)
  · intro hp
    obtain ⟨h₁, h₂⟩ := hr.writable hp
    refine ⟨fun he => ?_, fun he => ?_⟩
    · obtain ⟨hd, ha, happ⟩ := h₁ he
      refine ⟨?_, ?_, happ⟩
      · show s.dummy.index ≤ l.applied
        rcases hdummy with h | h
        · rwa [h]
        · exact h
      · show a ≤ s.lastIndex + 1
        rwa [hlast]
    · show s.snapshot.metadata.index < _
      rcases hsnap with h | h
      · rw [h]
        exact h₂ he
      · exact Nat.lt_of_le_of_lt h (hr.snapshot_gt he).1
  · intro hp hw
    show s.lastIndex + 1 = _
    rw [hlast]
    exact hr.written hp hw

/-- A snapshot to install is still newer than such a storage's. -/
theorem Fresh.setStorage (hf : l.Fresh) (h : l.Sound)
    (hsnap : s.snapshot.metadata.index = l.storage.snapshot.metadata.index ∨
      s.snapshot.metadata.index ≤ l.applied) : ({ l with storage := s } : RaftLog).Fresh := by
  intro s' hs'
  show s.snapshot.metadata.index < _
  rcases hsnap with h₁ | h₁
  · rw [h₁]
    exact hf s' hs'
  · exact Nat.lt_of_le_of_lt h₁ (h.pending_applied s' hs')

end RaftLog

namespace Host

variable {h h' : Host} {e : HostEvent}

/-- Such a storage keeps everything together. -/
theorem Sound.setStorage (hs : h.Sound) {s : MemoryStorage}
    (hidx : IndexedFrom s.dummy.index s.entries)
    (hdummy : s.dummy.index = h.log.storage.dummy.index ∨ s.dummy.index ≤ h.log.applied)
    (hlast : s.lastIndex = h.log.storage.lastIndex)
    (hsnap : s.snapshot.metadata.index = h.log.storage.snapshot.metadata.index ∨
      s.snapshot.metadata.index ≤ h.log.applied) :
    ({ h with node := h.node.setStorage s } : Host).Sound := by
  constructor
  · refine hs.log.setStorage hidx hdummy hlast ?_
    rcases hsnap with h₁ | h₁
    · rw [h₁]
      exact hs.log.snapshot_le
    · exact Nat.le_trans h₁ hs.log.applied_le
  · exact fun hnone => (hs.idle hnone).setStorage hs.log hsnap
  · intro rd hrd
    obtain ⟨a, hr⟩ := hs.round rd hrd
    exact ⟨a, hr.setStorage hs.log hdummy hlast hsnap⟩

/-- What an orderly application does keeps everything together, as long as the node does not advance
past entries above a newer snapshot. -/
theorem Sound.handle (hs : h.Sound) (hh : h.handle e = .ok h') (horder : e.Orderly h)
    (hdrop : ¬e.DropsAbove h) : h'.Sound := by
  have hlog := hs.log
  cases handled hh with
  | moved hc hmoves =>
    rename_i c n
    have hcons : ∀ m, c = .step m → m.Consecutive := fun m hm => by
      subst hm
      cases e <;> cases hc
      · exact horder
      · exact horder
    have hedits := hmoves.edits hlog hcons
    refine ⟨hlog.edits hedits, fun hnone => (hs.idle hnone).edits hlog hedits, fun rd hrd => ?_⟩
    obtain ⟨a, hr⟩ := hs.round rd hrd
    exact ⟨a, hr.edits hlog hedits⟩
  | nothing _ => exact hs
  | ready hnone hn =>
    obtain ⟨-, -, hentries, hsnap, hnext, size, rfl⟩ := RawNode.ready_eq hn
    refine ⟨hlog, nofun, ?_⟩
    rintro _ ⟨⟩
    exact ⟨_, hlog.ready (hs.idle hnone) hentries hsnap hnext⟩
  | persist hsome hst =>
    obtain ⟨a, hr⟩ := hs.round _ hsome
    rw [show h.persisted = false from horder] at hr
    obtain ⟨hsound, hround⟩ := hlog.persist hr _ hst
    refine ⟨hsound, fun hnone => ?_, fun rd hrd => ?_⟩
    · rw [show h.ready = none from hnone] at hsome
      cases hsome
    · rw [show h.ready = some rd from hrd] at hsome
      cases hsome
      exact ⟨a, hround⟩
  | advance hsome =>
    obtain ⟨a, hr⟩ := hs.round _ hsome
    rw [show h.persisted = true from horder] at hr
    obtain ⟨hsound, hfresh⟩ := hlog.advance hr fun hd => hdrop ⟨rfl, _, hsome, hd⟩
    exact ⟨hsound, fun _ => hfresh, nofun⟩
  | createSnapshot hst =>
    rcases MemoryStorage.createSnapshot_spec _ _ _ _ hst with heq | ⟨hindex, hentries⟩
    · rename_i s
      obtain rfl : s = h.node.storage := heq
      exact hs
    · have hdummy := MemoryStorage.dummy_of_entries (s := h.node.storage) (Nat.le_refl 1)
        (hentries.trans (List.take_append_drop 1 _).symm)
      refine hs.setStorage ?_ (Or.inl (congrArg _ hdummy)) ?_ (Or.inr ?_)
      · rw [hdummy, hentries]
        exact hlog.storage_indexed
      · unfold MemoryStorage.lastIndex
        rw [hdummy, hentries]
        rfl
      · rw [hindex]
        exact horder
  | compact hst =>
    rcases MemoryStorage.compact_spec hlog.storage_indexed _ _ hst with
      heq | ⟨hsnap, hdummy, -, hidx, hlast⟩
    · rename_i s
      obtain rfl : s = h.node.storage := heq
      exact hs
    · refine hs.setStorage ?_ (Or.inr ?_) hlast (Or.inl (congrArg (·.metadata.index) hsnap))
      · rw [hdummy]
        exact hidx
      · rw [hdummy]
        exact horder

end Host

end RaftCpp
