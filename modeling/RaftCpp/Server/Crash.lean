import RaftCpp.Server.Kill
import RaftCpp.Server.Snapshots
import RaftCpp.Wal.Recovery

/-!
# Crashes between the writes

What is ready is written in up to three parts: the hard state with the entries, the position of a snapshot,
and the file of the snapshot. After a crash between any of them, over any number of lives, a node replays its
files, as long as no snapshot that a peer has sent leads past the entries that it has written.
-/

namespace RaftCpp

open Outcome

/-! ## What is on the disk -/

/-- The files that a node writes. -/
structure Files where
  /-- The write-ahead log. -/
  wal : WAL
  /-- The snapshot files. -/
  snapFiles : List SnapFile

/-- The files after a call. -/
def Call.write (F : Formats) (fs : Files) : Call → Files
  | .save hs entries => { fs with wal := fs.wal.save F.wal hs entries }
  | .saveSnapshot snap => { fs with wal := fs.wal.saveSnapshot F.wal snap }
  | .saveSnap snapshot => { fs with snapFiles := Snapshotter.saveSnap F.snap fs.snapFiles snapshot }
  | _ => fs

/-- The call writes nothing. -/
def Call.IsSilent (c : Call) : Prop := ∀ F fs, c.write F fs = fs

/-- What is on the disk, where every write is passed on to it at once. -/
def Files.disk (fs : Files) : Disk := { wal := some fs.wal.file.durable, snapFiles := fs.snapFiles }

/-- What a call writes can be read back, and the position of a snapshot has the term of its index. -/
def Call.Saveable (F : Formats) (termOf : ℕ → ℕ) : Call → Prop
  | .save hs entries => ∀ r ∈ WAL.savedRecords hs entries, r.Fits F.wal
  | .saveSnapshot snap => (WALRecord.snapshot snap).Fits F.wal ∧ snap.term = termOf snap.index
  | .saveSnap snapshot => Snapshotter.Faithful F.snap snapshot
  | _ => True

instance (F : Formats) (termOf : ℕ → ℕ) (c : Call) : Decidable (c.Saveable F termOf) :=
  match c with
  | .save hs entries => inferInstanceAs (Decidable (∀ r ∈ WAL.savedRecords hs entries, r.Fits F.wal))
  | .saveSnapshot snap =>
    inferInstanceAs (Decidable ((WALRecord.snapshot snap).Fits F.wal ∧ snap.term = termOf snap.index))
  | .saveSnap snapshot => inferInstanceAs (Decidable (Snapshotter.Faithful F.snap snapshot))
  | .send _ | .recoverFromSnapshot _ | .readCommit _ | .applyConfChange _ | .getSnapshot | .callback _ =>
    .isTrue trivial

namespace RaftNode

/-- The files of a node. -/
def files (n : RaftNode) : Files := { wal := n.wal, snapFiles := n.snapFiles }

variable (F : Formats)

/-- What is on the disk if a step crashes: some of its calls have written, in their order. -/
def crashes (t : Turn RaftNode RaftNodeEvent) : List Disk :=
  t.after.calls.inits.map fun done => (done.foldl (Call.write F) t.before.files).disk

/-- The files are replayed: `replay_WAL` meets no null pointer, and `load_state` accepts the commit index. -/
def Replays (disk : Disk) : Prop :=
  Returns (replayWAL F disk) fun r =>
    (loadedSnapshot F disk).metadata.index ≤ r.storage.hardState.commit ∧
      r.storage.hardState.commit ≤ r.storage.lastIndex

/-- A snapshot that a peer has sent does not lead past the entries that are written when it is taken. -/
def Covered (t : Turn RaftNode RaftNodeEvent) : Prop :=
  ∀ rd ∈ takes t, rd.snapshot.isEmpty = false →
    Returns (replayWAL F t.before.files.disk) fun r => rd.snapshot.metadata.index ≤ r.storage.lastIndex

/-! ## Records and files that fit together -/

/-- The index of the snapshot that is loaded from files. -/
def loadedIndex (F : Formats) (snapFiles : List SnapFile) : ℕ :=
  ((Snapshotter.load F.snap snapFiles).1.getD {}).metadata.index

/-- The entries of records. -/
def recordEntries (rs : List WALRecord) : List Entry := rs.filterMap WALRecord.entry?

/-- The last index that records leave, from an index on. -/
def recordedLast (base : ℕ) (rs : List WALRecord) : ℕ := Overlay.last Entry.index base (recordEntries rs)

/-- The records of a write-ahead log and the snapshot files, from which a node can be started. The terms of the
snapshots are those of a function. -/
structure Journal (F : Formats) (termOf : ℕ → ℕ) (rs : List WALRecord) (snapFiles : List SnapFile) : Prop where
  /-- The log was made by `create`. -/
  first : .snapshot {} ∈ rs
  /-- The records can be read. -/
  fits : ∀ r ∈ rs, r.Fits F.wal
  /-- The positions of snapshots. -/
  positions : ∀ s, .snapshot s ∈ rs → s = {} ∨ s.index ≠ 0 ∧ s.term = termOf s.index
  /-- The snapshot files tell their positions. -/
  named : Snapshotter.Named F.snap snapFiles
  /-- The snapshot that is loaded. -/
  loaded : ∀ s ∈ (Snapshotter.load F.snap snapFiles).1,
    s.metadata.index ≠ 0 ∧ s.metadata.term = termOf s.metadata.index
  /-- The entries leave no gap behind it. -/
  gapless : Overlay.Gapless Entry.index (loadedIndex F snapFiles) (recordEntries rs)
  /-- The commit index is not before it. -/
  loaded_le : loadedIndex F snapFiles ≤ (lastState {} rs).commit
  /-- There are entries up to the commit index. -/
  commit_le : (lastState {} rs).commit ≤ recordedLast (loadedIndex F snapFiles) rs

/-- The disk with the records and the files. -/
def recordedDisk (F : Formats) (rs : List WALRecord) (snapFiles : List SnapFile) : Disk :=
  { wal := some (encodeRecords F.wal rs), snapFiles := snapFiles }

/-- The disk holds records and files that fit together. -/
def Intact (F : Formats) (termOf : ℕ → ℕ) (disk : Disk) : Prop :=
  ∃ rs snapFiles, disk = recordedDisk F rs snapFiles ∧ Journal F termOf rs snapFiles

/-- The last hard state, after more records. -/
theorem lastState_append (hs : HardState) (rs rs' : List WALRecord) :
    lastState hs (rs ++ rs') = lastState (lastState hs rs) rs' := List.foldl_append

/-- The entries, after more records. -/
theorem recordEntries_append (rs rs' : List WALRecord) :
    recordEntries (rs ++ rs') = recordEntries rs ++ recordEntries rs' := List.filterMap_append

/-- The entries of what `save` appends. -/
theorem recordEntries_savedRecords (hs : HardState) (es : List Entry) :
    recordEntries (WAL.savedRecords hs es) = es := by
  have h := entries_records [.save hs es]
  simpa [savedEntries, WALCall.records, WALCall.entries, recordEntries] using h

/-- The hard state after what `save` appends. -/
theorem lastState_savedRecords (hs₀ hs : HardState) (es : List Entry) :
    lastState hs₀ (WAL.savedRecords hs es) = if hs.isEmptyState then hs₀ else hs := by
  have h := lastState_records [.save hs es] hs₀
  simpa [WALCall.records, WALCall.nextState] using h

/-- The position of a snapshot changes neither. -/
theorem recordedLast_snapshot (base : ℕ) (rs : List WALRecord) (s : WALSnapshot) :
    recordEntries (rs ++ [.snapshot s]) = recordEntries rs ∧
      lastState {} (rs ++ [.snapshot s]) = lastState {} rs ∧
      recordedLast base (rs ++ [.snapshot s]) = recordedLast base rs := by
  have hentries : recordEntries (rs ++ [.snapshot s]) = recordEntries rs := by
    rw [recordEntries_append]
    exact List.append_nil _
  refine ⟨hentries, lastState_append _ _ _, ?_⟩
  unfold recordedLast
  rw [hentries]

namespace Journal

variable {F : Formats} {termOf : ℕ → ℕ} {rs : List WALRecord} {snapFiles : List SnapFile}

/-- What is read of the records of the log, which no position contradicts. -/
theorem readAll_eq (hF : F.wal.Lawful) (hfirst : .snapshot {} ∈ rs) (hfits : ∀ r ∈ rs, r.Fits F.wal)
    (hpositions : ∀ s, .snapshot s ∈ rs → s = {} ∨ s.index ≠ 0 ∧ s.term = termOf s.index)
    (hloaded : ∀ s ∈ (Snapshotter.load F.snap snapFiles).1,
      s.metadata.index ≠ 0 ∧ s.metadata.term = termOf s.metadata.index) :
    ∃ wal : WAL, (openedWAL F (recordedDisk F rs snapFiles)).readAll F.wal =
        .ok (lastState {} rs, replayEntries (loadedIndex F snapFiles) [] rs, wal) ∧
      wal.file.durable = encodeRecords F.wal rs := by
  have hmatches : Matches
      { index := (loadedSnapshot F (recordedDisk F rs snapFiles)).metadata.index
        term := (loadedSnapshot F (recordedDisk F rs snapFiles)).metadata.term } rs := by
    refine ⟨⟨_, hfirst⟩, fun s hs hindex => ?_⟩
    dsimp only at hindex ⊢
    have hof := hpositions s hs
    unfold loadedSnapshot at hindex ⊢
    cases hload : (Snapshotter.load F.snap (recordedDisk F rs snapFiles).snapFiles).1 with
    | none =>
      -- Nothing is loaded, so that the position is that of the empty snapshot.
      rw [hload] at hindex
      obtain rfl | ⟨hne, -⟩ := hof
      · rfl
      · exact absurd hindex hne
    | some snapshot =>
      obtain ⟨hne, hterm⟩ := hloaded snapshot hload
      rw [hload] at hindex
      obtain rfl | ⟨-, hterm'⟩ := hof
      · exact absurd hindex.symm hne
      · rw [hterm', hindex]
        exact hterm.symm
  obtain ⟨enti, hread⟩ := WAL.readAll_eq hF hfits hmatches
  refine ⟨_, hread, ?_⟩
  simp [WAL.openLog, WALFile.openFile, WALFile.durable]

/-- What is replayed of records and files that fit together. -/
theorem replayed (h : Journal F termOf rs snapFiles) (hF : F.wal.Lawful) :
    ∃ r, replayWAL F (recordedDisk F rs snapFiles) = .ok r ∧
      r.wal.file.durable = encodeRecords F.wal rs ∧
      r.snapFiles = (Snapshotter.load F.snap snapFiles).2 ∧
      r.storage.hardState = lastState {} rs ∧
      r.storage.dummy.index = loadedIndex F snapFiles ∧
      r.storage.snapshot.metadata.index = loadedIndex F snapFiles ∧
      r.storage.lastIndex = recordedLast (loadedIndex F snapFiles) rs := by
  obtain ⟨wal, hread, hdurable⟩ := readAll_eq hF h.first h.fits h.positions h.loaded
  obtain ⟨ents, hents, hlen⟩ := h.gapless.replay
  have hents : replayEntries (loadedIndex F snapFiles) [] rs = ents.map some := hents
  rw [hents] at hread
  obtain ⟨r, hr⟩ := replayWAL_returns hread
  obtain ⟨hs, ents', hread', -, hstate, hsnap, hdummy, hentries, hfiles, -⟩ := replayWAL_spec _ r hr
  obtain ⟨rfl, heq⟩ : lastState {} rs = hs ∧ ents.map some = ents'.map some ∧ wal = r.wal := by
    have h := Except.ok.inj (hread.symm.trans hread')
    exact ⟨congrArg (·.1) h, congrArg (·.2.1) h, congrArg (·.2.2) h⟩
  refine ⟨r, hr, ?_, hfiles, hstate, hdummy, hsnap, ?_⟩
  · rw [← heq.2]
    exact hdurable
  · have hlast := RaftLog.storage_lastIndex_succ r.storage
    have hents' : ents'.length = ents.length := by
      have h := congrArg List.length heq.1
      rw [List.length_map, List.length_map] at h
      exact h.symm
    have hbase : r.storage.dummy.index = loadedIndex F snapFiles := hdummy
    have hrecorded : loadedIndex F snapFiles + ents.length = recordedLast (loadedIndex F snapFiles) rs := hlen
    rw [hentries, List.length_cons, hents', hbase] at hlast
    omega

/-- The log that `create` makes. -/
theorem created (hcreate : (WALRecord.snapshot {}).Fits F.wal) : Journal F termOf [.snapshot {}] [] := by
  constructor
  · exact List.mem_cons_self
  · intro r hr
    obtain rfl := List.mem_singleton.mp hr
    exact hcreate
  · intro s hs
    cases List.mem_singleton.mp hs
    exact Or.inl rfl
  · exact Snapshotter.named_nil
  · intro s hs
    cases hs
  · exact Overlay.gapless_nil
  · exact Nat.zero_le _
  · exact Nat.le_refl _

/-- What is saved has no position of a snapshot. -/
theorem savedRecords_positions
    (h : ∀ s, .snapshot s ∈ rs → s = {} ∨ s.index ≠ 0 ∧ s.term = termOf s.index) (hs : HardState)
    (es : List Entry) (s : WALSnapshot) (hmem : .snapshot s ∈ rs ++ WAL.savedRecords hs es) :
    s = {} ∨ s.index ≠ 0 ∧ s.term = termOf s.index := by
  refine h s ((List.mem_append.mp hmem).resolve_right fun hmem => ?_)
  unfold WAL.savedRecords at hmem
  obtain hmem | hmem := List.mem_append.mp hmem
  · obtain ⟨e, -, he⟩ := List.mem_map.mp hmem
    cases he
  · split_ifs at hmem
    · cases hmem
    · cases List.mem_singleton.mp hmem

/-- The entries follow what is recorded, and there are some up to the commit index. -/
theorem save (h : Journal F termOf rs snapFiles) {hs : HardState} {es : List Entry}
    (hfits : ∀ r ∈ WAL.savedRecords hs es, r.Fits F.wal) {first : ℕ} (hes : IndexedFrom first es)
    (hgap : first ≤ recordedLast (loadedIndex F snapFiles) rs + 1)
    (hloaded : loadedIndex F snapFiles ≤ (lastState {} (rs ++ WAL.savedRecords hs es)).commit)
    (hcommit : (lastState {} (rs ++ WAL.savedRecords hs es)).commit ≤
      recordedLast (loadedIndex F snapFiles) (rs ++ WAL.savedRecords hs es)) :
    Journal F termOf (rs ++ WAL.savedRecords hs es) snapFiles where
  first := List.mem_append_left _ h.first
  fits r hr := (List.mem_append.mp hr).elim (h.fits r) (hfits r)
  positions := savedRecords_positions h.positions hs es
  named := h.named
  loaded := h.loaded
  gapless := by
    rw [recordEntries_append, recordEntries_savedRecords]
    exact (h.gapless.append hes hgap).1
  loaded_le := hloaded
  commit_le := hcommit

/-- What is saved is recorded. -/
theorem le_recordedLast (h : Journal F termOf rs snapFiles) (hs : HardState) {es : List Entry} {first : ℕ}
    (hes : IndexedFrom first es) (hgap : first ≤ recordedLast (loadedIndex F snapFiles) rs + 1) :
    first + es.length ≤ recordedLast (loadedIndex F snapFiles) (rs ++ WAL.savedRecords hs es) + 1 := by
  unfold recordedLast
  rw [recordEntries_append, recordEntries_savedRecords]
  exact (h.gapless.append hes hgap).2

/-- The position of a snapshot follows. -/
theorem saveSnapshot (h : Journal F termOf rs snapFiles) {s : WALSnapshot}
    (hfits : (WALRecord.snapshot s).Fits F.wal) (hindex : s.index ≠ 0) (hterm : s.term = termOf s.index) :
    Journal F termOf (rs ++ [.snapshot s]) snapFiles := by
  obtain ⟨hentries, hstate, hlast⟩ := recordedLast_snapshot (loadedIndex F snapFiles) rs s
  constructor
  · exact List.mem_append_left _ h.first
  · intro r hr
    obtain hr | hr := List.mem_append.mp hr
    · exact h.fits r hr
    · obtain rfl := List.mem_singleton.mp hr
      exact hfits
  · intro s' hs'
    obtain hs' | hs' := List.mem_append.mp hs'
    · exact h.positions s' hs'
    · cases List.mem_singleton.mp hs'
      exact Or.inr ⟨hindex, hterm⟩
  · exact h.named
  · exact h.loaded
  · rw [hentries]
    exact h.gapless
  · rw [hstate]
    exact h.loaded_le
  · rw [hstate, hlast]
    exact h.commit_le

/-- The file of a snapshot that is committed is added: it is loaded, or the one before still is. -/
theorem saveSnap (h : Journal F termOf rs snapFiles) {s : Snapshot} (hfile : Snapshotter.Faithful F.snap s)
    (hterm : s.metadata.term = termOf s.metadata.index) (hnew : loadedIndex F snapFiles < s.metadata.index)
    (hcommit : s.metadata.index ≤ (lastState {} rs).commit) :
    Journal F termOf rs (Snapshotter.saveSnap F.snap snapFiles s) ∧
      (loadedIndex F (Snapshotter.saveSnap F.snap snapFiles s) = loadedIndex F snapFiles ∨
        loadedIndex F (Snapshotter.saveSnap F.snap snapFiles s) = s.metadata.index) := by
  have hindex : ∀ s₀ ∈ (Snapshotter.load F.snap snapFiles).1, s₀.metadata.index < s.metadata.index := by
    intro s₀ hs₀
    unfold loadedIndex at hnew
    rw [Option.mem_def.mp hs₀] at hnew
    exact hnew
  obtain hold | hload := h.named.load_saveSnap hfile hindex
  · have heq : loadedIndex F (Snapshotter.saveSnap F.snap snapFiles s) = loadedIndex F snapFiles := by
      unfold loadedIndex
      rw [hold]
    refine ⟨⟨h.first, h.fits, h.positions, h.named.saveSnap hfile, ?_, ?_, ?_, ?_⟩, Or.inl heq⟩
    · rw [hold]
      exact h.loaded
    · rw [heq]
      exact h.gapless
    · rw [heq]
      exact h.loaded_le
    · rw [heq]
      exact h.commit_le
  · have heq : loadedIndex F (Snapshotter.saveSnap F.snap snapFiles s) = s.metadata.index := by
      unfold loadedIndex
      rw [hload]
      rfl
    have hle := Nat.le_of_lt hnew
    refine ⟨⟨h.first, h.fits, h.positions, h.named.saveSnap hfile, ?_, ?_, ?_, ?_⟩, Or.inr heq⟩
    · rw [hload]
      rintro s' ⟨⟩
      exact ⟨Nat.ne_of_gt (Nat.zero_lt_of_lt hnew), hterm⟩
    · rw [heq]
      exact h.gapless.mono hle
    · rw [heq]
      exact hcommit
    · rw [heq]
      exact Nat.le_trans h.commit_le (Overlay.last_mono Entry.index hle _)

/-- Broken files are renamed when a snapshot is loaded. -/
theorem load (h : Journal F termOf rs snapFiles) :
    Journal F termOf rs (Snapshotter.load F.snap snapFiles).2 ∧
      loadedIndex F (Snapshotter.load F.snap snapFiles).2 = loadedIndex F snapFiles := by
  have hload : (Snapshotter.load F.snap (Snapshotter.load F.snap snapFiles).2).1 =
      (Snapshotter.load F.snap snapFiles).1 := Snapshotter.load_load snapFiles
  have heq : loadedIndex F (Snapshotter.load F.snap snapFiles).2 = loadedIndex F snapFiles := by
    unfold loadedIndex
    rw [hload]
  refine ⟨⟨h.first, h.fits, h.positions, h.named.load, ?_, ?_, ?_, ?_⟩, heq⟩
  · rw [hload]
    exact h.loaded
  · rw [heq]
    exact h.gapless
  · rw [heq]
    exact h.loaded_le
  · rw [heq]
    exact h.commit_le

end Journal

/-- What fits together is replayed. -/
theorem Intact.replays {F : Formats} {termOf : ℕ → ℕ} {disk : Disk} (h : Intact F termOf disk)
    (hF : F.wal.Lawful) : Replays F disk := by
  obtain ⟨rs, snapFiles, rfl, hjournal⟩ := h
  obtain ⟨r, hr, -, -, hstate, -, -, hlast⟩ := hjournal.replayed hF
  refine ⟨r, hr, ?_⟩
  dsimp only
  rw [hstate, hlast]
  exact ⟨hjournal.loaded_le, hjournal.commit_le⟩

/-! ## What a step writes -/

variable {F : Formats} {n : RaftNode} {rd : Ready}

/-- The writing of what is ready is that of its calls. -/
theorem persistReady_files (n : RaftNode) (rd : Ready) :
    Ensures (n.persistReady F rd) fun n' => n'.files = (persistCalls rd).foldl (Call.write F) n.files := by
  unfold persistReady persistCalls
  dsimp only
  cases he : rd.snapshot.isEmpty with
  | true =>
    refine Ensures.bind (P := fun n' => n' = n.save F rd.hardState rd.entries) (Ensures.pure rfl) ?_
    rintro _ rfl
    exact Ensures.bind Ensures.any fun s _ => Ensures.pure rfl
  | false =>
    simp only [Bool.false_eq_true, if_false]
    have hpublish : ∀ m : RaftNode, Ensures (m.publishSnapshot rd.snapshot) fun m' => m'.files = m.files := by
      intro m
      unfold publishSnapshot
      refine Ensures.ite (fun _ => Ensures.ok rfl) fun _ => ?_
      exact Ensures.ite (fun _ => Ensures.error) fun _ => Ensures.ok rfl
    refine Ensures.bind (hpublish _) fun m hm => ?_
    refine Ensures.bind Ensures.any fun s _ => Ensures.pure ?_
    exact hm.trans rfl

/-- `publish_entries` writes nothing, and counts no entries as applied but those that it is given. -/
theorem publishEntries_silent {P : RawNode → Prop}
    (hP : ∀ node cc p, P node → node.applyConfChange cc = .ok p → P p.2) (last : ℕ) (es : List Entry)
    (n : RaftNode) (hle : n.appliedIndex ≤ last) (hes : ∀ e ∈ es, e.index ≤ last) (hn : P n.node) :
    Ensures (n.publishEntries F es) fun p => ∃ node cs calls applied,
      P node ∧ (∀ c ∈ calls, c.IsSilent) ∧ applied ≤ last ∧ p.2 = { n with
        node := node
        confState := cs
        calls := n.calls ++ calls
        appliedIndex := applied } := by
  induction es generalizing n with
  | nil =>
    refine Ensures.ok ⟨n.node, n.confState, [], n.appliedIndex, hn, by simp, hle, ?_⟩
    rw [List.append_nil]
  | cons e es ih =>
    have he := hes e List.mem_cons_self
    -- One more call, and then those of the other entries.
    have hmore : ∀ call nd cs k, (∀ c ∈ call, Call.IsSilent c) → P nd → k ≤ last →
        Ensures (({ n with
          node := nd
          confState := cs
          calls := n.calls ++ call
          appliedIndex := k } : RaftNode).publishEntries F es) fun p => ∃ node cs calls applied,
            P node ∧ (∀ c ∈ calls, c.IsSilent) ∧ applied ≤ last ∧ p.2 = { n with
              node := node
              confState := cs
              calls := n.calls ++ calls
              appliedIndex := applied } := by
      intro call nd cs k hcall hnd hk
      refine (ih _ hk (fun e' h => hes e' (List.mem_cons_of_mem _ h)) hnd).mono ?_
      rintro p ⟨node, cs', calls, applied, hnode, hsilent, happlied, hp⟩
      refine ⟨node, cs', call ++ calls, applied, hnode, fun c hc => ?_, happlied, ?_⟩
      · exact (List.mem_append.mp hc).elim (hcall c) (hsilent c)
      · rw [← List.append_assoc]
        exact hp
    have hsame : ∀ k, { n with calls := n.calls ++ [], appliedIndex := k } = { n with appliedIndex := k } := by
      intro k
      rw [List.append_nil]
    have hone : ∀ call : Call, call.IsSilent → ∀ c ∈ [call], c.IsSilent := by
      intro call hcall c hc
      obtain rfl := List.mem_singleton.mp hc
      exact hcall
    unfold publishEntries
    cases e.type with
    | entryNormal =>
      dsimp only
      by_cases hdata : e.data = []
      · rw [if_pos hdata, ← hsame]
        exact hmore [] n.node n.confState e.index (by simp) hn he
      · rw [if_neg hdata]
        exact hmore [.readCommit e] n.node n.confState e.index (hone _ fun _ _ => rfl) hn he
    | entryConfChange =>
      dsimp only
      cases F.confChange.unpack e.data with
      | none =>
        have hmore := hmore [] n.node n.confState n.appliedIndex (by simp) hn hle
        rwa [hsame] at hmore
      | some cc =>
        have hconf := hone (.applyConfChange e) fun _ _ => rfl
        refine Ensures.bind (P := fun p => P p.2) (fun p hp => hP _ _ p hn (ofRaft_eq_ok.mp hp)) ?_
        rintro ⟨cs, node⟩ hnode
        refine Ensures.ite (fun _ => ?_) fun _ => ?_
        · exact Ensures.ok ⟨node, cs, [.applyConfChange e], n.appliedIndex, hnode, hconf, hle, rfl⟩
        · exact hmore [.applyConfChange e] node cs e.index hconf hnode he
    | other code => exact Ensures.error

/-- What a turn of the loop that takes something leaves of the files and of the node. -/
structure Written (F : Formats) (n : RaftNode) (rd : Ready) (n' : RaftNode) : Prop where
  /-- The calls that write come first. -/
  calls : ∃ rest, n'.calls = persistCalls rd ++ rest ∧ ∀ c ∈ rest, c.IsSilent
  /-- The files. -/
  files : n'.files = (persistCalls rd).foldl (Call.write F) n.files
  /-- The log fits together. -/
  host : ({ node := n'.settled } : Host).Sound
  /-- What is applied is applied in the log. -/
  applied_le : n'.appliedIndex ≤ n'.settled.raft.raftLog.applied
  /-- It is behind what was applied, and behind the snapshot. -/
  base_le : rd.base n.node.raft.raftLog.applied ≤ n'.settled.raft.raftLog.applied
  /-- It was committed. -/
  applied : n'.settled.raft.raftLog.applied ≤ n.node.raft.raftLog.committed
  /-- The commit index is not lowered. -/
  committed : n.node.raft.raftLog.committed ≤ n'.settled.raft.raftLog.committed
  /-- The hard state that was written last. -/
  prev : n'.settled.prevHardState =
    if rd.hardState.isEmptyState then n.node.prevHardState else rd.hardState
  /-- What is ready is in the storage. -/
  storage : rd.persist n.node.storage = .ok n'.node.storage

/-- A turn of the loop that takes something. -/
theorem handleReady_written {node : RawNode} (hs : ({ node := n.node } : Host).Sound)
    (happ : n.appliedIndex ≤ n.node.raft.raftLog.applied) (hrd : n.node.ready = .ok (rd, node)) :
    Ensures ({ n with node := node, calls := [] }.handleReady F rd) (Written F n rd) := by
  obtain ⟨hbase, hidx, hafter, -⟩ := hs.ready_follows hrd
  obtain ⟨-, -, hentries, hsnap, hnext, size, hnode⟩ := RawNode.ready_eq hrd
  have hround := hs.log.ready (hs.idle rfl) hentries hsnap hnext
  -- What will be applied is committed.
  have hcommitted : rd.base n.node.raft.raftLog.applied + rd.committedEntries.length ≤
      n.node.raft.raftLog.committed := by
    have hcursor := hround.cursor_le
    have happlied := hs.log.applied_le
    have hafter' : n.node.raft.raftLog.appliedAfter rd =
        rd.base n.node.raft.raftLog.applied + rd.committedEntries.length := hafter
    rw [← hafter']
    unfold RaftLog.appliedAfter
    split_ifs
    · exact happlied
    · exact hcursor
  have hstorage : node.storage = n.node.storage := by
    rw [hnode]
    rfl
  unfold handleReady
  refine Ensures.bind ((persistReady_spec _ rd).ensures.and (persistReady_files _ rd)) ?_
  rintro n₁ ⟨⟨s, hpersist, hnode₁, -, -, -, happlied, hcalls, -, -⟩, hfiles⟩
  have hturn := hs.inTurn hrd hpersist
  obtain ⟨n₂, hn₂⟩ : ∃ n₂, n₂ = { n₁ with
    calls := n₁.calls ++ if rd.messages = [] then [] else [Call.send rd.messages] } := ⟨_, rfl⟩
  have hsend : (if rd.messages = [] then n₁ else n₁.call (.send rd.messages)) = n₂ := by
    rw [hn₂]
    split_ifs
    · rw [List.append_nil]
    · rfl
  dsimp only
  rw [hsend]
  have happlied₂ : n₂.appliedIndex ≤ rd.base n.node.raft.raftLog.applied := by
    have heq : n₂.appliedIndex = rd.base n.appliedIndex := by
      rw [hn₂]
      exact happlied
    rw [heq]
    unfold Ready.base
    split_ifs
    · exact happ
    · exact Nat.le_refl _
  refine Ensures.bind (entriesToApply_spec hidx happlied₂) ?_
  rintro _ ⟨rfl, -⟩
  refine Ensures.bind (publishEntries_silent (P := fun nd => n.node.InTurn rd s nd ∧
    n.node.raft.raftLog.committed ≤ nd.raft.raftLog.committed ∧ nd.prevHardState = n.node.prevHardState)
    ?_ (rd.base n.node.raft.raftLog.applied + rd.committedEntries.length) _ n₂
    (Nat.le_trans happlied₂ (Nat.le_add_right _ _)) ?_ ?_) ?_
  · -- A configuration change may commit more entries.
    rintro nd cc p ⟨hin, hle, hprev⟩ hp
    obtain ⟨hsteady, -, hprev'⟩ := RawNode.steady_applyConfChange nd cc p hp
    have hframe := (hsteady.moves.edits hin.host.log (fun m h => by cases h)).frame
    exact ⟨hin.applyConfChange cc hp, Nat.le_trans hle hframe.2.2.2, hprev'.trans hprev⟩
  · intro e he
    obtain ⟨i, hi, rfl⟩ := List.getElem_of_mem he
    have hpos := hidx i _ (List.getElem?_eq_getElem hi)
    have hlog : (Host.log { node := n.node }).applied = n.node.raft.raftLog.applied := rfl
    rw [hlog] at hpos
    omega
  · rw [hn₂]
    show n.node.InTurn rd s n₁.node ∧ _ ∧ _
    rw [hnode₁]
    refine ⟨hturn, ?_, ?_⟩
    · rw [hnode]
      exact Nat.le_refl _
    · rw [hnode]
      rfl
  rintro ⟨done, n₃⟩ ⟨nd, cs, calls, applied, ⟨hin, hle, hprev⟩, hsilent, hlast, rfl⟩
  obtain ⟨hsound, hcursor, -⟩ := hin.advance hs hrd
  have hadvanced : (nd.advance rd).storage = s := by rw [RawNode.advance_storage, hin.storage]
  have hpersist' : rd.persist n.node.storage = .ok s := by
    rw [← hstorage]
    exact hpersist
  have hcommit : (nd.advance rd).raft.raftLog.committed = nd.raft.raftLog.committed := by
    show (nd.raft.raftLog.advance rd).committed = _
    rw [RaftLog.advance_eq]
  have hprev' : (nd.advance rd).prevHardState =
      if rd.hardState.isEmptyState then n.node.prevHardState else rd.hardState := by
    rw [← hprev]
    rfl
  obtain ⟨rest, hcalls₂, hsilent₂⟩ : ∃ rest, n₂.calls ++ calls = persistCalls rd ++ rest ∧
      ∀ c ∈ rest, c.IsSilent := by
    refine ⟨(if rd.messages = [] then [] else [Call.send rd.messages]) ++ calls, ?_, fun c hc => ?_⟩
    · rw [hn₂]
      show n₁.calls ++ _ ++ calls = _
      rw [hcalls, List.append_assoc]
      rfl
    · obtain hc | hc := List.mem_append.mp hc
      · split_ifs at hc
        · cases hc
        · obtain rfl := List.mem_singleton.mp hc
          exact fun _ _ => rfl
      · exact hsilent c hc
  have hfiles₂ : n₂.files = (persistCalls rd).foldl (Call.write F) n.files := by
    rw [hn₂]
    exact hfiles
  refine Ensures.pure ?_
  unfold maybeTriggerSnapshot
  split_ifs
  · refine ⟨⟨rest, hcalls₂, hsilent₂⟩, hfiles₂, hsound, ?_, ?_, ?_, ?_, hprev', ?_⟩
    · exact Nat.le_trans hlast (Nat.le_of_eq hcursor.symm)
    · exact Nat.le_trans (Nat.le_add_right _ _) (Nat.le_of_eq hcursor.symm)
    · exact Nat.le_trans (Nat.le_of_eq hcursor) hcommitted
    · exact Nat.le_trans hle (Nat.le_of_eq hcommit.symm)
    · show _ = Except.ok (nd.advance rd).storage
      rw [hadvanced]
      exact hpersist'
  · refine ⟨⟨rest ++ [.getSnapshot], ?_, fun c hc => ?_⟩, hfiles₂, hsound, ?_, ?_, ?_, ?_, hprev', ?_⟩
    · show n₂.calls ++ calls ++ [Call.getSnapshot] = _
      rw [hcalls₂, List.append_assoc]
    · obtain hc | hc := List.mem_append.mp hc
      · exact hsilent₂ c hc
      · obtain rfl := List.mem_singleton.mp hc
        exact fun _ _ => rfl
    · exact Nat.le_trans hlast (Nat.le_of_eq hcursor.symm)
    · exact Nat.le_trans (Nat.le_add_right _ _) (Nat.le_of_eq hcursor.symm)
    · exact Nat.le_trans (Nat.le_of_eq hcursor) hcommitted
    · exact Nat.le_trans hle (Nat.le_of_eq hcommit.symm)
    · show _ = Except.ok nd.storage
      rw [hin.storage]
      exact hpersist'

/-! ## Nodes whose files keep up with them -/

/-- The files of a node hold the records, from which it can be started again at any time. -/
structure Backed (F : Formats) (termOf : ℕ → ℕ) (n : RaftNode) (rs : List WALRecord) : Prop where
  /-- The records are on the disk. -/
  written : n.wal.file.durable = encodeRecords F.wal rs
  /-- They fit together, and with the snapshot files. -/
  journal : Journal F termOf rs n.snapFiles
  /-- The log of the node fits together. -/
  host : ({ node := n.settled } : Host).Sound
  /-- What is applied is applied in the log. -/
  applied_le : n.appliedIndex ≤ n.settled.raft.raftLog.applied
  /-- The entries of the storage are recorded. -/
  stored : n.node.storage.lastIndex ≤ recordedLast (loadedIndex F n.snapFiles) rs
  /-- The snapshot that would be loaded is not newer than the storage's. -/
  snapshot : loadedIndex F n.snapFiles ≤ n.node.storage.snapshot.metadata.index
  /-- It is of applied entries. -/
  loaded : loadedIndex F n.snapFiles ≤ n.settled.raft.raftLog.applied
  /-- The commit index that was written last is the one that the node knows to be written. -/
  persisted : (lastState {} rs).commit = n.settled.prevHardState.commit
  /-- What is applied is committed there. -/
  applied : n.settled.raft.raftLog.applied ≤ (lastState {} rs).commit
  /-- It is committed. -/
  committed : (lastState {} rs).commit ≤ n.settled.raft.raftLog.committed

/-- What is on the disk, if the write-ahead log holds the records. -/
theorem disk_eq (fs : Files) {rs : List WALRecord} (h : fs.wal.file.durable = encodeRecords F.wal rs) :
    fs.disk = recordedDisk F rs fs.snapFiles := by
  unfold Files.disk recordedDisk
  rw [h]

/-- The disk is intact where the records and the files fit together. -/
theorem Journal.intact {termOf : ℕ → ℕ} {fs : Files} {rs : List WALRecord} {snapFiles : List SnapFile}
    (h : Journal F termOf rs snapFiles) (hdurable : fs.wal.file.durable = encodeRecords F.wal rs)
    (hfiles : fs.snapFiles = snapFiles) : Intact F termOf fs.disk := by
  refine ⟨rs, snapFiles, ?_, h⟩
  rw [disk_eq fs hdurable, hfiles]

section Crashes

variable {P : Files → Prop} {c : Call} {cs : List Call} {fs : Files}

/-- A crash before a call, or after it. -/
theorem forall_inits_cons : (∀ done ∈ (c :: cs).inits, P (done.foldl (Call.write F) fs)) ↔
    P fs ∧ ∀ done ∈ cs.inits, P (done.foldl (Call.write F) (c.write F fs)) := by
  rw [List.inits_cons]
  constructor
  · intro h
    refine ⟨h [] List.mem_cons_self, fun done hdone => ?_⟩
    exact h (c :: done) (List.mem_cons_of_mem _ (List.mem_map_of_mem hdone))
  · rintro ⟨hfirst, hrest⟩ done hdone
    obtain rfl | hdone := List.mem_cons.mp hdone
    · exact hfirst
    · obtain ⟨done', hdone', rfl⟩ := List.mem_map.mp hdone
      exact hrest done' hdone'

/-- A crash among calls that write nothing. -/
theorem forall_inits_silent (h : ∀ c ∈ cs, c.IsSilent) :
    (∀ done ∈ cs.inits, P (done.foldl (Call.write F) fs)) ↔ P fs := by
  induction cs with
  | nil => simp
  | cons c cs ih =>
    have hc : c.write F fs = fs := h c List.mem_cons_self F fs
    rw [forall_inits_cons, hc, ih fun c' hc' => h c' (List.mem_cons_of_mem _ hc'), and_self_iff]

end Crashes

/-- The hard state that is ready. -/
theorem ready_hardState {node node' : RawNode} (h : node.ready = .ok (rd, node')) :
    rd.hardState = if node.raft.hardState ≠ node.prevHardState then node.raft.hardState else {} := by
  unfold RawNode.ready at h
  obtain ⟨rd', hrd, h⟩ := bind_eq_ok.mp h
  cases h
  unfold Ready.new at hrd
  obtain ⟨es, -, hrd⟩ := bind_eq_ok.mp hrd
  cases hrd
  rfl

/-- Whatever was written before, the commit index is written once the hard state that is ready is. -/
theorem ready_commit {node node' : RawNode} (h : node.ready = .ok (rd, node')) {hs : HardState}
    (hprev : hs.commit = node.prevHardState.commit) (hle : hs.commit ≤ node.raft.raftLog.committed) :
    (if rd.hardState.isEmptyState then hs else rd.hardState).commit = node.raft.raftLog.committed := by
  have hcommit : node.raft.hardState.commit = node.raft.raftLog.committed := rfl
  rw [ready_hardState h]
  by_cases heq : node.raft.hardState = node.prevHardState
  · rw [if_neg (not_not.mpr heq)]
    show hs.commit = _
    rw [hprev, ← heq, hcommit]
  · rw [if_pos heq]
    split_ifs with hempty
    · -- The empty state is not written.
      have hzero : node.raft.raftLog.committed = 0 := by
        rw [← hcommit]
        unfold HardState.isEmptyState at hempty
        simpa using (Bool.and_eq_true_iff.mp hempty).2
      omega
    · exact hcommit

namespace Backed

variable {termOf : ℕ → ℕ} {rs : List WALRecord} {node : RawNode} {n' : RaftNode}

/-- The disk is intact. -/
theorem intact (h : Backed F termOf n rs) : Intact F termOf n.files.disk := h.journal.intact h.written rfl

/-- A restart would read the entries up to the last one that is recorded. -/
theorem reaches_iff (h : Backed F termOf n rs) (hF : F.wal.Lawful) (k : ℕ) :
    (Returns (replayWAL F n.files.disk) fun r => k ≤ r.storage.lastIndex) ↔
      k ≤ recordedLast (loadedIndex F n.snapFiles) rs := by
  obtain ⟨r, hr, -, -, -, -, -, hlast⟩ := h.journal.replayed hF
  rw [disk_eq n.files h.written]
  constructor
  · rintro ⟨r', hr', hle⟩
    cases hr.symm.trans hr'
    rwa [← hlast]
  · intro hle
    exact ⟨r, hr, Nat.le_trans hle (Nat.le_of_eq hlast.symm)⟩

/-- What is ready, and the snapshot that it comes with, if it does. -/
theorem ready_snapshot (h : Backed F termOf n rs) (hr : n.ready = none)
    (hrd : n.node.ready = .ok (rd, node)) :
    (rd.snapshot.isEmpty = true → n.node.raft.raftLog.unstable.offset ≤ n.node.storage.lastIndex + 1) ∧
      (rd.snapshot.isEmpty = false →
        n.node.raft.raftLog.unstable.offset = rd.snapshot.metadata.index + 1 ∧
        n.node.raft.raftLog.applied < rd.snapshot.metadata.index ∧
        rd.snapshot.metadata.index ≤ n.node.raft.raftLog.committed) := by
  have hhost := h.host
  rw [settled_of_none hr] at hhost
  obtain ⟨-, -, -, hsnap, -⟩ := RawNode.ready_eq hrd
  cases hs : n.node.raft.raftLog.unstable.snapshot with
  | none =>
    rw [hs] at hsnap
    rw [hsnap]
    exact ⟨fun _ => hhost.log.offset_le hs, nofun⟩
  | some s =>
    rw [hs] at hsnap
    rw [hsnap]
    have hpos := hhost.log.pending_applied s hs
    refine ⟨fun hempty => ?_, fun _ => ⟨hhost.log.pending_offset s hs, hpos, hhost.log.pending_committed s hs⟩⟩
    have hzero : s.metadata.index = 0 := by simpa [Snapshot.isEmpty] using hempty
    omega

/-- The commit index that is written with what is ready. -/
theorem saved_commit (h : Backed F termOf n rs) (hr : n.ready = none)
    (hrd : n.node.ready = .ok (rd, node)) :
    (lastState {} (rs ++ WAL.savedRecords rd.hardState rd.entries)).commit =
      n.node.raft.raftLog.committed := by
  have hpersisted := h.persisted
  have hcommitted := h.committed
  rw [settled_of_none hr] at hpersisted hcommitted
  rw [lastState_append, lastState_savedRecords]
  exact ready_commit hrd hpersisted hcommitted

/-- The records, with what is ready. -/
theorem saved (h : Backed F termOf n rs) (hr : n.ready = none) (hrd : n.node.ready = .ok (rd, node))
    (hfits : ∀ r ∈ WAL.savedRecords rd.hardState rd.entries, r.Fits F.wal)
    (hcovered : rd.snapshot.isEmpty = false →
      rd.snapshot.metadata.index ≤ recordedLast (loadedIndex F n.snapFiles) rs) :
    Journal F termOf (rs ++ WAL.savedRecords rd.hardState rd.entries) n.snapFiles ∧
      n.node.raft.raftLog.lastIndex ≤ recordedLast (loadedIndex F n.snapFiles)
        (rs ++ WAL.savedRecords rd.hardState rd.entries) := by
  have hhost := h.host
  have hloaded := h.loaded
  rw [settled_of_none hr] at hhost hloaded
  have hstored := h.stored
  have hcommit := h.saved_commit hr hrd
  obtain ⟨hempty, hfull⟩ := h.ready_snapshot hr hrd
  obtain ⟨-, -, hentries, -⟩ := RawNode.ready_eq hrd
  have hindexed : IndexedFrom n.node.raft.raftLog.unstable.offset rd.entries := by
    rw [hentries]
    exact hhost.log.unstable_indexed
  have hgap : n.node.raft.raftLog.unstable.offset ≤ recordedLast (loadedIndex F n.snapFiles) rs + 1 := by
    cases he : rd.snapshot.isEmpty with
    | true =>
      have hoff := hempty he
      omega
    | false =>
      have hoff := (hfull he).1
      have hle := hcovered he
      omega
  have hlast : n.node.raft.raftLog.lastIndex + 1 =
      n.node.raft.raftLog.unstable.offset + n.node.raft.raftLog.unstable.entries.length :=
    hhost.log.lastIndex_succ
  have hend := h.journal.le_recordedLast rd.hardState hindexed hgap
  rw [hentries, ← hlast] at hend
  rw [hentries] at hindexed hcommit hfits ⊢
  have happlied : n.node.raft.raftLog.applied ≤ n.node.raft.raftLog.committed := hhost.log.applied_le
  have hcommitted : n.node.raft.raftLog.committed ≤ n.node.raft.raftLog.lastIndex := hhost.log.committed_le
  refine ⟨h.journal.save hfits hindexed hgap ?_ ?_, ?_⟩
  · rw [hcommit]
    exact Nat.le_trans hloaded happlied
  · rw [hcommit]
    omega
  · omega

/-- If a snapshot leads past the records, the files are not replayed before it is on the disk. -/
theorem not_replays (h : Backed F termOf n rs) (hF : F.wal.Lawful) (hr : n.ready = none)
    (hrd : n.node.ready = .ok (rd, node))
    (hfits : ∀ r ∈ WAL.savedRecords rd.hardState rd.entries, r.Fits F.wal)
    (hsnap : rd.snapshot.isEmpty = false)
    (hlt : recordedLast (loadedIndex F n.snapFiles) rs < rd.snapshot.metadata.index) :
    ¬Replays F (recordedDisk F (rs ++ WAL.savedRecords rd.hardState rd.entries) n.snapFiles) := by
  have hhost := h.host
  rw [settled_of_none hr] at hhost
  have hcommit := h.saved_commit hr hrd
  obtain ⟨hoff, -, hle⟩ := (h.ready_snapshot hr hrd).2 hsnap
  obtain ⟨-, -, hentries, -⟩ := RawNode.ready_eq hrd
  have hindexed : IndexedFrom (rd.snapshot.metadata.index + 1) rd.entries := by
    rw [← hoff, hentries]
    exact hhost.log.unstable_indexed
  -- What is read: the entries that were recorded before, and those that are ready.
  obtain ⟨wal, hread, -⟩ := Journal.readAll_eq hF
    (List.mem_append_left (WAL.savedRecords rd.hardState rd.entries) h.journal.first)
    (fun r hr => (List.mem_append.mp hr).elim (h.journal.fits r) (hfits r))
    (Journal.savedRecords_positions h.journal.positions rd.hardState rd.entries) h.journal.loaded
  obtain ⟨bs, hbs, hlen⟩ := h.journal.gapless.replay
  have hreplay : replayEntries (loadedIndex F n.snapFiles) []
      (rs ++ WAL.savedRecords rd.hardState rd.entries) =
        Overlay.replay Entry.index (loadedIndex F n.snapFiles) (bs.map some) rd.entries := by
    show Overlay.replay _ _ _ (recordEntries _) = _
    rw [recordEntries_append, recordEntries_savedRecords, Overlay.replay_append, hbs]
  rintro ⟨r, hreplayed, -, hcommitted⟩
  obtain ⟨hs, ents, hread', -, hstate, -, hdummy, hstored, -⟩ := replayWAL_spec _ r hreplayed
  rw [hreplay] at hread
  have heq := Except.ok.inj (hread.symm.trans hread')
  have hents : Overlay.replay Entry.index (loadedIndex F n.snapFiles) (bs.map some) rd.entries =
      ents.map some := congrArg (·.2.1) heq
  have hrecorded : loadedIndex F n.snapFiles + bs.length = recordedLast (loadedIndex F n.snapFiles) rs := hlen
  cases hnil : rd.entries with
  | cons e es =>
    -- The entries behind the snapshot leave a gap.
    rw [hnil] at hents hindexed
    have hnull : none ∈ ents.map some := by
      rw [← hents]
      refine Overlay.none_mem_replay hindexed ?_
      rw [List.length_map]
      omega
    obtain ⟨e', -, he'⟩ := List.mem_map.mp hnull
    cases he'
  | nil =>
    -- There is no entry at the commit index.
    rw [hnil] at hents
    have hlength : ents.length = bs.length := by
      have h := congrArg List.length hents
      rw [List.length_map] at h
      rw [← h]
      exact List.length_map some
    have hlast := RaftLog.storage_lastIndex_succ r.storage
    have hbase : r.storage.dummy.index = loadedIndex F n.snapFiles := hdummy
    have hwritten : r.storage.hardState.commit = n.node.raft.raftLog.committed := by
      rw [hstate, ← hcommit]
      exact congrArg (fun p => p.1.commit) heq.symm
    rw [hstored, List.length_cons, hlength, hbase] at hlast
    omega

/-- A turn of the loop that takes something without a snapshot. -/
theorem took_entries (h : Backed F termOf n rs) (hr : n.ready = none)
    (hrd : n.node.ready = .ok (rd, node)) (hw : Written F n rd n')
    (hsaves : ∀ c ∈ n'.calls, c.Saveable F termOf) (hempty : rd.snapshot.isEmpty = true) :
    (∀ done ∈ n'.calls.inits, Intact F termOf (done.foldl (Call.write F) n.files).disk) ∧
      ∃ rs', Backed F termOf n' rs' := by
  obtain ⟨rest, hcalls, hsilent⟩ := hw.calls
  have hfiles := hw.files
  have hpersist : persistCalls rd = [.save rd.hardState rd.entries] := by
    unfold persistCalls
    rw [if_pos hempty]
  rw [hpersist] at hcalls hfiles
  rw [hcalls] at hsaves
  have hsave := hsaves (.save rd.hardState rd.entries) (List.mem_append_left _ List.mem_cons_self)
  obtain ⟨hjournal, hlast⟩ := h.saved hr hrd hsave (fun hne => by rw [hempty] at hne; cases hne)
  have hwal : n'.wal = n.wal.save F.wal rd.hardState rd.entries := congrArg Files.wal hfiles
  have hsnapFiles : n'.snapFiles = n.snapFiles := congrArg Files.snapFiles hfiles
  have hdurable : n'.wal.file.durable =
      encodeRecords F.wal (rs ++ WAL.savedRecords rd.hardState rd.entries) := by
    rw [hwal, WAL.durable_save, h.written, encodeRecords_append]
  have hfiles' : (Call.save rd.hardState rd.entries).write F n.files = n'.files := hfiles.symm
  refine ⟨?_, rs ++ WAL.savedRecords rd.hardState rd.entries, ?_⟩
  · rw [hcalls, List.singleton_append,
      forall_inits_cons (P := fun fs => Intact F termOf fs.disk), hfiles',
      forall_inits_silent (P := fun fs => Intact F termOf fs.disk) hsilent]
    exact ⟨h.intact, hjournal.intact hdurable hsnapFiles⟩
  · have hhost := h.host
    have hloaded := h.loaded
    have hcommit := h.saved_commit hr hrd
    have hpersisted := h.persisted
    have hcommitted := h.committed
    rw [settled_of_none hr] at hhost hloaded hpersisted hcommitted
    obtain ⟨-, -, hentries, hsnap, hnext, -⟩ := RawNode.ready_eq hrd
    have hround := hhost.log.ready (hhost.idle rfl) hentries hsnap hnext
    obtain ⟨-, hsame, hwritten, hkept, -⟩ :=
      hround.persist_spec hhost.log.storage_indexed _ hw.storage
    have hbase : rd.base n.node.raft.raftLog.applied = n.node.raft.raftLog.applied := by
      unfold Ready.base
      rw [if_pos hempty]
    have hle := hw.base_le
    rw [hbase] at hle
    refine ⟨hdurable, ?_, hw.host, hw.applied_le, ?_, ?_, ?_, ?_, ?_, ?_⟩
    · rw [hsnapFiles]
      exact hjournal
    · rw [hsnapFiles]
      by_cases hnil : rd.entries = []
      · have hsame' := hsame hnil hempty
        have hrecorded : recordedLast (loadedIndex F n.snapFiles)
            (rs ++ WAL.savedRecords rd.hardState rd.entries) =
            recordedLast (loadedIndex F n.snapFiles) rs := by
          unfold recordedLast
          rw [recordEntries_append, recordEntries_savedRecords, hnil, List.append_nil]
        rw [hsame', hrecorded]
        exact h.stored
      · have hend : n'.node.storage.lastIndex + 1 = n.node.raft.raftLog.unstable.offset +
            n.node.raft.raftLog.unstable.entries.length := by
          rw [← hentries]
          exact hwritten (Or.inl hnil)
        have hsucc : n.node.raft.raftLog.lastIndex + 1 = n.node.raft.raftLog.unstable.offset +
            n.node.raft.raftLog.unstable.entries.length := hhost.log.lastIndex_succ
        omega
    · rw [hsnapFiles, (hkept hempty).2]
      exact h.snapshot
    · rw [hsnapFiles]
      exact Nat.le_trans hloaded hle
    · rw [hcommit, hw.prev]
      exact (ready_commit hrd rfl (by rw [← hpersisted]; exact hcommitted)).symm
    · rw [hcommit]
      exact hw.applied
    · rw [hcommit]
      exact hw.committed

/-- A turn of the loop that takes a snapshot. -/
theorem took_snapshot (h : Backed F termOf n rs) (hF : F.wal.Lawful) (hr : n.ready = none)
    (hrd : n.node.ready = .ok (rd, node)) (hw : Written F n rd n')
    (hsaves : ∀ c ∈ n'.calls, c.Saveable F termOf) (hsnap : rd.snapshot.isEmpty = false) :
    ((∀ done ∈ n'.calls.inits, Replays F (done.foldl (Call.write F) n.files).disk) →
        rd.snapshot.metadata.index ≤ recordedLast (loadedIndex F n.snapFiles) rs) ∧
      (rd.snapshot.metadata.index ≤ recordedLast (loadedIndex F n.snapFiles) rs →
        (∀ done ∈ n'.calls.inits, Intact F termOf (done.foldl (Call.write F) n.files).disk) ∧
          ∃ rs', Backed F termOf n' rs') := by
  obtain ⟨rest, hcalls, hsilent⟩ := hw.calls
  have hfiles := hw.files
  obtain ⟨position, hposition⟩ : ∃ position : WALSnapshot, position =
      { index := rd.snapshot.metadata.index, term := rd.snapshot.metadata.term } := ⟨_, rfl⟩
  have hpersist : persistCalls rd = [.save rd.hardState rd.entries, .saveSnapshot position,
      .saveSnap rd.snapshot, .recoverFromSnapshot rd.snapshot.data] := by
    unfold persistCalls
    rw [if_neg (by rw [hsnap]; exact Bool.false_ne_true), hposition]
  rw [hpersist] at hcalls hfiles
  rw [hcalls] at hsaves
  have hsave := hsaves (.save rd.hardState rd.entries) (by simp)
  have hpos := hsaves (.saveSnapshot position) (by simp)
  have hfile := hsaves (.saveSnap rd.snapshot) (by simp)
  -- The files after each of the calls.
  obtain ⟨fs₁, hfs₁⟩ : ∃ fs₁, fs₁ = (Call.save rd.hardState rd.entries).write F n.files := ⟨_, rfl⟩
  obtain ⟨fs₂, hfs₂⟩ : ∃ fs₂, fs₂ = (Call.saveSnapshot position).write F fs₁ := ⟨_, rfl⟩
  obtain ⟨fs₃, hfs₃⟩ : ∃ fs₃, fs₃ = (Call.saveSnap rd.snapshot).write F fs₂ := ⟨_, rfl⟩
  have hend : n'.files = fs₃ := by
    rw [hfiles, hfs₃, hfs₂, hfs₁]
    rfl
  obtain ⟨rs₁, hrs₁⟩ : ∃ rs₁, rs₁ = rs ++ WAL.savedRecords rd.hardState rd.entries := ⟨_, rfl⟩
  have hdurable₁ : fs₁.wal.file.durable = encodeRecords F.wal rs₁ := by
    rw [hfs₁, hrs₁]
    show (n.wal.save F.wal rd.hardState rd.entries).file.durable = _
    rw [WAL.durable_save, h.written, encodeRecords_append]
  have hdurable₂ : fs₂.wal.file.durable = encodeRecords F.wal (rs₁ ++ [.snapshot position]) := by
    rw [hfs₂]
    show (fs₁.wal.saveSnapshot F.wal position).file.durable = _
    rw [WAL.durable_saveSnapshot, hdurable₁, encodeRecords_append]
  have hdurable₃ : fs₃.wal.file.durable = encodeRecords F.wal (rs₁ ++ [.snapshot position]) := by
    rw [hfs₃]
    exact hdurable₂
  have hsnap₁ : fs₁.snapFiles = n.snapFiles := by rw [hfs₁]; rfl
  have hsnap₂ : fs₂.snapFiles = n.snapFiles := by rw [hfs₂]; exact hsnap₁
  have hsnap₃ : fs₃.snapFiles = Snapshotter.saveSnap F.snap n.snapFiles rd.snapshot := by
    rw [hfs₃]
    exact congrArg (fun files => Snapshotter.saveSnap F.snap files rd.snapshot) hsnap₂
  have hcrashes : ∀ P : Files → Prop, (∀ done ∈ n'.calls.inits, P (done.foldl (Call.write F) n.files)) ↔
      P n.files ∧ P fs₁ ∧ P fs₂ ∧ P fs₃ := by
    intro P
    have hquiet : ∀ c ∈ Call.recoverFromSnapshot rd.snapshot.data :: rest, c.IsSilent := by
      intro c hc
      obtain rfl | hc := List.mem_cons.mp hc
      · exact fun _ _ => rfl
      · exact hsilent c hc
    rw [hcalls, List.cons_append, List.cons_append, List.cons_append, List.singleton_append,
      forall_inits_cons, ← hfs₁, forall_inits_cons, ← hfs₂, forall_inits_cons, ← hfs₃,
      forall_inits_silent hquiet]
  obtain ⟨hoff, hgt, hle⟩ := (h.ready_snapshot hr hrd).2 hsnap
  have hhost := h.host
  have hloaded := h.loaded
  rw [settled_of_none hr] at hhost hloaded
  have hcommit := h.saved_commit hr hrd
  rw [← hrs₁] at hcommit
  rw [hcrashes fun fs => Replays F fs.disk, hcrashes fun fs => Intact F termOf fs.disk]
  constructor
  · rintro ⟨-, hreplays, -⟩
    by_contra hlt
    rw [disk_eq fs₁ hdurable₁, hrs₁, hsnap₁] at hreplays
    exact h.not_replays hF hr hrd hsave hsnap (Nat.lt_of_not_le hlt) hreplays
  · intro hcovered
    obtain ⟨hjournal₁, hlast⟩ := h.saved hr hrd hsave fun _ => hcovered
    rw [← hrs₁] at hjournal₁ hlast
    have hjournal₂ := hjournal₁.saveSnapshot hpos.1 (by
      rw [hposition]
      exact Nat.ne_of_gt (Nat.zero_lt_of_lt hgt)) hpos.2
    obtain ⟨-, hstate, hrecorded⟩ := recordedLast_snapshot (loadedIndex F n.snapFiles) rs₁ position
    obtain ⟨hjournal₃, hindex⟩ := hjournal₂.saveSnap hfile (by rw [hposition] at hpos; exact hpos.2)
      (Nat.lt_of_le_of_lt hloaded hgt) (by rw [hstate, hcommit]; exact hle)
    refine ⟨⟨h.intact, hjournal₁.intact hdurable₁ hsnap₁, hjournal₂.intact hdurable₂ hsnap₂,
      hjournal₃.intact hdurable₃ hsnap₃⟩, ?_⟩
    have hpersisted := h.persisted
    have hcommitted := h.committed
    rw [settled_of_none hr] at hpersisted hcommitted
    obtain ⟨-, -, hentries, hsnapshot, hnext, -⟩ := RawNode.ready_eq hrd
    have hround := hhost.log.ready (hhost.idle rfl) hentries hsnapshot hnext
    obtain ⟨-, -, hwritten, -, hinstalled⟩ := hround.persist_spec hhost.log.storage_indexed _ hw.storage
    have hbase := hw.base_le
    unfold Ready.base at hbase
    rw [if_neg (by rw [hsnap]; exact Bool.false_ne_true)] at hbase
    have hsnapFiles : n'.snapFiles = Snapshotter.saveSnap F.snap n.snapFiles rd.snapshot :=
      (congrArg Files.snapFiles hend).trans hsnap₃
    have hindex_le : loadedIndex F n'.snapFiles ≤ rd.snapshot.metadata.index := by
      rw [hsnapFiles]
      omega
    have hindex_ge : loadedIndex F n.snapFiles ≤ loadedIndex F n'.snapFiles := by
      rw [hsnapFiles]
      omega
    refine ⟨rs₁ ++ [.snapshot position], ?_, ?_, hw.host, hw.applied_le, ?_, ?_, ?_, ?_, ?_, ?_⟩
    · rw [← hdurable₃, ← hend]
      rfl
    · rw [hsnapFiles]
      exact hjournal₃
    · have hlast' : n'.node.storage.lastIndex + 1 = n.node.raft.raftLog.unstable.offset +
          n.node.raft.raftLog.unstable.entries.length := by
        rw [← hentries]
        exact hwritten (Or.inr hsnap)
      have hsucc : n.node.raft.raftLog.lastIndex + 1 = n.node.raft.raftLog.unstable.offset +
          n.node.raft.raftLog.unstable.entries.length := hhost.log.lastIndex_succ
      have hmono : recordedLast (loadedIndex F n.snapFiles) (rs₁ ++ [.snapshot position]) ≤
          recordedLast (loadedIndex F n'.snapFiles) (rs₁ ++ [.snapshot position]) :=
        Overlay.last_mono Entry.index hindex_ge _
      omega
    · rw [(hinstalled hsnap).2]
      exact hindex_le
    · exact Nat.le_trans hindex_le hbase
    · rw [hstate, hcommit, hw.prev]
      exact (ready_commit hrd rfl (by rw [← hpersisted]; exact hcommitted)).symm
    · rw [hstate, hcommit]
      exact hw.applied
    · rw [hstate, hcommit]
      exact hw.committed

/-- A step that writes nothing, and changes neither the storage nor what is applied. -/
theorem quiet (h : Backed F termOf n rs) (hfiles : n'.files = n.files)
    (hhost : ({ node := n'.settled } : Host).Sound) (hindex : n'.appliedIndex = n.appliedIndex)
    (happlied : n'.settled.raft.raftLog.applied = n.settled.raft.raftLog.applied)
    (hstorage : n'.node.storage = n.node.storage)
    (hcommitted : n.settled.raft.raftLog.committed ≤ n'.settled.raft.raftLog.committed)
    (hprev : n'.settled.prevHardState = n.settled.prevHardState) : Backed F termOf n' rs := by
  have hwal : n'.wal = n.wal := congrArg Files.wal hfiles
  have hsnapFiles : n'.snapFiles = n.snapFiles := congrArg Files.snapFiles hfiles
  constructor
  · rw [hwal]
    exact h.written
  · rw [hsnapFiles]
    exact h.journal
  · exact hhost
  · rw [hindex, happlied]
    exact h.applied_le
  · rw [hstorage, hsnapFiles]
    exact h.stored
  · rw [hstorage, hsnapFiles]
    exact h.snapshot
  · rw [hsnapFiles, happlied]
    exact h.loaded
  · rw [hprev]
    exact h.persisted
  · rw [happlied]
    exact h.applied
  · exact Nat.le_trans h.committed hcommitted

/-- A step between the turns of the loop that edits the log. -/
theorem edited (h : Backed F termOf n rs) (hr : n.ready = none) {node : RawNode}
    (hedits : n.node.raft.raftLog.Edits node.raft.raftLog) (hprev : node.prevHardState = n.node.prevHardState)
    (calls : List Call) : Backed F termOf { n with node := node, calls := calls, ready := none } rs := by
  have hset := settled_of_none hr
  have hhost := h.host
  rw [hset] at hhost
  obtain ⟨hstorage, happlied, -, hcommitted⟩ := hedits.frame
  refine h.quiet rfl ?_ rfl ?_ hstorage ?_ ?_
  · exact ⟨hhost.log.edits hedits, fun hnone => (hhost.idle hnone).edits hhost.log hedits, nofun⟩
  · rw [hset]
    exact happlied
  · rw [hset]
    exact hcommitted
  · rw [hset]
    exact hprev

end Backed

/-- After a step that is covered, the files keep up with the node. If the step could have crashed at any
time, it is covered. -/
structure KeepsUp (F : Formats) (termOf : ℕ → ℕ) (t : Turn RaftNode RaftNodeEvent) : Prop where
  /-- It is covered. -/
  covered : (∀ disk ∈ crashes F t, Replays F disk) → Covered F t
  /-- At any time of the step, the disk is intact. -/
  intact : Covered F t → ∀ disk ∈ crashes F t, Intact F termOf disk
  /-- Behind the step, it still is. -/
  backed : Covered F t → ∃ rs, Backed F termOf t.after rs

namespace Backed

variable {termOf : ℕ → ℕ} {rs : List WALRecord} {n' : RaftNode} {e : RaftNodeEvent}

/-- The disks of a step's crashes. -/
theorem forall_crashes {P : Disk → Prop} {t : Turn RaftNode RaftNodeEvent} : (∀ disk ∈ crashes F t, P disk) ↔
    ∀ done ∈ t.after.calls.inits, P (done.foldl (Call.write F) t.before.files).disk := List.forall_mem_map

/-- A step that takes nothing is covered. -/
theorem covered_of_none (htaken : n.taken e = none) : Covered F ⟨n, e, n'⟩ := by
  intro rd hrd
  rw [show takes ⟨n, e, n'⟩ = none from htaken] at hrd
  cases hrd

/-- A step that takes nothing and writes nothing. -/
theorem keepsUp_of_silent (h : Backed F termOf n rs) (htaken : n.taken e = none)
    (hsilent : ∀ c ∈ n'.calls, c.IsSilent) (h' : Backed F termOf n' rs) : KeepsUp F termOf ⟨n, e, n'⟩ := by
  refine ⟨fun _ => covered_of_none htaken, fun _ => ?_, fun _ => ⟨rs, h'⟩⟩
  rw [forall_crashes, forall_inits_silent (P := fun fs => Intact F termOf fs.disk) hsilent]
  exact h.intact

/-- A turn of the loop that takes something. -/
theorem keepsUp_of_taken (h : Backed F termOf n rs) (hF : F.wal.Lawful) {node : RawNode} (hr : n.ready = none)
    (hrd : n.node.ready = .ok (rd, node)) (htaken : n.taken e = some rd) (hw : Written F n rd n')
    (hsaves : ∀ c ∈ n'.calls, c.Saveable F termOf) : KeepsUp F termOf ⟨n, e, n'⟩ := by
  have hcovered : Covered F ⟨n, e, n'⟩ ↔ (rd.snapshot.isEmpty = false →
      rd.snapshot.metadata.index ≤ recordedLast (loadedIndex F n.snapFiles) rs) := by
    unfold Covered
    rw [show takes ⟨n, e, n'⟩ = some rd from htaken]
    simp only [Option.mem_def, Option.some.injEq, forall_eq', h.reaches_iff hF]
  cases hsnap : rd.snapshot.isEmpty with
  | true =>
    obtain ⟨hcrashes, hbacked⟩ := h.took_entries hr hrd hw hsaves hsnap
    refine ⟨fun _ => hcovered.mpr ?_, fun _ => forall_crashes.mpr hcrashes, fun _ => hbacked⟩
    rw [hsnap]
    exact nofun
  | false =>
    obtain ⟨hneeds, hkeeps⟩ := h.took_snapshot hF hr hrd hw hsaves hsnap
    constructor
    · exact fun hall => hcovered.mpr fun _ => hneeds (forall_crashes.mp hall)
    · exact fun hc => forall_crashes.mpr (hkeeps (hcovered.mp hc hsnap)).1
    · exact fun hc => (hkeeps (hcovered.mp hc hsnap)).2

/-- A step between the turns of the loop. -/
theorem handle_idle (h : Backed F termOf n rs) (hF : F.wal.Lawful) (hr : n.ready = none)
    (hcons : e.Consecutive) : Ensures (n.handle F e) fun n' =>
      (∀ c ∈ n'.calls, c.Saveable F termOf) → KeepsUp F termOf ⟨n, e, n'⟩ := by
  have hhost := h.host
  have happ := h.applied_le
  rw [settled_of_none hr] at hhost happ
  -- The node moves, and at most the callback is called.
  have hmoved : ∀ (node : RawNode) (calls : List Call) (c : Cause), Course c n.node.raft node.raft →
      node.prevHardState = n.node.prevHardState → (∀ m, c = .step m → m.Consecutive) → n.taken e = none →
      (∀ c ∈ calls, c.IsSilent) →
      KeepsUp F termOf ⟨n, e, { n with node := node, calls := calls, ready := none }⟩ := by
    intro node calls c hmoves hprev hm htaken hsilent
    exact h.keepsUp_of_silent htaken hsilent (h.edited hr (hmoves.edits hhost.log hm) hprev calls)
  have hstay : ∀ node : RawNode, node.raft.raftLog = n.node.raft.raftLog →
      node.prevHardState = n.node.prevHardState → n.taken e = none →
      KeepsUp F termOf ⟨n, e, { n with node := node, calls := [], ready := none }⟩ := by
    intro node hlog hprev htaken
    refine h.keepsUp_of_silent htaken (by simp) (h.edited hr ?_ hprev [])
    rw [hlog]
  have hcallback : ∀ status, ∀ c ∈ [Call.callback status], c.IsSilent := by
    intro status c hc
    obtain rfl := List.mem_singleton.mp hc
    exact fun _ _ => rfl
  unfold RaftNode.handle
  dsimp only
  rw [hr]
  cases e with
  | tick =>
    refine Ensures.bindEq fun node hnode => Ensures.pure fun _ => ?_
    obtain ⟨hmoves, -, hprev⟩ := RawNode.moves_tick n.node node (ofRaft_eq_ok.mp hnode)
    exact hmoved node [] .tick hmoves hprev nofun rfl (by simp)
  | propose data =>
    refine Ensures.bindEq ?_
    rintro ⟨status, node⟩ hnode
    obtain ⟨⟨status', r⟩, hstep, heq⟩ := bind_eq_ok.mp (ofRaft_eq_ok.mp hnode)
    cases heq
    refine Ensures.pure fun _ => hmoved _ _ _ (Raft.moves_step rfl _ hstep) rfl ?_ rfl (hcallback _)
    rintro _ ⟨⟩ h
    cases h
  | process m =>
    refine Ensures.bindEq ?_
    rintro ⟨status, node⟩ hnode
    obtain ⟨hmoves, -, hprev⟩ := RawNode.moves_step n.node m _ (ofRaft_eq_ok.mp hnode)
    refine Ensures.pure fun _ => hmoved _ _ _ hmoves hprev ?_ rfl (hcallback _)
    rintro _ ⟨⟩
    exact hcons
  | pull =>
    unfold pullReadyEvents
    dsimp only
    apply Ensures.ite
    · -- Nothing is ready.
      intro hnot
      refine Ensures.pure fun _ => hstay n.node rfl rfl ?_
      unfold taken
      rw [hr]
      cases n.node.ready with
      | error err => rfl
      | ok p => exact if_neg fun h => hnot h.1
    intro hhas
    refine Ensures.bindEq ?_
    rintro ⟨rd, node⟩ hrd
    have hrd := ofRaft_eq_ok.mp hrd
    have htaken : n.taken .pull = if rd.containsUpdates then some rd else none := by
      unfold taken
      rw [hr, hrd]
      simp [not_not.mp hhas]
    apply Ensures.ite
    · intro hnot
      obtain ⟨-, -, -, -, -, size, hnode⟩ := RawNode.ready_eq hrd
      refine Ensures.pure fun _ => hstay node ?_ ?_ ?_
      · rw [hnode]
      · rw [hnode]
      · rw [htaken, if_neg hnot]
    · intro hupdates
      rw [if_pos (not_not.mp hupdates)] at htaken
      have hwritten := handleReady_written (F := F) hhost happ hrd
      rw [hr] at hwritten
      exact hwritten.mono fun n' hw hsaves => h.keepsUp_of_taken hF hr hrd htaken hw hsaves
  | snapshotData data => exact Ensures.ok fun _ => hstay n.node rfl rfl rfl

/-- What the node does with the data of the store: it puts a snapshot of what is applied into the storage, and
writes it. -/
theorem triggerSnapshot_written (data : Bytes)
    (hidx : IndexedFrom n.node.storage.dummy.index n.node.storage.entries) :
    Ensures ({ n with calls := [] }.triggerSnapshot F data) fun n₁ => ∃ s : MemoryStorage,
      n₁.node = n.node.setStorage s ∧ n₁.appliedIndex = n.appliedIndex ∧
      s.snapshot.metadata.index = n.appliedIndex ∧
      n.node.storage.snapshot.metadata.index < n.appliedIndex ∧
      s.lastIndex = n.node.storage.lastIndex ∧
      n₁.calls = [.saveSnapshot { index := s.snapshot.metadata.index, term := s.snapshot.metadata.term },
        .saveSnap s.snapshot] ∧
      n₁.files = n₁.calls.foldl (Call.write F) n.files := by
  unfold triggerSnapshot
  refine Ensures.bind (P := fun p : Status × Snapshot × MemoryStorage => p.1.isOk = true →
    p.2.2 = { n.node.storage with snapshot := p.2.1 } ∧ p.2.1.metadata.index = n.appliedIndex ∧
      n.node.storage.snapshot.metadata.index < n.appliedIndex) ?_ ?_
  · intro p hp
    have hp := ofRaft_eq_ok.mp hp
    unfold MemoryStorage.createSnapshot at hp
    dsimp only at hp
    split_ifs at hp with hold hout
    · cases hp
      intro hok
      cases hok
    · obtain ⟨e, -, hp⟩ := bind_eq_ok.mp hp
      cases hp
      exact fun _ => ⟨rfl, rfl, Nat.lt_of_not_le hold⟩
  rintro ⟨status, snap, s⟩ hcreated
  refine Ensures.ite (fun _ => Ensures.error) fun hok => ?_
  obtain ⟨hs, hindex, hnew⟩ := hcreated (not_not.mp hok)
  dsimp only at hs hindex ⊢
  have hdummy : s.dummy = n.node.storage.dummy := by rw [hs]; rfl
  have hentries : s.entries = n.node.storage.entries := by rw [hs]
  have hlast : s.lastIndex = n.node.storage.lastIndex := by rw [hs]; rfl
  have hsnap : s.snapshot = snap := by rw [hs]
  refine Ensures.bind (P := fun p : Status × MemoryStorage => p.2.snapshot = snap ∧
    p.2.lastIndex = n.node.storage.lastIndex) ?_ ?_
  · intro p hp
    obtain heq | ⟨hsnap', -, -, -, hlast'⟩ := MemoryStorage.compact_spec (s := s)
      (by rw [hdummy, hentries]; exact hidx) _ p (ofRaft_eq_ok.mp hp)
    · rw [heq]
      exact ⟨hsnap, hlast⟩
    · exact ⟨hsnap'.trans hsnap, hlast'.trans hlast⟩
  rintro ⟨status', s'⟩ ⟨hsnap', hlast'⟩
  refine Ensures.ite (fun _ => Ensures.error) fun _ => Ensures.pure ?_
  dsimp only at hsnap' hlast'
  refine ⟨s', rfl, rfl, ?_, hnew, hlast', ?_, rfl⟩
  · rw [hsnap']
    exact hindex
  · rw [hsnap']
    rfl

/-- A step during the wait for the store. -/
theorem handle_waiting (h : Backed F termOf n rs) (hr : n.ready = some rd) :
    Ensures (n.handle F e) fun n' =>
      (∀ c ∈ n'.calls, c.Saveable F termOf) → KeepsUp F termOf ⟨n, e, n'⟩ := by
  have hset : n.settled = n.node.advance rd := by
    unfold settled
    rw [hr]
  have htaken : n.taken e = none := by
    unfold taken
    rw [hr]
    cases e <;> rfl
  have hhost := h.host
  have happ := h.applied_le
  unfold RaftNode.handle
  dsimp only
  rw [hr]
  cases e with
  | snapshotData data =>
    rw [hset] at hhost happ
    have hidx : IndexedFrom n.node.storage.dummy.index n.node.storage.entries := by
      have h := hhost.log.storage_indexed
      rwa [show ({ node := n.node.advance rd } : Host).log.storage = n.node.storage from
        n.node.advance_storage rd] at h
    dsimp only
    rw [← hr]
    refine Ensures.bind ((triggerSnapshot_spec (F := F) (n := { n with calls := [] }) data hhost
      happ).ensures.and (triggerSnapshot_written data hidx)) ?_
    rintro n₁ ⟨⟨-, -, hsound, hcursor, -⟩, s, hnode, hindex, hof, hnew, hlast, hcalls, hfiles⟩
    refine Ensures.pure fun hsaves => ?_
    have hsaves : ∀ c ∈ n₁.calls, c.Saveable F termOf := hsaves
    rw [hcalls] at hsaves hfiles
    have hpos := hsaves _ List.mem_cons_self
    have hfile := hsaves _ (List.mem_cons_of_mem _ List.mem_cons_self)
    -- The files after each of the calls.
    obtain ⟨position, hposition⟩ : ∃ position : WALSnapshot, position =
        { index := s.snapshot.metadata.index, term := s.snapshot.metadata.term } := ⟨_, rfl⟩
    rw [← hposition] at hpos hfiles hcalls
    obtain ⟨fs₁, hfs₁⟩ : ∃ fs₁, fs₁ = (Call.saveSnapshot position).write F n.files := ⟨_, rfl⟩
    obtain ⟨fs₂, hfs₂⟩ : ∃ fs₂, fs₂ = (Call.saveSnap s.snapshot).write F fs₁ := ⟨_, rfl⟩
    have hend : n₁.files = fs₂ := by
      rw [hfiles, hfs₂, hfs₁]
      rfl
    have hdurable₁ : fs₁.wal.file.durable = encodeRecords F.wal (rs ++ [.snapshot position]) := by
      rw [hfs₁]
      show (n.wal.saveSnapshot F.wal position).file.durable = _
      rw [WAL.durable_saveSnapshot, h.written, encodeRecords_append]
    have hdurable₂ : fs₂.wal.file.durable = encodeRecords F.wal (rs ++ [.snapshot position]) := by
      rw [hfs₂]
      exact hdurable₁
    have hsnap₁ : fs₁.snapFiles = n.snapFiles := by rw [hfs₁]; rfl
    have hsnap₂ : fs₂.snapFiles = Snapshotter.saveSnap F.snap n.snapFiles s.snapshot := by
      rw [hfs₂]
      exact congrArg (fun files => Snapshotter.saveSnap F.snap files s.snapshot) hsnap₁
    have hloaded := h.snapshot
    have happlied := h.applied
    rw [hset] at happlied
    have hjournal₁ := h.journal.saveSnapshot hpos.1 (by
      rw [hposition]
      show s.snapshot.metadata.index ≠ 0
      omega) hpos.2
    obtain ⟨-, hstate, -⟩ := recordedLast_snapshot (loadedIndex F n.snapFiles) rs position
    obtain ⟨hjournal₂, hnewIndex⟩ := hjournal₁.saveSnap hfile (by rw [hposition] at hpos; exact hpos.2)
      (by omega) (by rw [hstate, hof]; exact Nat.le_trans happ happlied)
    refine ⟨fun _ => covered_of_none htaken, fun _ => ?_, fun _ => ⟨rs ++ [.snapshot position], ?_⟩⟩
    · rw [forall_crashes]
      show ∀ done ∈ n₁.calls.inits, _
      rw [hcalls, forall_inits_cons (P := fun fs => Intact F termOf fs.disk), ← hfs₁,
        forall_inits_cons (P := fun fs => Intact F termOf fs.disk), ← hfs₂,
        forall_inits_silent (P := fun fs => Intact F termOf fs.disk) (by simp)]
      exact ⟨h.intact, hjournal₁.intact hdurable₁ hsnap₁, hjournal₂.intact hdurable₂ hsnap₂⟩
    · have hsnapFiles : (n₁.advance rd).snapFiles = Snapshotter.saveSnap F.snap n.snapFiles s.snapshot :=
        (congrArg Files.snapFiles hend).trans hsnap₂
      have hwal : (n₁.advance rd).wal = fs₂.wal := congrArg Files.wal hend
      have hstorage : (n₁.advance rd).node.storage = s := by
        show (n₁.node.advance rd).storage = s
        rw [RawNode.advance_storage, hnode]
        rfl
      have hsettled : (n₁.advance rd).settled = (n.node.advance rd).setStorage s := by
        show n₁.node.advance rd = _
        rw [hnode, RawNode.setStorage_advance]
      have hle : loadedIndex F (n₁.advance rd).snapFiles ≤ n.appliedIndex := by
        rw [hsnapFiles]
        omega
      have hge : loadedIndex F n.snapFiles ≤ loadedIndex F (n₁.advance rd).snapFiles := by
        rw [hsnapFiles]
        omega
      refine ⟨?_, ?_, hsound, ?_, ?_, ?_, ?_, ?_, ?_, ?_⟩
      · rw [hwal]
        exact hdurable₂
      · rw [hsnapFiles]
        exact hjournal₂
      · rw [hsettled]
        show n₁.appliedIndex ≤ _
        rw [hindex]
        exact happ
      · have hmono : recordedLast (loadedIndex F n.snapFiles) (rs ++ [.snapshot position]) ≤
            recordedLast (loadedIndex F (n₁.advance rd).snapFiles) (rs ++ [.snapshot position]) :=
          Overlay.last_mono Entry.index hge _
        have hstored := h.stored
        rw [← (recordedLast_snapshot (loadedIndex F n.snapFiles) rs position).2.2] at hstored
        rw [hstorage, hlast]
        exact Nat.le_trans hstored hmono
      · rw [hstorage, hof]
        exact hle
      · rw [hsettled]
        exact Nat.le_trans hle happ
      · rw [hsettled, hstate, h.persisted, hset]
        rfl
      · rw [hsettled, hstate]
        exact happlied
      · have hcommitted := h.committed
        rw [hset] at hcommitted
        rw [hsettled, hstate]
        exact hcommitted
  | _ =>
    refine Ensures.ok fun _ => h.keepsUp_of_silent htaken (by simp) ?_
    exact h.quiet rfl (by rw [hset] at hhost; exact hhost) rfl (by rw [hset]; rfl) rfl
      (by rw [hset]; exact Nat.le_refl _) (by rw [hset]; rfl)

/-- A step. -/
theorem handle (h : Backed F termOf n rs) (hF : F.wal.Lawful) (hcons : e.Consecutive) :
    Ensures (n.handle F e) fun n' =>
      (∀ c ∈ n'.calls, c.Saveable F termOf) → KeepsUp F termOf ⟨n, e, n'⟩ := by
  cases hr : n.ready with
  | none => exact h.handle_idle hF hr hcons
  | some rd => exact h.handle_waiting hr

end Backed

/-! ## Starting -/

/-- The commit indices of a node that was just made over a storage: the commit index that the storage has,
unless there are no entries. -/
theorem makeNode_commits (walExists : Bool) (peers : ℕ) (c : Config) :
    Ensures (makeNode F walExists peers c) fun node =>
      (c.storage.lastIndex = 0 → node.prevHardState = {}) ∧
      (c.storage.lastIndex ≠ 0 →
        node.prevHardState.commit = max c.storage.dummy.index c.storage.hardState.commit ∧
        node.raft.raftLog.committed = max c.storage.dummy.index c.storage.hardState.commit) := by
  -- Over entries, both constructors keep what was loaded.
  have hend : ∀ r, Raft.new c = .ok r → c.storage.lastIndex ≠ 0 →
      (RawNode.ofRaft r c.storage.lastIndex).prevHardState.commit =
          max c.storage.dummy.index c.storage.hardState.commit ∧
        (RawNode.ofRaft r c.storage.lastIndex).raft.raftLog.committed =
          max c.storage.dummy.index c.storage.hardState.commit := by
    intro r hr hne
    have hcommitted : r.raftLog.committed = max c.storage.dummy.index c.storage.hardState.commit := by
      rw [(Raft.new_raftLog c r hr).1]
    refine ⟨?_, hcommitted⟩
    unfold RawNode.ofRaft
    rw [if_neg hne]
    exact hcommitted
  have hprev : ∀ r, c.storage.lastIndex = 0 →
      (RawNode.ofRaft r c.storage.lastIndex).prevHardState = {} := by
    intro r hzero
    unfold RawNode.ofRaft
    rw [if_pos hzero]
  unfold makeNode
  apply Ensures.ite
  · intro _ node hnode
    obtain ⟨r, hr, hnode⟩ := bind_eq_ok.mp hnode
    cases hnode
    exact ⟨hprev r, hend r hr⟩
  · intro _ node hnode
    unfold RawNode.startNode at hnode
    obtain ⟨r, hr, hnode⟩ := bind_eq_ok.mp hnode
    split_ifs at hnode with hzero
    · obtain ⟨l, -, hnode⟩ := bind_eq_ok.mp hnode
      obtain ⟨r', -, hnode⟩ := bind_eq_ok.mp hnode
      cases hnode
      exact ⟨hprev r', fun hne => absurd hzero hne⟩
    · cases hnode
      exact ⟨fun h => absurd h hzero, hend r hr⟩

/-- The files keep up with a node that was just started over an intact disk, or over none. -/
theorem Backed.start {termOf : ℕ → ℕ} {id peers : ℕ} {device : RandomDevice} {disk : Disk} {data : Bytes}
    (h : RaftNode.start F id peers device disk = .ok (n, data)) (hF : F.wal.Lawful)
    (hcreate : (WALRecord.snapshot {}).Fits F.wal) (hdisk : disk = {} ∨ Intact F termOf disk) :
    ∃ rs, Backed F termOf n rs := by
  have hstarted := start_spec h
  -- Without a write-ahead log, one is created.
  obtain ⟨rs, snapFiles, hreplay, hfiles, hjournal⟩ : ∃ rs snapFiles,
      replayWAL F disk = replayWAL F (recordedDisk F rs snapFiles) ∧ disk.snapFiles = snapFiles ∧
        Journal F termOf rs snapFiles := by
    obtain rfl | ⟨rs, snapFiles, rfl, hjournal⟩ := hdisk
    · refine ⟨[.snapshot {}], [], ?_, rfl, Journal.created hcreate⟩
      unfold replayWAL recordedDisk
      rw [← WAL.create_eq]
      rfl
    · exact ⟨rs, snapFiles, rfl, rfl, hjournal⟩
  obtain ⟨r, hr, hdurable, hsnapFiles, hstate, hdummy, hsnapshot, hlast⟩ := hjournal.replayed hF
  obtain ⟨hload, hindex⟩ := hjournal.load
  have hloaded_le := hjournal.loaded_le
  have hcommit_le := hjournal.commit_le
  have hbase : (loadedSnapshot F disk).metadata.index = loadedIndex F snapFiles := by
    rw [← hfiles]
    rfl
  have happlied := hstarted.applied
  have hcursor := hstarted.sound.applied
  have hsnap := hstarted.snapshot
  have hset := settled_of_none hstarted.ready
  rw [hset] at hcursor
  rw [hbase] at happlied hsnap
  unfold RaftNode.start at h
  obtain ⟨r', hr', h⟩ := bind_eq_ok.mp h
  rw [ofRaft_eq_ok, hreplay, hr] at hr'
  cases hr'
  split at h
  · next c hvalid =>
    obtain ⟨-, a, b, rfl⟩ := Config.validate_spec hvalid
    obtain ⟨node, hnode, h⟩ := bind_eq_ok.mp h
    cases h
    rw [ofRaft_eq_ok] at hnode
    obtain ⟨hempty, hfull⟩ := makeNode_commits _ _ _ _ hnode
    have hcons := replayWAL_consistent _ r hr
    obtain ⟨-, hstorage, -, -⟩ := makeNode_spec (c := { config id r.storage device with
      maxUncommittedEntriesSize := a
      maxCommittedSizePerReady := b }) hcons rfl _ _ node hnode
    have hstorage : node.storage = r.storage := hstorage
    have hempty : r.storage.lastIndex = 0 → node.prevHardState = {} := hempty
    have hfull : r.storage.lastIndex ≠ 0 →
        node.prevHardState.commit = max r.storage.dummy.index r.storage.hardState.commit ∧
          node.raft.raftLog.committed = max r.storage.dummy.index r.storage.hardState.commit := hfull
    rw [hstate, hdummy, hlast] at hfull
    rw [hlast] at hempty
    -- The commit index that was written is that of the node.
    have hcommit : (lastState {} rs).commit = node.prevHardState.commit ∧
        (lastState {} rs).commit ≤ node.raft.raftLog.committed := by
      by_cases hzero : recordedLast (loadedIndex F snapFiles) rs = 0
      · rw [hempty hzero]
        have hnone : (lastState {} rs).commit = 0 := by omega
        rw [hnone]
        exact ⟨rfl, Nat.zero_le _⟩
      · obtain ⟨hprev, hcommitted⟩ := hfull hzero
        rw [hprev, hcommitted]
        omega
    dsimp only at happlied hcursor hsnap hset
    rw [← hsnapFiles] at hload hindex
    refine ⟨rs, hdurable, hload, hstarted.sound.host, ?_, ?_, ?_, ?_, ?_, ?_, ?_⟩
    · rw [hset]
      exact Nat.le_of_eq hcursor
    · show node.storage.lastIndex ≤ recordedLast (loadedIndex F r.snapFiles) rs
      rw [hindex, hstorage, hlast]
    · show loadedIndex F r.snapFiles ≤ node.storage.snapshot.metadata.index
      rw [hindex, hsnap]
    · rw [hset]
      show loadedIndex F r.snapFiles ≤ _
      rw [hindex, ← happlied]
      exact Nat.le_of_eq hcursor
    · rw [hset]
      exact hcommit.1
    · rw [hset, ← hcursor, happlied]
      exact hloaded_le
    · rw [hset]
      exact hcommit.2
  · cases h

end RaftNode

/-! ## Runs and lives -/

/-- A life of a node, from a start to a crash. -/
structure NodeLife where
  /-- What was on the disk. -/
  disk : Disk
  /-- The node as it was started. -/
  start : RaftNode
  /-- What happened since. -/
  steps : List (Turn RaftNode RaftNodeEvent)

namespace NodeLife

open RaftNode

/-- What can be on the disk when the node crashes. -/
def crashes (F : Formats) (l : NodeLife) : List Disk :=
  l.start.files.disk :: l.steps.flatMap (RaftNode.crashes F)

/-- A node lives after other lives: it was started over what its last crash left, or without files. The peers
keep their contract, and what is written can be read back. -/
structure Continues (F : Formats) (termOf : ℕ → ℕ) (earlier : List NodeLife) (l : NodeLife) : Prop where
  /-- The last crash. -/
  disk : l.disk ∈ earlier.getLast?.elim [{}] (crashes F)
  /-- It was started. -/
  start : ∃ id peers device data, RaftNode.start F id peers device l.disk = .ok (l.start, data)
  /-- It ran. -/
  run : ∃ n, Run F l.start l.steps n
  /-- The entries of append messages follow their index. -/
  consecutive : ∀ t ∈ l.steps, t.event.Consecutive
  /-- What it wrote. -/
  saveable : ∀ t ∈ l.steps, ∀ c ∈ t.after.calls, c.Saveable F termOf

variable {F : Formats} {termOf : ℕ → ℕ} {earlier lives : List NodeLife} {l : NodeLife}

/-- The disk is intact throughout a life that begins over an intact one, as long as each step is covered, or
could have crashed at any time. -/
theorem Continues.intact (h : Continues F termOf earlier l) (hF : F.wal.Lawful)
    (hcreate : (WALRecord.snapshot {}).Fits F.wal) (hdisk : l.disk = {} ∨ Intact F termOf l.disk)
    (hsteps : ∀ t ∈ l.steps, Covered F t ∨ ∀ disk ∈ RaftNode.crashes F t, Replays F disk) :
    (∀ t ∈ l.steps, Covered F t) ∧ ∀ disk ∈ l.crashes F, Intact F termOf disk := by
  obtain ⟨id, peers, device, data, hstart⟩ := h.start
  obtain ⟨n, hrun⟩ := h.run
  have hfirst := Backed.start hstart hF hcreate hdisk
  have hkeeps : ∀ t : Turn RaftNode RaftNodeEvent, t.before.handle F t.event = .ok t.after → t ∈ l.steps →
      (∃ rs, Backed F termOf t.before rs) → KeepsUp F termOf t := by
    rintro t ht hmem ⟨rs, hb⟩
    exact hb.handle hF (h.consecutive t hmem) _ ht (h.saveable t hmem)
  have hcovered : ∀ t ∈ l.steps, KeepsUp F termOf t → Covered F t :=
    fun t hmem hk => (hsteps t hmem).elim (fun h => h) hk.covered
  have hinv := (hrun.invariant (P := fun n => ∃ rs, Backed F termOf n rs) (Q := fun t => t ∈ l.steps)
    (fun t ht hmem hb => by
      have hk := hkeeps t ht hmem hb
      exact hk.backed (hcovered t hmem hk)) (fun _ ht => ht) hfirst).1
  have hall : ∀ t ∈ l.steps, KeepsUp F termOf t := fun t hmem =>
    hkeeps t (hrun.step_mem hmem) hmem (hinv t hmem)
  refine ⟨fun t hmem => hcovered t hmem (hall t hmem), fun disk hmem => ?_⟩
  obtain rfl | hmem := List.mem_cons.mp hmem
  · obtain ⟨rs, hb⟩ := hfirst
    exact hb.intact
  · obtain ⟨t, ht, hdisk⟩ := List.mem_flatMap.mp hmem
    have hk := hall t ht
    exact hk.intact (hcovered t ht hk) disk hdisk

end NodeLife

/-- A life that begins without files. -/
def firstLife (n : RaftNode) (es : List RaftNodeEvent) : NodeLife :=
  { disk := {}, start := n, steps := (runsThrough n es).1 }

/-- A snapshot of the second node, the leader of term 2, takes the place of an entry that is not committed. -/
def restoresSnapshot : List RaftNodeEvent :=
  [.pull, .process { type := .msgApp, toId := 1, fromId := 2, term := 1, index := 3, logTerm := 1
                     entries := [{ term := 1, index := 4, data := [1] }], commit := 3 }, .pull,
    .process { type := .msgSnap, toId := 1, fromId := 2, term := 2
               snapshot := { metadata := { index := 4, term := 2
                                           confState := { nodes := [1, 2, 3] } } } }, .pull]

/-- The contract of a life, and of what is written in it. -/
def NodeLife.KeepsContract (F : Formats) (termOf : ℕ → ℕ) (l : NodeLife) : Prop :=
  (∀ t ∈ l.steps, t.event.Consecutive) ∧ ∀ t ∈ l.steps, ∀ c ∈ t.after.calls, c.Saveable F termOf

instance (F : Formats) (termOf : ℕ → ℕ) (l : NodeLife) : Decidable (l.KeepsContract F termOf) :=
  inferInstanceAs (Decidable ((∀ t ∈ l.steps, t.event.Consecutive) ∧
    ∀ t ∈ l.steps, ∀ c ∈ t.after.calls, c.Saveable F termOf))

end RaftCpp
