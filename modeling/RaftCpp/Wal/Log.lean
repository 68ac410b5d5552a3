import RaftCpp.Wal.Record

/-!
# The write-ahead log

`WAL_File` and `WAL` of `raft-kv/wal/wal.h` and `raft-kv/wal/wal.cpp`. A record goes through two buffers
on its way to the file: `append` puts it into `data_buffer`, `sync` gives the buffer to `fwrite`, and the
bytes of `fwrite` stay with stdio until the file is closed. `cut` starts no new file, so that there is
only the one that `create` makes, and its name is left out.
-/

namespace RaftCpp

open Outcome

/-- `WAL_File`, an open file. -/
structure WALFile where
  /-- The bytes that the operating system holds. -/
  content : Bytes
  /-- The bytes that were given to `fwrite` and that stdio has not passed on. -/
  stdio : Bytes := []
  /-- `data_buffer`. -/
  dataBuffer : Bytes := []
  /-- `file_size`: opened for appending, a file starts with the position zero. -/
  fileSize : ℕ := 0
deriving DecidableEq, Repr

namespace WALFile

/-- The constructor. -/
def openFile (content : Bytes) : WALFile := { content := content }

/-- `append`. -/
def append (f : WALFile) (F : WALFormat) (r : WALRecord) : WALFile :=
  { f with dataBuffer := f.dataBuffer ++ r.encode F }

/-- `sync`: the buffer goes to `fwrite`. -/
def sync (f : WALFile) : WALFile :=
  { f with
    stdio := f.stdio ++ f.dataBuffer
    fileSize := f.fileSize + f.dataBuffer.length
    dataBuffer := [] }

/-- `truncate`. -/
def truncate (f : WALFile) (offset : ℕ) : WALFile :=
  { f with content := f.content.take offset, dataBuffer := [], fileSize := offset }

/-- What is left when the file is closed: `fclose` passes on what stdio holds, and `data_buffer` is
destroyed. -/
def close (f : WALFile) : Bytes := f.content ++ f.stdio

/-- What is left when the process is killed. -/
def kill (f : WALFile) : Bytes := f.content

/-- What would be left if every write were passed on at once. -/
def durable (f : WALFile) : Bytes := f.content ++ f.stdio ++ f.dataBuffer

/-- A record that is appended follows what would be left. -/
theorem durable_append (f : WALFile) (F : WALFormat) (r : WALRecord) :
    (f.append F r).durable = f.durable ++ r.encode F := by
  simp only [durable, append, List.append_assoc]

/-- `sync` only moves bytes on. -/
@[simp] theorem durable_sync (f : WALFile) : f.sync.durable = f.durable := by
  simp only [durable, sync, List.append_nil, List.append_assoc]

/-- The file holds whole records: those that the operating system has, those that stdio has, and those
in `data_buffer`. -/
structure Holds (F : WALFormat) (f : WALFile) (c s d : List WALRecord) : Prop where
  /-- The records that the operating system has. -/
  content : f.content = encodeRecords F c
  /-- The records that stdio has. -/
  stdio : f.stdio = encodeRecords F s
  /-- The records in `data_buffer`. -/
  dataBuffer : f.dataBuffer = encodeRecords F d

namespace Holds

variable {F : WALFormat} {f : WALFile} {c s d : List WALRecord} (h : f.Holds F c s d)

include h

/-- A record is appended to `data_buffer`. -/
theorem append (r : WALRecord) : (f.append F r).Holds F c s (d ++ [r]) where
  content := h.content
  stdio := h.stdio
  dataBuffer := by
    rw [WALFile.append, h.dataBuffer, encodeRecords_append]
    simp [encodeRecords]

/-- `sync` gives the records of `data_buffer` to stdio. -/
theorem sync : f.sync.Holds F c (s ++ d) [] where
  content := h.content
  stdio := by rw [WALFile.sync, h.stdio, h.dataBuffer, encodeRecords_append]
  dataBuffer := rfl

/-- The records that are left when the file is closed. -/
theorem close : f.close = encodeRecords F (c ++ s) := by
  rw [WALFile.close, h.content, h.stdio, encodeRecords_append]

/-- The records that would be left if every write were passed on at once. -/
theorem durable : f.durable = encodeRecords F (c ++ s ++ d) := by
  rw [WALFile.durable, h.content, h.stdio, h.dataBuffer, encodeRecords_append,
    encodeRecords_append]

end Holds

/-- A file that was just opened holds its content. -/
theorem holds_openFile (F : WALFormat) (rs : List WALRecord) :
    (openFile (encodeRecords F rs)).Holds F rs [] [] := ⟨rfl, rfl, rfl⟩

end WALFile

/-- `SegmentSizeBytes`. -/
def segmentSizeBytes : ℕ := 64 * 1000 * 1000

/-- `WAL`, an open log. -/
structure WAL where
  /-- The file. -/
  file : WALFile
  /-- `state_`: the last hard state that was saved since the log was opened. -/
  state : HardState := {}
  /-- `start_`: the snapshot to start reading at. -/
  start : WALSnapshot := {}
  /-- `enti_`. -/
  enti : ℕ := 0
deriving DecidableEq, Repr

namespace WAL

variable (F : WALFormat)

/-- `create`: the file holds the position of the empty snapshot. The file is closed, and so written. -/
def create : Bytes := ((WALFile.openFile []).append F (.snapshot {})).sync.close

/-- `open`. -/
def openLog (content : Bytes) (snap : WALSnapshot) : WAL :=
  { file := WALFile.openFile content, start := snap }

/-- `read_all`. -/
def readAll (w : WAL) : Result (HardState × List (Option Entry) × WAL) := do
  let (cut, st) ← readLoop F w.start (w.file.content.length + 1) w.file.content 0 {}
  if ¬ st.matchsnap then .error .walSnapshotNotFound
  else
    let file := match cut with
      | some offset => w.file.truncate offset
      | none => w.file
    return (st.hs, st.ents, { w with file := file, enti := st.enti })

/-- `save_entry`. -/
def saveEntry (w : WAL) (e : Entry) : WAL :=
  { w with file := w.file.append F (.entry e), enti := e.index }

/-- `save_hard_state`. -/
def saveHardState (w : WAL) (hs : HardState) : WAL :=
  if hs.isEmptyState then w
  else { w with state := hs, file := w.file.append F (.state hs) }

/-- `cut`. -/
def cut (w : WAL) : WAL := { w with file := w.file.sync }

/-- `save`. -/
def save (w : WAL) (hs : HardState) (ents : List Entry) : WAL :=
  if hs.isEmptyState ∧ ents = [] then w
  else
    let mustSync := isMustSync hs w.state ents.length
    let w := (ents.foldl (saveEntry F) w).saveHardState F hs
    if w.file.fileSize < segmentSizeBytes then
      if mustSync then { w with file := w.file.sync } else w
    else w.cut

/-- `save_snapshot`. -/
def saveSnapshot (w : WAL) (snap : WALSnapshot) : WAL :=
  { w with file := (w.file.append F (.snapshot snap)).sync, enti := max w.enti snap.index }

/-! ## What is written -/

variable {F}

/-- The entries are appended one after the other. -/
theorem holds_saveEntries {c s d : List WALRecord} {w : WAL} (h : w.file.Holds F c s d)
    (ents : List Entry) :
    (ents.foldl (saveEntry F) w).file.Holds F c s (d ++ ents.map .entry) ∧
      (ents.foldl (saveEntry F) w).file.fileSize = w.file.fileSize := by
  induction ents generalizing w d with
  | nil =>
    rw [List.map_nil, List.append_nil]
    exact ⟨h, rfl⟩
  | cons e ents ih =>
    obtain ⟨hfile, hsize⟩ := ih (w := w.saveEntry F e) (h.append (.entry e))
    rw [List.append_assoc, List.singleton_append] at hfile
    exact ⟨hfile, hsize⟩

/-- The records that `save` appends. -/
def savedRecords (hs : HardState) (ents : List Entry) : List WALRecord :=
  ents.map .entry ++ if hs.isEmptyState then [] else [.state hs]

/-- The hard state is appended unless it is empty. -/
theorem holds_saveHardState {c s d : List WALRecord} {w : WAL} (h : w.file.Holds F c s d)
    (hs : HardState) :
    (w.saveHardState F hs).file.Holds F c s
        (d ++ if hs.isEmptyState then [] else [.state hs]) ∧
      (w.saveHardState F hs).file.fileSize = w.file.fileSize := by
  unfold saveHardState
  split
  · rw [List.append_nil]
    exact ⟨h, rfl⟩
  · exact ⟨h.append (.state hs), rfl⟩

/-- `save` appends the entries and then the hard state. What it has to write synchronously goes to
`fwrite` with all that was appended before. -/
theorem holds_save {c s d : List WALRecord} {w : WAL} (h : w.file.Holds F c s d) (hs : HardState)
    (ents : List Entry) :
    (w.save F hs ents).file.Holds F c s (d ++ savedRecords hs ents) ∧ ents = [] ∨
      (w.save F hs ents).file.Holds F c (s ++ (d ++ savedRecords hs ents)) [] := by
  unfold save
  split
  · next hempty =>
    obtain ⟨hhs, rfl⟩ := hempty
    rw [savedRecords, hhs, if_pos rfl, List.map_nil, List.append_nil, List.append_nil]
    exact Or.inl ⟨h, rfl⟩
  · have hsaved := (holds_saveHardState (holds_saveEntries h ents).1 hs).1
    rw [List.append_assoc] at hsaved
    dsimp only
    split
    · split
      · exact Or.inr hsaved.sync
      · next hsync =>
        -- Entries have to be written synchronously.
        rw [isMustSync, Bool.or_assoc, Bool.or_eq_true, not_or, bne_iff_ne, Decidable.not_not,
          List.length_eq_zero_iff] at hsync
        exact Or.inl ⟨hsaved, hsync.1⟩
    · exact Or.inr hsaved.sync

/-- `save_snapshot` writes the position, and all that was appended before. -/
theorem holds_saveSnapshot {c s d : List WALRecord} {w : WAL} (h : w.file.Holds F c s d)
    (snap : WALSnapshot) :
    (w.saveSnapshot F snap).file.Holds F c (s ++ (d ++ [.snapshot snap])) [] :=
  (h.append (.snapshot snap)).sync

/-- The hard state follows what would be left, unless it is empty. -/
theorem durable_saveHardState (w : WAL) (hs : HardState) :
    (w.saveHardState F hs).file.durable =
      w.file.durable ++ encodeRecords F (if hs.isEmptyState then [] else [.state hs]) := by
  unfold saveHardState
  split
  · simp [encodeRecords]
  · simp [encodeRecords, WALFile.durable_append]

/-- The entries follow what would be left. -/
theorem durable_saveEntries (w : WAL) (ents : List Entry) :
    (ents.foldl (saveEntry F) w).file.durable =
      w.file.durable ++ encodeRecords F (ents.map .entry) := by
  induction ents generalizing w with
  | nil => simp [encodeRecords]
  | cons e ents ih =>
    have he : (w.saveEntry F e).file.durable = w.file.durable ++ WALRecord.encode F (.entry e) :=
      w.file.durable_append F (.entry e)
    rw [List.foldl_cons, ih, he, List.map_cons, List.append_assoc]
    rfl

/-- Whatever the file holds, the records of `save` follow it. -/
theorem durable_save (w : WAL) (hs : HardState) (ents : List Entry) :
    (w.save F hs ents).file.durable = w.file.durable ++ encodeRecords F (savedRecords hs ents) := by
  have hsaved : ((ents.foldl (saveEntry F) w).saveHardState F hs).file.durable =
      w.file.durable ++ encodeRecords F (savedRecords hs ents) := by
    rw [durable_saveHardState, durable_saveEntries, savedRecords, encodeRecords_append,
      List.append_assoc]
  unfold save
  split
  · next hempty =>
    obtain ⟨hhs, rfl⟩ := hempty
    simp [savedRecords, hhs, encodeRecords]
  · dsimp only
    split
    · split
      · exact (WALFile.durable_sync _).trans hsaved
      · exact hsaved
    · exact (WALFile.durable_sync _).trans hsaved

/-- Whatever the file holds, the position of the snapshot follows it. -/
theorem durable_saveSnapshot (w : WAL) (snap : WALSnapshot) :
    (w.saveSnapshot F snap).file.durable = w.file.durable ++ encodeRecords F [.snapshot snap] := by
  have hsync : (w.saveSnapshot F snap).file.durable = (w.file.append F (.snapshot snap)).durable :=
    WALFile.durable_sync _
  rw [hsync, WALFile.durable_append]
  simp [encodeRecords]

/-- A new log holds the position of the empty snapshot. -/
theorem create_eq : create F = encodeRecords F [.snapshot {}] := by
  simp [create, WALFile.close, WALFile.sync, WALFile.append, WALFile.openFile, encodeRecords]

/-- `save` passes nothing on to the operating system. -/
@[simp] theorem save_content (w : WAL) (hs : HardState) (ents : List Entry) :
    (w.save F hs ents).file.content = w.file.content := by
  have hstate : ∀ w : WAL, (w.saveHardState F hs).file.content = w.file.content := by
    intro w
    unfold saveHardState
    split <;> rfl
  have hentries : (ents.foldl (saveEntry F) w).file.content = w.file.content := by
    induction ents generalizing w with
    | nil => rfl
    | cons e ents ih => exact ih (w.saveEntry F e)
  unfold save
  split
  · rfl
  · dsimp only
    split
    · split
      · exact (hstate _).trans hentries
      · exact (hstate _).trans hentries
    · exact (hstate _).trans hentries

/-- `save_snapshot` passes nothing on to the operating system. -/
@[simp] theorem saveSnapshot_content (w : WAL) (snap : WALSnapshot) :
    (w.saveSnapshot F snap).file.content = w.file.content := rfl

/-! ## What is read back -/

/-- What `read_all` returns once the loop has ended and a snapshot was found. -/
theorem readAll_of_loop {content : Bytes} {start : WALSnapshot} {cut : Option ℕ} {st : ReadAllState}
    (h : readLoop F start (content.length + 1) content 0 {} = .ok (cut, st))
    (hsnap : st.matchsnap = true) :
    (openLog content start).readAll F = .ok (st.hs, st.ents,
      { openLog content start with
        file := cut.elim (WALFile.openFile content) (WALFile.openFile content).truncate
        enti := st.enti }) := by
  have hloop : readLoop F (openLog content start).start
      ((openLog content start).file.content.length + 1) (openLog content start).file.content 0 {} =
        .ok (cut, st) := h
  rw [readAll, hloop]
  simp only [bind, Except.bind, hsnap, not_true, if_false]
  cases cut <;> rfl

/-- Only so does `read_all` return. -/
theorem loop_of_readAll {content : Bytes} {start : WALSnapshot} {hs : HardState}
    {ents : List (Option Entry)} {w : WAL}
    (h : (openLog content start).readAll F = .ok (hs, ents, w)) :
    ∃ cut st, readLoop F start (content.length + 1) content 0 {} = .ok (cut, st) ∧
      st.matchsnap = true ∧ hs = st.hs ∧ ents = st.ents ∧
      w.file = cut.elim (WALFile.openFile content) (WALFile.openFile content).truncate := by
  obtain ⟨⟨cut, st⟩, hloop, hrest⟩ := bind_eq_ok.mp h
  have hsnap : st.matchsnap = true := by
    cases hnone : st.matchsnap with
    | true => rfl
    | false =>
      simp [hnone] at hrest
  obtain heq := h.symm.trans (readAll_of_loop hloop hsnap)
  cases heq
  exact ⟨cut, st, hloop, hsnap, rfl, rfl, rfl⟩

/-- A log of records that fit, among which there is a snapshot and none that contradicts the start, is
read: the last hard state, and the entries behind the start. Nothing is cut off. -/
theorem readAll_eq (hF : F.Lawful) {start : WALSnapshot} {rs : List WALRecord}
    (hrs : ∀ r ∈ rs, r.Fits F) (h : Matches start rs) :
    ∃ enti, (openLog (encodeRecords F rs) start).readAll F = .ok
      (lastState {} rs, replayEntries start.index [] rs,
        { openLog (encodeRecords F rs) start with enti := enti }) := by
  obtain ⟨enti, hrs'⟩ := applyRecords_eq {} h.term_eq
  refine ⟨enti, ?_⟩
  have hloop : readLoop F (openLog (encodeRecords F rs) start).start
      ((openLog (encodeRecords F rs) start).file.content.length + 1)
      (openLog (encodeRecords F rs) start).file.content 0 {} =
        (applyRecords start rs {}).map fun st => (none, st) := readLoop_encodeRecords hF start hrs
  have hsnap : (rs.any fun r => r.snapshot?.isSome) = true := by
    obtain ⟨s, hs⟩ := h.exists_snapshot
    exact List.any_eq_true.mpr ⟨.snapshot s, hs, rfl⟩
  rw [readAll, hloop, hrs', Except.map, hsnap]
  rfl

end WAL

end RaftCpp
