import Mathlib.Data.List.TakeWhile
import RaftCpp.Wal.Format
import RaftCpp.Wal.Log

/-!
# What survives of a write-ahead log

The log as it is written by any calls of `save` and `save_snapshot`, and what `read_all` makes of it when
it is opened again: of a file that was cut off anywhere, and of one that holds a payload that is too long
for its header.
-/

namespace RaftCpp

open Outcome

/-- A call that writes to the log. -/
inductive WALCall
  /-- `save`. -/
  | save (hs : HardState) (ents : List Entry)
  /-- `save_snapshot`. -/
  | saveSnapshot (snap : WALSnapshot)
deriving DecidableEq, Repr

namespace WALCall

/-- The call. -/
def perform (F : WALFormat) (w : WAL) : WALCall → WAL
  | save hs ents => w.save F hs ents
  | saveSnapshot snap => w.saveSnapshot F snap

/-- The records that the call appends. -/
def records : WALCall → List WALRecord
  | save hs ents => WAL.savedRecords hs ents
  | saveSnapshot snap => [.snapshot snap]

/-- The entries that the call saves. -/
def entries : WALCall → List Entry
  | save _ ents => ents
  | saveSnapshot _ => []

/-- The hard state that is in force after the call: an empty one is not saved. -/
def nextState (hs : HardState) : WALCall → HardState
  | save hs' _ => if hs'.isEmptyState then hs else hs'
  | saveSnapshot _ => hs

end WALCall

/-- What the calls leave of a new log, if all the bytes reach the file. -/
def writtenBytes (F : WALFormat) (calls : List WALCall) : Bytes :=
  (calls.foldl (WALCall.perform F) (WAL.openLog (WAL.create F) {})).file.durable

/-- The records of a new log after the calls. The first one is that of `create`. -/
def writtenRecords (calls : List WALCall) : List WALRecord :=
  .snapshot {} :: calls.flatMap WALCall.records

/-- The hard state of the last save that had a non-empty one. -/
def lastSavedState (calls : List WALCall) : HardState := calls.foldl WALCall.nextState {}

/-- The entries that were saved, in order. -/
def savedEntries (calls : List WALCall) : List Entry := calls.flatMap WALCall.entries

/-! ## The records of the calls -/

/-- The records follow what the file held before. -/
theorem durable_perform (F : WALFormat) (calls : List WALCall) (w : WAL) :
    (calls.foldl (WALCall.perform F) w).file.durable =
      w.file.durable ++ encodeRecords F (calls.flatMap WALCall.records) := by
  induction calls generalizing w with
  | nil => simp [encodeRecords]
  | cons call calls ih =>
    have hcall : (call.perform F w).file.durable = w.file.durable ++ encodeRecords F call.records := by
      cases call with
      | save hs ents => exact WAL.durable_save w hs ents
      | saveSnapshot snap => exact WAL.durable_saveSnapshot w snap
    rw [List.foldl_cons, ih, hcall, List.flatMap_cons, encodeRecords_append, List.append_assoc]

/-- The file holds the records of the calls, one after the other. -/
theorem writtenBytes_eq (F : WALFormat) (calls : List WALCall) :
    writtenBytes F calls = encodeRecords F (writtenRecords calls) := by
  have hcreate : (WAL.openLog (WAL.create F) {}).file.durable = encodeRecords F [.snapshot {}] := by
    rw [← WAL.create_eq]
    simp [WAL.openLog, WALFile.openFile, WALFile.durable]
  have hcons : writtenRecords calls = [.snapshot {}] ++ calls.flatMap WALCall.records := rfl
  rw [writtenBytes, durable_perform, hcreate, hcons, encodeRecords_append]

/-- The last hard state of the records is that of the calls. -/
theorem lastState_records (calls : List WALCall) (hs : HardState) :
    lastState hs (calls.flatMap WALCall.records) = calls.foldl WALCall.nextState hs := by
  have hentries : ∀ (ents : List Entry) (hs : HardState), lastState hs (ents.map .entry) = hs := by
    intro ents hs
    induction ents with
    | nil => rfl
    | cons e ents ih => exact ih
  induction calls generalizing hs with
  | nil => rfl
  | cons call calls ih =>
    have hcall : lastState hs call.records = call.nextState hs := by
      cases call with
      | saveSnapshot snap => rfl
      | save hs' ents =>
        unfold WALCall.records WALCall.nextState WAL.savedRecords
        have happend : lastState hs (ents.map WALRecord.entry ++
            if hs'.isEmptyState then [] else [.state hs']) =
              lastState (lastState hs (ents.map WALRecord.entry))
                (if hs'.isEmptyState then [] else [.state hs']) := List.foldl_append
        rw [happend, hentries]
        dsimp only
        split <;> rfl
    rw [List.flatMap_cons, List.foldl_cons, ← ih, ← hcall, lastState, List.foldl_append]
    rfl

/-- The entries of the records are those of the calls. -/
theorem entries_records (calls : List WALCall) :
    (calls.flatMap WALCall.records).filterMap WALRecord.entry? = savedEntries calls := by
  induction calls with
  | nil => rfl
  | cons call calls ih =>
    have hcall : call.records.filterMap WALRecord.entry? = call.entries := by
      cases call with
      | saveSnapshot snap => rfl
      | save hs ents =>
        have hents : (ents.map WALRecord.entry).filterMap WALRecord.entry? = ents := by
          rw [List.filterMap_map]
          exact List.filterMap_some
        unfold WALCall.records WALCall.entries WAL.savedRecords
        rw [List.filterMap_append, hents]
        split <;> simp [WALRecord.entry?]
    rw [savedEntries, List.flatMap_cons, List.flatMap_cons, List.filterMap_append, hcall, ih]
    rfl

/-- Records that are read one after the other from the start of the bytes, and what follows them. -/
theorem readLoop_split {F : WALFormat} (hF : F.Lawful) (start : WALSnapshot) {rs : List WALRecord}
    (hrs : ∀ r ∈ rs, r.Fits F) (tail : Bytes) :
    ∃ fuel, readLoop F start ((encodeRecords F rs ++ tail).length + 1) (encodeRecords F rs ++ tail) 0 {} =
      (applyRecords start rs {} >>=
        readLoop F start (fuel + 1) tail (encodeRecords F rs).length) := by
  have hle := length_le_length_encodeRecords F rs
  have hfuel : (encodeRecords F rs ++ tail).length + 1 =
      (encodeRecords F rs ++ tail).length - rs.length + 1 + rs.length := by
    rw [List.length_append]
    omega
  have h := readLoop_records hF start ((encodeRecords F rs ++ tail).length - rs.length + 1) tail hrs 0 {}
  rw [Nat.zero_add] at h
  exact ⟨_, (congrArg (fun n => readLoop F start n _ 0 {}) hfuel).trans h⟩

/-- The start is contradicted by no snapshot among the records: none of its index is of another term. -/
def Agrees (start : WALSnapshot) (rs : List WALRecord) : Prop :=
  ∀ s, WALRecord.snapshot s ∈ rs → s.index = start.index → s.term = start.term

/-! ## A log that was cut off -/

/-- The records that lie completely inside the first bytes. -/
def wholeRecords (F : WALFormat) : ℕ → List WALRecord → List WALRecord
  | _, [] => []
  | k, r :: rs =>
    if (r.encode F).length ≤ k then r :: wholeRecords F (k - (r.encode F).length) rs else []

/-- They are some of the records. -/
theorem wholeRecords_subset (F : WALFormat) (k : ℕ) (rs : List WALRecord) :
    wholeRecords F k rs ⊆ rs := by
  induction rs generalizing k with
  | nil => exact List.Subset.refl _
  | cons r rs ih =>
    unfold wholeRecords
    split
    · exact List.cons_subset_cons r (ih _)
    · exact List.nil_subset _

/-- The first bytes hold those records, and a part of another one at most. -/
theorem take_encodeRecords (F : WALFormat) (k : ℕ) (rs : List WALRecord) :
    (encodeRecords F rs).take k = encodeRecords F (wholeRecords F k rs) ∨
      ∃ r ∈ rs, ∃ j < (r.encode F).length,
        (encodeRecords F rs).take k = encodeRecords F (wholeRecords F k rs) ++ (r.encode F).take j := by
  induction rs generalizing k with
  | nil =>
    left
    rw [wholeRecords, encodeRecords, List.flatMap_nil, List.take_nil]
  | cons r rs ih =>
    have hcons : ∀ rs, encodeRecords F (r :: rs) = r.encode F ++ encodeRecords F rs := fun _ => rfl
    unfold wholeRecords
    by_cases hle : (r.encode F).length ≤ k
    · rw [if_pos hle, hcons, hcons, List.take_append, List.take_of_length_le hle]
      obtain heq | ⟨r', hr', j, hj, heq⟩ := ih (k - (r.encode F).length)
      · exact Or.inl (by rw [heq])
      · exact Or.inr ⟨r', List.mem_cons_of_mem _ hr', j, hj, by rw [heq, List.append_assoc]⟩
    · -- The cut goes through the first record.
      right
      refine ⟨r, List.mem_cons_self, k, by omega, ?_⟩
      rw [if_neg hle, hcons, List.take_append_of_le_length (by omega)]
      rfl

/-- Too few bytes for a header end the loop, and are cut off. -/
theorem readLoop_short (F : WALFormat) (start : WALSnapshot) (fuel : ℕ) {data : Bytes}
    (hpos : 0 < data.length) (hshort : data.length < walHeaderLen) (offset : ℕ) (st : ReadAllState) :
    readLoop F start (fuel + 1) data offset st = .ok (some offset, st) := by
  cases data with
  | nil => exact absurd hpos (Nat.lt_irrefl 0)
  | cons type rest =>
    rw [readLoop]
    dsimp only
    rw [if_pos hshort]

/-- A part of a record ends the loop: it is cut off, or there is nothing to cut off. -/
theorem readLoop_torn {F : WALFormat} {r : WALRecord} (hr : r.Fits F) (start : WALSnapshot) (fuel : ℕ)
    {j : ℕ} (hj : j < (r.encode F).length) (offset : ℕ) (st : ReadAllState) :
    readLoop F start (fuel + 1) ((r.encode F).take j) offset st =
      .ok (if j = 0 then none else some offset, st) := by
  have hbytes : r.encode F = r.type :: LittleEndian.encode 3 (r.payload F).length ++
      LittleEndian.encode 4 (F.crc32 (r.payload F)).toNat ++ r.payload F := by
    rw [WALRecord.encode, recordBytes, walRecordLen_of_le hr]
  have hlen := r.length_encode F
  by_cases hzero : j = 0
  · rw [if_pos hzero, hzero, List.take_zero, readLoop]
  rw [if_neg hzero]
  by_cases hshort : j < walHeaderLen
  · -- The header is not complete.
    have htake : ((r.encode F).take j).length = j := by
      rw [List.length_take]
      omega
    exact readLoop_short F start fuel (by omega) (by omega) offset st
  · -- The payload is not complete.
    have hheader : (r.type :: LittleEndian.encode 3 (r.payload F).length ++
        LittleEndian.encode 4 (F.crc32 (r.payload F)).toNat).length = walHeaderLen := by
      simp [LittleEndian.length_encode, walHeaderLen]
    have htake : (r.encode F).take j = r.type :: LittleEndian.encode 3 (r.payload F).length ++
        LittleEndian.encode 4 (F.crc32 (r.payload F)).toNat ++
          (r.payload F).take (j - walHeaderLen) := by
      rw [hbytes, List.take_append, hheader, List.take_of_length_le (by omega)]
    have hpart : ((r.payload F).take (j - walHeaderLen)).length < (r.payload F).length := by
      rw [List.length_take]
      omega
    rw [htake, readLoop_header F start fuel r.type_ne hr (F.crc32 (r.payload F)).toNat_lt, if_pos hpart]

namespace WAL

variable {F : WALFormat}

/-- Whole records, and a part of another one behind them: the records are read, and the file is cut off
behind the last of them. -/
theorem readAll_torn (hF : F.Lawful) {start : WALSnapshot} {rs : List WALRecord}
    (hrs : ∀ r ∈ rs, r.Fits F) {tail : Bytes}
    (htail : tail = [] ∨ ∃ r : WALRecord, r.Fits F ∧ ∃ j < (r.encode F).length, tail = (r.encode F).take j)
    {st : ReadAllState} (hst : applyRecords start rs {} = .ok st) (hsnap : st.matchsnap = true) :
    ∃ w, (openLog (encodeRecords F rs ++ tail) start).readAll F = .ok (st.hs, st.ents, w) ∧
      w.file.content = encodeRecords F rs := by
  obtain ⟨fuel, hloop⟩ := readLoop_split hF start hrs tail
  rw [hst] at hloop
  -- In all cases the loop ends behind the records, and the cut takes away the rest.
  have hend : ∃ cut, readLoop F start ((encodeRecords F rs ++ tail).length + 1)
      (encodeRecords F rs ++ tail) 0 {} = .ok (cut, st) ∧
        (cut = none ∧ tail = [] ∨ cut = some (encodeRecords F rs).length) := by
    obtain rfl | ⟨r, hr, j, hj, rfl⟩ := htail
    · exact ⟨none, hloop.trans rfl, Or.inl ⟨rfl, rfl⟩⟩
    · have htorn := readLoop_torn hr start fuel hj (encodeRecords F rs).length st
      refine ⟨_, hloop.trans htorn, ?_⟩
      by_cases hzero : j = 0
      · rw [if_pos hzero, hzero]
        exact Or.inl ⟨rfl, List.take_zero⟩
      · rw [if_neg hzero]
        exact Or.inr rfl
  obtain ⟨cut, hcut, hcase⟩ := hend
  refine ⟨_, readAll_of_loop hcut hsnap, ?_⟩
  obtain ⟨rfl, rfl⟩ | rfl := hcase
  · exact (List.append_nil _)
  · exact List.take_left

end WAL

/-- A hard state and an entry that were saved together. -/
def savedOnce : List WALCall := [.save { term := 1, vote := 2 } [{ term := 1, index := 1, data := [7] }]]

/-- The records before the first one whose payload is too long. -/
def fittingRecords (F : WALFormat) (rs : List WALRecord) : List WALRecord := rs.takeWhile (·.Fits F)

/-- The checksum tells that the payload is not all there: it is that of the whole payload, and is compared
with that of the part that the header gives the length of. -/
def WALRecord.Detected (F : WALFormat) (r : WALRecord) : Prop :=
  F.crc32 (r.payload F) ≠ 0 ∧
    F.crc32 ((r.payload F).take (walRecordLen (r.payload F).length)) ≠ F.crc32 (r.payload F)

instance (F : WALFormat) (r : WALRecord) : Decidable (r.Detected F) :=
  inferInstanceAs (Decidable (_ ∧ _))

/-- No record with a payload that is too long stands among the records, or nothing depends on it: the
checksum detects the first of them, and what would have been read from there on changes nothing. -/
structure Unharmed (F : WALFormat) (start : WALSnapshot) (rs : List WALRecord) : Prop where
  /-- The start is not contradicted by what is read. -/
  agrees : Agrees start (fittingRecords F rs)
  /-- The first record that is too long, if there is one, is detected. -/
  detected : ∀ r, rs[(fittingRecords F rs).length]? = some r → r.Detected F
  /-- The last hard state is not lost. -/
  state : lastState {} (fittingRecords F rs) = lastState {} rs
  /-- Neither are the entries. -/
  entries : replayEntries start.index [] (fittingRecords F rs) = replayEntries start.index [] rs

/-- The reopened log gives back what the calls saved: the last hard state, and the entries above the start,
one laid over the other. -/
def RoundTrips (F : WALFormat) (calls : List WALCall) (start : WALSnapshot) : Prop :=
  ∃ w, (WAL.openLog (writtenBytes F calls) start).readAll F =
    .ok (lastSavedState calls, Overlay.replay Entry.index start.index [] (savedEntries calls), w)

/-- Records among which a snapshot contradicts the start are not read. -/
theorem applyRecords_eq_ok_iff {start : WALSnapshot} {rs : List WALRecord} (st : ReadAllState) :
    (∃ st', applyRecords start rs st = .ok st') ↔ Agrees start rs := by
  constructor
  · intro h
    induction rs generalizing st with
    | nil => exact fun s hs => absurd hs List.not_mem_nil
    | cons r rs ih =>
      obtain ⟨st', hst'⟩ := h
      rw [applyRecords, List.foldlM_cons] at hst'
      obtain ⟨st₁, hr, hrest⟩ := bind_eq_ok.mp hst'
      have htail : Agrees start rs := ih st₁ ⟨st', hrest⟩
      intro s hs hindex
      obtain rfl | hs := List.mem_cons.mp hs
      · -- A snapshot that contradicts the start would have stopped the loop.
        by_contra hterm
        rw [applyRecord, if_pos ⟨hindex, hterm⟩] at hr
        cases hr
      · exact htail s hs hindex
  · intro h
    obtain ⟨enti, hst⟩ := applyRecords_eq st h
    exact ⟨_, hst⟩

/-- A part of a payload is not unpacked. -/
theorem WALFormat.Strict.decodeRecord {F : WALFormat} (hF : F.Strict) {r : WALRecord} {k : ℕ}
    (hk : k < (r.payload F).length) :
    RaftCpp.decodeRecord F r.type ((r.payload F).take k) = .error .typeError := by
  cases r with
  | entry e =>
    have hnone : F.entry.unpack ((F.entry.pack e).take k) = none := hF.entry e k hk
    simp [RaftCpp.decodeRecord, WALRecord.type, WALRecord.payload, hnone]
  | state hs =>
    have hnone : F.hardState.unpack ((F.hardState.pack hs).take k) = none := hF.hardState hs k hk
    simp [RaftCpp.decodeRecord, WALRecord.type, WALRecord.payload, hnone, walEntryType, walStateType]
  | snapshot s =>
    have hnone : F.snapshot.unpack ((F.snapshot.pack s).take k) = none := hF.snapshot s k hk
    simp [RaftCpp.decodeRecord, WALRecord.type, WALRecord.payload, hnone, walEntryType, walStateType,
      walSnapshotType]

/-- A payload that is too long ends the loop: it is cut off if the checksum detects it, and msgpack throws
otherwise. -/
theorem readLoop_oversized {F : WALFormat} (hF : F.Strict) {r : WALRecord} (hr : ¬r.Fits F)
    (start : WALSnapshot) (fuel : ℕ) (tail : Bytes) (offset : ℕ) (st : ReadAllState) :
    readLoop F start (fuel + 1) (r.encode F ++ tail) offset st =
      if r.Detected F then .ok (some offset, st) else .error .typeError := by
  have hmax : walRecordLen (r.payload F).length ≤ maxWalRecordLen := Nat.min_le_right _ _
  have hpart : walRecordLen (r.payload F).length < (r.payload F).length := by
    unfold WALRecord.Fits at hr
    omega
  have hbytes : r.encode F ++ tail =
      r.type :: LittleEndian.encode 3 (walRecordLen (r.payload F).length) ++
        LittleEndian.encode 4 (F.crc32 (r.payload F)).toNat ++ (r.payload F ++ tail) := by
    rw [WALRecord.encode, recordBytes]
    simp only [List.cons_append, List.append_assoc]
  have hlong : ¬(r.payload F ++ tail).length < walRecordLen (r.payload F).length := by
    rw [List.length_append]
    omega
  have hzero : (F.crc32 (r.payload F)).toNat ≠ 0 ↔ F.crc32 (r.payload F) ≠ 0 := by
    rw [ne_eq, ne_eq, ← UInt32.toNat_inj]
    rfl
  rw [hbytes, readLoop_header F start fuel r.type_ne hmax (F.crc32 (r.payload F)).toNat_lt, if_neg hlong,
    List.take_append_of_le_length (by omega), hF.decodeRecord hpart]
  simp only [hzero, ne_eq, UInt32.toNat_inj, WALRecord.Detected]
  rfl

namespace WAL

variable {F : WALFormat}

/-- What a log that starts with a snapshot gives back: what the records before the first one that is too
long leave, if they are not contradicted by the start, and if the checksum detects that one. -/
theorem readAll_eq_ok_iff (hF : F.Lawful) (hS : F.Strict) {start : WALSnapshot} {rs : List WALRecord}
    (hsnap : ∃ s, .snapshot s ∈ fittingRecords F rs) {hs : HardState} {ents : List (Option Entry)} :
    (∃ w, (openLog (encodeRecords F rs) start).readAll F = .ok (hs, ents, w)) ↔
      Agrees start (fittingRecords F rs) ∧
        (∀ r, rs[(fittingRecords F rs).length]? = some r → r.Detected F) ∧
        hs = lastState {} (fittingRecords F rs) ∧
        ents = replayEntries start.index [] (fittingRecords F rs) := by
  have hsplit : rs = fittingRecords F rs ++ rs.dropWhile (·.Fits F) := List.takeWhile_append_dropWhile.symm
  have hfits : ∀ r ∈ fittingRecords F rs, r.Fits F := fun r hr => by
    simpa using List.mem_takeWhile_imp hr
  have hnext : rs[(fittingRecords F rs).length]? = (rs.dropWhile (·.Fits F)).head? := by
    have hget : rs[(fittingRecords F rs).length]? =
        (fittingRecords F rs ++ rs.dropWhile (·.Fits F))[(fittingRecords F rs).length]? :=
      congrArg (fun rs' : List WALRecord => rs'[(fittingRecords F rs).length]?) hsplit
    rw [hget, List.getElem?_append_right (Nat.le_refl _), Nat.sub_self, List.head?_eq_getElem?]
  have hany : ((fittingRecords F rs).any fun r => r.snapshot?.isSome) = true := by
    obtain ⟨s, hs⟩ := hsnap
    exact List.any_eq_true.mpr ⟨_, hs, rfl⟩
  have hbytes : encodeRecords F rs = encodeRecords F (fittingRecords F rs) ++
      encodeRecords F (rs.dropWhile (·.Fits F)) :=
    (congrArg (encodeRecords F) hsplit).trans (encodeRecords_append F _ _)
  obtain ⟨fuel, hloop⟩ := readLoop_split hF start hfits (encodeRecords F (rs.dropWhile (·.Fits F)))
  rw [← hbytes] at hloop
  -- The loop ends at the end of the bytes, or at the record that is too long.
  have hend : ∀ st, (∃ cut, readLoop F start (fuel + 1) (encodeRecords F (rs.dropWhile (·.Fits F)))
      (encodeRecords F (fittingRecords F rs)).length st = .ok (cut, st)) ∧
        (∀ r, rs[(fittingRecords F rs).length]? = some r → r.Detected F) ∨
      (∃ e, readLoop F start (fuel + 1) (encodeRecords F (rs.dropWhile (·.Fits F)))
        (encodeRecords F (fittingRecords F rs)).length st = .error e) ∧
        ¬∀ r, rs[(fittingRecords F rs).length]? = some r → r.Detected F := by
    intro st
    have hhead := List.head?_dropWhile_not (fun r : WALRecord => decide (r.Fits F)) rs
    rw [hnext]
    cases hlost : rs.dropWhile (·.Fits F) with
    | nil => exact Or.inl ⟨⟨none, rfl⟩, by simp⟩
    | cons r rest =>
      rw [hlost] at hhead
      have hlong : ¬r.Fits F := by simpa using hhead
      have hcons : encodeRecords F (r :: rest) = r.encode F ++ encodeRecords F rest := rfl
      rw [hcons, readLoop_oversized hS hlong]
      by_cases hdetected : r.Detected F
      · rw [if_pos hdetected]
        exact Or.inl ⟨⟨_, rfl⟩, by simpa using hdetected⟩
      · rw [if_neg hdetected]
        exact Or.inr ⟨⟨_, rfl⟩, by simpa using hdetected⟩
  constructor
  · rintro ⟨w, hread⟩
    obtain ⟨cut, st, hst, -, rfl, rfl, -⟩ := loop_of_readAll hread
    rw [hloop] at hst
    obtain ⟨st', hdone, hst'⟩ := bind_eq_ok.mp hst
    have hagrees := (applyRecords_eq_ok_iff {}).mp ⟨st', hdone⟩
    obtain ⟨enti, henti⟩ := applyRecords_eq {} hagrees
    obtain ⟨⟨cut', hcut'⟩, hdetected⟩ | ⟨⟨e, he⟩, -⟩ := hend st'
    · rw [hcut'] at hst'
      rw [henti] at hdone
      cases hst'
      cases hdone
      exact ⟨hagrees, hdetected, rfl, rfl⟩
    · rw [he] at hst'
      cases hst'
  · rintro ⟨hagrees, hdetected, rfl, rfl⟩
    obtain ⟨enti, henti⟩ := applyRecords_eq {} hagrees
    rw [henti, hany] at hloop
    obtain ⟨⟨cut, hcut⟩, -⟩ | ⟨-, hlost⟩ := hend
      { hs := lastState {} (fittingRecords F rs)
        ents := replayEntries start.index [] (fittingRecords F rs)
        enti := enti
        matchsnap := true }
    · exact ⟨_, readAll_of_loop (hloop.trans hcut) rfl⟩
    · exact absurd hdetected hlost

end WAL

/-- The reopened log gives back what was saved exactly if no payload was too long, or if the checksum
detects the first one that was and nothing depends on the records from there on; and if no snapshot that
is read contradicts the one it is opened at. -/
theorem round_trips_iff {F : WALFormat} (hF : F.Lawful) (hS : F.Strict)
    (hcreate : (WALRecord.snapshot {}).Fits F) (calls : List WALCall) (start : WALSnapshot) :
    RoundTrips F calls start ↔ Unharmed F start (writtenRecords calls) := by
  have hfirst : WALRecord.snapshot {} ∈ fittingRecords F (writtenRecords calls) := by
    rw [fittingRecords, writtenRecords, List.takeWhile_cons, if_pos (by simpa using hcreate)]
    exact List.mem_cons_self
  have hstate : lastState {} (writtenRecords calls) = lastSavedState calls := lastState_records calls {}
  have hentries : replayEntries start.index [] (writtenRecords calls) =
      Overlay.replay Entry.index start.index [] (savedEntries calls) :=
    congrArg (Overlay.replay Entry.index start.index []) (entries_records calls)
  rw [RoundTrips, writtenBytes_eq, WAL.readAll_eq_ok_iff hF hS ⟨_, hfirst⟩, ← hstate, ← hentries]
  constructor
  · rintro ⟨hagrees, hdetected, hhs, hents⟩
    exact ⟨hagrees, hdetected, hhs.symm, hents.symm⟩
  · rintro ⟨hagrees, hdetected, hhs, hents⟩
    exact ⟨hagrees, hdetected, hhs.symm, hents.symm⟩

/-- What was saved once is read back. -/
theorem round_trips_savedOnce : RoundTrips msgpackFormat savedOnce {} :=
  have hall : fittingRecords msgpackFormat (writtenRecords savedOnce) = writtenRecords savedOnce := by
    decide
  (round_trips_iff msgpackFormat_lawful msgpackFormat_strict (by decide) savedOnce {}).mpr
    { agrees := by
        rw [hall]
        simp [Agrees, writtenRecords, savedOnce, WALCall.records, WAL.savedRecords, HardState.isEmptyState]
      detected := by simp [hall]
      state := by rw [hall]
      entries := by rw [hall] }

/-- The data of an entry are part of its payload. -/
theorem length_data_lt (e : Entry) : e.data.length < (msgpackFormat.entry.pack e).length := by
  have hbin : e.data.length < (Msgpack.bin.pack e.data).length := by
    simp only [Msgpack.bin]
    split_ifs <;> simp only [List.length_cons, List.length_append] <;> omega
  have hpack : msgpackFormat.entry.pack e = Msgpack.arrayTag 4 ::
      (Msgpack.uint.pack e.type.toCode ++ (Msgpack.uint.pack e.term ++
        (Msgpack.uint.pack e.index ++ Msgpack.bin.pack e.data))) := rfl
  rw [hpack]
  simp only [List.length_cons, List.length_append]
  omega

/-- An entry with as many bytes of data as the header can give for the whole payload. -/
def longEntry : Entry := { term := 1, index := 1, data := List.replicate maxWalRecordLen 0 }

/-- A new log in which this entry was saved does not give it back. -/
theorem long_entry_lost : ¬∀ (calls : List WALCall) (start : WALSnapshot),
    WALRecord.snapshot start ∈ writtenRecords calls → RoundTrips msgpackFormat calls start := by
  intro hall
  have htrip := hall [.save {} [longEntry]] {} List.mem_cons_self
  have hlong : ¬(WALRecord.entry longEntry).Fits msgpackFormat := by
    have hlt := length_data_lt longEntry
    rw [longEntry, List.length_replicate, ← longEntry] at hlt
    exact Nat.not_le_of_gt hlt
  have hrecords : writtenRecords [.save {} [longEntry]] = [.snapshot {}, .entry longEntry] := rfl
  have hfitting : fittingRecords msgpackFormat [.snapshot {}, .entry longEntry] = [.snapshot {}] := by
    have hzero : (WALRecord.snapshot {}).Fits msgpackFormat := by decide
    simp [fittingRecords, hzero, hlong]
  rw [RoundTrips, writtenBytes_eq, hrecords, WAL.readAll_eq_ok_iff msgpackFormat_lawful
    msgpackFormat_strict ⟨{}, by rw [hfitting]; exact List.mem_cons_self⟩, hfitting] at htrip
  -- Nothing is left of the entry.
  obtain ⟨-, -, -, hentries⟩ := htrip
  have hempty : [some longEntry] = [] := hentries
  cases hempty

end RaftCpp
