import RaftCpp.Library.LittleEndian
import RaftCpp.Library.Outcome
import RaftCpp.Library.Overlay
import RaftCpp.Raft.Proto

/-!
# The records of the write-ahead log

The format of the records and the loop that reads them back, from `raft-kv/wal/wal.h` and
`raft-kv/wal/wal.cpp`. A record is a header of eight bytes, with the type, the length and the checksum
of the payload, and the payload. What msgpack and the checksum do is left open.
-/

namespace RaftCpp

open Outcome

/-- What msgpack does for a type: the bytes of a value, and the value that bytes stand for, if they
stand for one; otherwise the conversion throws. -/
structure Codec (α : Type) where
  /-- `msgpack::pack`. -/
  pack : α → Bytes
  /-- `msgpack::unpack` and `convert`. -/
  unpack : Bytes → Option α

/-- Packing and unpacking are inverse. -/
def Codec.Lawful {α : Type} (c : Codec α) : Prop := ∀ a, c.unpack (c.pack a) = some a

/-- `WAL_Snapshot`: the position of a snapshot. -/
structure WALSnapshot where
  /-- The index of the last entry that the snapshot covers. -/
  index : ℕ := 0
  /-- The term of that entry. -/
  term : ℕ := 0
deriving DecidableEq, Repr

/-- What the format of the records depends on. -/
structure WALFormat where
  /-- The entries. -/
  entry : Codec Entry
  /-- The hard states. -/
  hardState : Codec HardState
  /-- The positions of snapshots. -/
  snapshot : Codec WALSnapshot
  /-- `compute_crc32`. -/
  crc32 : Bytes → UInt32

/-- What is packed can be unpacked. -/
structure WALFormat.Lawful (F : WALFormat) : Prop where
  /-- The entries. -/
  entry : F.entry.Lawful
  /-- The hard states. -/
  hardState : F.hardState.Lawful
  /-- The positions of snapshots. -/
  snapshot : F.snapshot.Lawful

/-- `wal_InvalidType`. -/
def walInvalidType : UInt8 := 0

/-- `wal_EntryType`. -/
def walEntryType : UInt8 := 1

/-- `wal_StateType`. -/
def walStateType : UInt8 := 2

/-- `wal_CrcType`. -/
def walCrcType : UInt8 := 3

/-- `wal_snapshot_Type`. -/
def walSnapshotType : UInt8 := 4

/-- `MAX_WAL_RECORD_LEN`. -/
def maxWalRecordLen : ℕ := 0x00FFFFFF

/-- `sizeof(WAL_Record)`. -/
def walHeaderLen : ℕ := 8

/-- `set_WAL_Record_len`: a longer payload is recorded as one of the largest length. -/
def walRecordLen (len : ℕ) : ℕ := min (len % 2^32) maxWalRecordLen

/-- `WAL_File::append`: the bytes of a record. -/
def recordBytes (F : WALFormat) (type : UInt8) (data : Bytes) : Bytes :=
  type :: LittleEndian.encode 3 (walRecordLen data.length) ++
    LittleEndian.encode 4 (F.crc32 data).toNat ++ data

/-- What a record can carry. -/
inductive WALRecord
  /-- An entry of the log. -/
  | entry (e : Entry)
  /-- A hard state. -/
  | state (hs : HardState)
  /-- The position of a snapshot. -/
  | snapshot (s : WALSnapshot)
deriving DecidableEq, Repr

namespace WALRecord

/-- The type of a record. -/
def type : WALRecord → UInt8
  | entry _ => walEntryType
  | state _ => walStateType
  | snapshot _ => walSnapshotType

/-- The payload of a record. -/
def payload (F : WALFormat) : WALRecord → Bytes
  | entry e => F.entry.pack e
  | state hs => F.hardState.pack hs
  | snapshot s => F.snapshot.pack s

/-- The bytes of a record. -/
def encode (F : WALFormat) (r : WALRecord) : Bytes := recordBytes F r.type (r.payload F)

/-- Whether the length of the payload can be recorded. -/
def Fits (F : WALFormat) (r : WALRecord) : Prop := (r.payload F).length ≤ maxWalRecordLen

instance (F : WALFormat) (r : WALRecord) : Decidable (r.Fits F) :=
  inferInstanceAs (Decidable (_ ≤ _))

end WALRecord

/-- The bytes of a list of records. -/
def encodeRecords (F : WALFormat) (rs : List WALRecord) : Bytes := rs.flatMap (·.encode F)

/-- The bytes of two lists of records. -/
theorem encodeRecords_append (F : WALFormat) (rs rs' : List WALRecord) :
    encodeRecords F (rs ++ rs') = encodeRecords F rs ++ encodeRecords F rs' := List.flatMap_append

/-! ## Reading records back -/

/-- What `read_all` collects. An entry is null where the vector was resized past its end. -/
structure ReadAllState where
  /-- The last hard state. -/
  hs : HardState := {}
  /-- The entries above the start. -/
  ents : List (Option Entry) := []
  /-- `enti_`: the index of the last entry. -/
  enti : ℕ := 0
  /-- Whether a snapshot was found. -/
  matchsnap : Bool := false
deriving DecidableEq, Repr

/-- The unpacking of `handle_record_wal_record`. -/
def decodeRecord (F : WALFormat) (type : UInt8) (data : Bytes) : Result WALRecord :=
  if type = walEntryType then
    match F.entry.unpack data with
    | some e => .ok (.entry e)
    | none => .error .typeError
  else if type = walStateType then
    match F.hardState.unpack data with
    | some hs => .ok (.state hs)
    | none => .error .typeError
  else if type = walSnapshotType then
    match F.snapshot.unpack data with
    | some s => .ok (.snapshot s)
    | none => .error .typeError
  else if type = walCrcType then .error .walCrcType
  else .error (.walRecordType type)

/-- `handle_record_wal_record`, past the unpacking, and the assignment to `matchsnap` that follows it in
`read_all`, for a snapshot of any position. -/
def applyRecord (start : WALSnapshot) (st : ReadAllState) : WALRecord → Result ReadAllState
  | .entry e =>
    .ok { st with
      ents := if e.index > start.index then Overlay.write st.ents (e.index - start.index - 1) e
        else st.ents
      enti := e.index }
  | .state hs => .ok { st with hs := hs }
  | .snapshot s =>
    if s.index = start.index ∧ s.term ≠ start.term then .error .walSnapshotMismatch
    else .ok { st with matchsnap := true }

/-- The loop of `read_all` over the bytes from an offset on. It ends at the end of the bytes or at a
record of the invalid type; a torn or damaged record gives the offset to truncate the file to. -/
def readLoop (F : WALFormat) (start : WALSnapshot) :
    ℕ → Bytes → ℕ → ReadAllState → Result (Option ℕ × ReadAllState)
  | 0, _, _, _ => .error .outOfFuel
  | fuel + 1, data, offset, st =>
    match data with
    | [] => .ok (none, st)
    | type :: rest =>
      if data.length < walHeaderLen then .ok (some offset, st)
      else if type = walInvalidType then .ok (none, st)
      else
        let len := LittleEndian.decode (rest.take 3)
        let crc := LittleEndian.decode ((rest.drop 3).take 4)
        let data := rest.drop 7
        if data.length < len then .ok (some offset, st)
        else if crc ≠ 0 ∧ (F.crc32 (data.take len)).toNat ≠ crc then .ok (some offset, st)
        else do
          let r ← decodeRecord F type (data.take len)
          let st ← applyRecord start st r
          readLoop F start fuel (data.drop len) (offset + walHeaderLen + len) st

/-- Whatever the bytes are, an entry that is collected stands at its position. -/
theorem readLoop_positioned (F : WALFormat) (start : WALSnapshot) (fuel : ℕ) (data : Bytes) (offset : ℕ)
    (st : ReadAllState) (h : Overlay.Positioned Entry.index start.index st.ents) :
    Ensures (readLoop F start fuel data offset st) fun p =>
      Overlay.Positioned Entry.index start.index p.2.ents := by
  induction fuel generalizing data offset st with
  | zero => exact Ensures.error
  | succ fuel ih =>
    unfold readLoop
    cases data with
    | nil => exact Ensures.ok h
    | cons type rest =>
      dsimp only
      refine Ensures.ite (fun _ => Ensures.ok h) fun _ => ?_
      refine Ensures.ite (fun _ => Ensures.ok h) fun _ => ?_
      refine Ensures.ite (fun _ => Ensures.ok h) fun _ => ?_
      refine Ensures.ite (fun _ => Ensures.ok h) fun _ => ?_
      refine Ensures.bind Ensures.any fun r _ => ?_
      refine Ensures.bind (P := fun st => Overlay.Positioned Entry.index start.index st.ents) ?_
        fun st' h' => ih _ _ _ h'
      cases r with
      | entry e =>
        apply Ensures.ok
        dsimp only
        split_ifs with hgt
        · exact h.write hgt
        · exact h
      | state hs => exact Ensures.ok h
      | snapshot s => exact Ensures.ite (fun _ => Ensures.error) fun _ => Ensures.ok h

/-- The records' effects, one after the other. -/
def applyRecords (start : WALSnapshot) (rs : List WALRecord) (st : ReadAllState) : Result ReadAllState :=
  rs.foldlM (applyRecord start) st

/-- A record that fits carries its length. -/
theorem walRecordLen_of_le {len : ℕ} (h : len ≤ maxWalRecordLen) : walRecordLen len = len := by
  unfold maxWalRecordLen at h
  unfold walRecordLen maxWalRecordLen
  rw [Nat.mod_eq_of_lt (by omega)]
  exact Nat.min_eq_left h

/-- The payload of a record is unpacked. -/
theorem WALFormat.Lawful.decodeRecord {F : WALFormat} (hF : F.Lawful) (r : WALRecord) :
    decodeRecord F r.type (r.payload F) = .ok r := by
  cases r with
  | entry e => simp [RaftCpp.decodeRecord, WALRecord.type, WALRecord.payload, hF.entry e]
  | state hs =>
    simp [RaftCpp.decodeRecord, WALRecord.type, WALRecord.payload, hF.hardState hs, walEntryType,
      walStateType]
  | snapshot s =>
    simp [RaftCpp.decodeRecord, WALRecord.type, WALRecord.payload, hF.snapshot s, walEntryType,
      walStateType, walSnapshotType]

/-- No record is of the invalid type. -/
theorem WALRecord.type_ne (r : WALRecord) : r.type ≠ walInvalidType := by
  cases r <;> simp [type, walEntryType, walStateType, walSnapshotType, walInvalidType]

/-- The length of a record. -/
theorem WALRecord.length_encode (F : WALFormat) (r : WALRecord) :
    (r.encode F).length = walHeaderLen + (r.payload F).length := by
  simp only [encode, recordBytes, walHeaderLen, List.length_append, List.length_cons,
    LittleEndian.length_encode]

/-- The loop behind a header: a payload that is cut off or damaged ends it, and any other one is taken and
the loop goes on behind it. -/
theorem readLoop_header (F : WALFormat) (start : WALSnapshot) (fuel : ℕ) {type : UInt8}
    (htype : type ≠ walInvalidType) {len crc : ℕ} (hlen : len ≤ maxWalRecordLen) (hcrc : crc < 2^32)
    (rest : Bytes) (offset : ℕ) (st : ReadAllState) :
    readLoop F start (fuel + 1)
        (type :: LittleEndian.encode 3 len ++ LittleEndian.encode 4 crc ++ rest) offset st =
      if rest.length < len then .ok (some offset, st)
      else if crc ≠ 0 ∧ (F.crc32 (rest.take len)).toNat ≠ crc then .ok (some offset, st)
      else decodeRecord F type (rest.take len) >>= fun r => applyRecord start st r >>= fun st =>
        readLoop F start fuel (rest.drop len) (offset + walHeaderLen + len) st := by
  have hbytes : type :: LittleEndian.encode 3 len ++ LittleEndian.encode 4 crc ++ rest =
      type :: (LittleEndian.encode 3 len ++ (LittleEndian.encode 4 crc ++ rest)) := by
    simp only [List.cons_append, List.append_assoc]
  have hdecode3 : LittleEndian.decode (LittleEndian.encode 3 len) = len := by
    have hfits : len ≤ 0x00FFFFFF := hlen
    exact LittleEndian.decode_encode (by omega)
  have hdecode4 : LittleEndian.decode (LittleEndian.encode 4 crc) = crc :=
    LittleEndian.decode_encode (by omega)
  -- The three fields of the header, and what stands behind it.
  have htake3 : ∀ xs : Bytes, (LittleEndian.encode 3 len ++ xs).take 3 = LittleEndian.encode 3 len :=
    fun xs => List.take_left' (LittleEndian.length_encode _ _)
  have hdrop3 : ∀ xs : Bytes, (LittleEndian.encode 3 len ++ xs).drop 3 = xs :=
    fun xs => List.drop_left' (LittleEndian.length_encode _ _)
  have htake4 : ∀ xs : Bytes, (LittleEndian.encode 4 crc ++ xs).take 4 = LittleEndian.encode 4 crc :=
    fun xs => List.take_left' (LittleEndian.length_encode _ _)
  have hdrop7 : ∀ xs : Bytes,
      (LittleEndian.encode 3 len ++ (LittleEndian.encode 4 crc ++ xs)).drop 7 = xs := fun xs => by
    rw [show 7 = 3 + 4 from rfl, ← List.drop_drop, hdrop3]
    exact List.drop_left' (LittleEndian.length_encode _ _)
  have hlong : ¬(type :: (LittleEndian.encode 3 len ++ (LittleEndian.encode 4 crc ++ rest))).length <
      walHeaderLen := by
    simp only [List.length_cons, List.length_append, LittleEndian.length_encode, walHeaderLen]
    omega
  rw [hbytes, readLoop]
  dsimp only
  rw [if_neg hlong, if_neg htype, htake3, hdrop3, htake4, hdrop7, hdecode3, hdecode4]

/-- The loop reads a record that fits, and goes on behind it. -/
theorem readLoop_record {F : WALFormat} (hF : F.Lawful) {r : WALRecord} (hr : r.Fits F)
    (start : WALSnapshot) (fuel : ℕ) (tail : Bytes) (offset : ℕ) (st : ReadAllState) :
    readLoop F start (fuel + 1) (r.encode F ++ tail) offset st =
      (applyRecord start st r >>= readLoop F start fuel tail (offset + (r.encode F).length)) := by
  have hcrc := (F.crc32 (r.payload F)).toNat_lt
  have hbytes : r.encode F ++ tail = r.type :: LittleEndian.encode 3 (r.payload F).length ++
      LittleEndian.encode 4 (F.crc32 (r.payload F)).toNat ++ (r.payload F ++ tail) := by
    rw [WALRecord.encode, recordBytes, walRecordLen_of_le hr]
    simp only [List.cons_append, List.append_assoc]
  rw [hbytes, r.length_encode, readLoop_header F start fuel r.type_ne hr hcrc, if_neg (by simp),
    List.take_left' rfl, List.drop_left' rfl, if_neg (by simp), hF.decodeRecord, Nat.add_assoc]
  rfl

/-- The loop reads records that fit, one after the other, and goes on behind them. -/
theorem readLoop_records {F : WALFormat} (hF : F.Lawful) (start : WALSnapshot) (fuel : ℕ)
    (tail : Bytes) {rs : List WALRecord} (hrs : ∀ r ∈ rs, r.Fits F) (offset : ℕ)
    (st : ReadAllState) :
    readLoop F start (fuel + rs.length) (encodeRecords F rs ++ tail) offset st =
      (applyRecords start rs st >>=
        readLoop F start fuel tail (offset + (encodeRecords F rs).length)) := by
  induction rs generalizing offset st with
  | nil => rfl
  | cons r rs ih =>
    have hbytes : encodeRecords F (r :: rs) ++ tail =
        r.encode F ++ (encodeRecords F rs ++ tail) := by
      simp only [encodeRecords, List.flatMap_cons, List.append_assoc]
    have hlen : (encodeRecords F (r :: rs)).length =
        (r.encode F).length + (encodeRecords F rs).length := by
      simp only [encodeRecords, List.flatMap_cons, List.length_append]
    rw [hbytes, hlen, List.length_cons, ← Nat.add_assoc,
      readLoop_record hF (hrs r List.mem_cons_self), applyRecords, List.foldlM_cons, bind_assoc]
    congr
    funext st
    rw [ih fun r hr => hrs r (List.mem_cons_of_mem _ hr), Nat.add_assoc]
    rfl

/-- A record has at least one byte. -/
theorem length_le_length_encodeRecords (F : WALFormat) (rs : List WALRecord) :
    rs.length ≤ (encodeRecords F rs).length := by
  induction rs with
  | nil => exact Nat.le_refl 0
  | cons r rs ih =>
    have hr := r.length_encode F
    rw [encodeRecords, List.flatMap_cons, List.length_append, List.length_cons, hr]
    unfold encodeRecords at ih
    unfold walHeaderLen
    omega

/-- Read from the start, records that fit take effect one after the other, and nothing is cut off. -/
theorem readLoop_encodeRecords {F : WALFormat} (hF : F.Lawful) (start : WALSnapshot)
    {rs : List WALRecord} (hrs : ∀ r ∈ rs, r.Fits F) :
    readLoop F start ((encodeRecords F rs).length + 1) (encodeRecords F rs) 0 {} =
      (applyRecords start rs {}).map fun st => (none, st) := by
  have hle := length_le_length_encodeRecords F rs
  have hfuel : (encodeRecords F rs).length + 1 =
      (encodeRecords F rs).length - rs.length + 1 + rs.length := by omega
  have h := readLoop_records hF start ((encodeRecords F rs).length - rs.length + 1) [] hrs 0 {}
  rw [List.append_nil] at h
  rw [hfuel, h]
  cases applyRecords start rs {} <;> rfl

/-! ## The effect of the records -/

namespace WALRecord

/-- The entry that a record carries, if it carries one. -/
def entry? : WALRecord → Option Entry
  | entry e => some e
  | _ => none

/-- The position that a record carries, if it carries one. -/
def snapshot? : WALRecord → Option WALSnapshot
  | snapshot s => some s
  | _ => none

/-- The hard state after a record. -/
def nextState (hs : HardState) : WALRecord → HardState
  | state hs => hs
  | _ => hs

end WALRecord

/-- The last hard state among the records, if there is one. -/
def lastState (hs : HardState) (rs : List WALRecord) : HardState := rs.foldl WALRecord.nextState hs

/-- What the records leave of the vector of entries, for a start at an index. -/
def replayEntries (start : ℕ) (ents : List (Option Entry)) (rs : List WALRecord) :
    List (Option Entry) :=
  Overlay.replay Entry.index start ents (rs.filterMap WALRecord.entry?)

/-- The records hold the position of a snapshot, and none of the start's index with another term. -/
structure Matches (start : WALSnapshot) (rs : List WALRecord) : Prop where
  /-- There is a snapshot. -/
  exists_snapshot : ∃ s, WALRecord.snapshot s ∈ rs
  /-- A snapshot of the start's index is of its term. -/
  term_eq : ∀ s, WALRecord.snapshot s ∈ rs → s.index = start.index → s.term = start.term

/-- Records among which no snapshot contradicts the start are read without a failure. -/
theorem applyRecords_eq {start : WALSnapshot} {rs : List WALRecord} (st : ReadAllState)
    (h : ∀ s, WALRecord.snapshot s ∈ rs → s.index = start.index → s.term = start.term) :
    ∃ enti, applyRecords start rs st = .ok
      { hs := lastState st.hs rs
        ents := replayEntries start.index st.ents rs
        enti := enti
        matchsnap := st.matchsnap || rs.any fun r => r.snapshot?.isSome } := by
  induction rs generalizing st with
  | nil => exact ⟨st.enti, by simp [applyRecords, lastState, replayEntries, Overlay.replay]; rfl⟩
  | cons r rs ih =>
    have hrest : ∀ s, WALRecord.snapshot s ∈ rs → s.index = start.index → s.term = start.term :=
      fun s hs => h s (List.mem_cons_of_mem _ hs)
    cases r with
    | entry e => exact ih _ hrest
    | state hs => exact ih _ hrest
    | snapshot s =>
      have hs : ¬(s.index = start.index ∧ s.term ≠ start.term) := fun hne =>
        hne.2 (h s List.mem_cons_self hne.1)
      obtain ⟨enti, henti⟩ := ih { st with matchsnap := true } hrest
      refine ⟨enti, ?_⟩
      rw [applyRecords, List.foldlM_cons, applyRecord, if_neg hs]
      refine henti.trans ?_
      simp only [List.any_cons, WALRecord.snapshot?, Option.isSome_some, Bool.true_or, Bool.or_true]
      rfl

end RaftCpp
