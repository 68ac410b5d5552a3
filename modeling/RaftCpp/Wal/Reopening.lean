import RaftCpp.Wal.Recovery

/-!
# Writing to a log that was read

`read_all` promises to leave the log ready for appending new records. What it makes of a file is described
for any bytes: whole records that are not damaged, and behind them either nothing, or something that is cut
off, or a header of the invalid type, which ends the loop and stays where it is.
-/

namespace RaftCpp

open Outcome

/-- A whole record as it stands in a file. -/
structure Frame where
  /-- The type. -/
  type : UInt8
  /-- The checksum. -/
  crc : UInt32
  /-- The payload. -/
  payload : Bytes

namespace Frame

/-- The bytes of a record. -/
def bytes (f : Frame) : Bytes :=
  f.type :: LittleEndian.encode 3 f.payload.length ++ LittleEndian.encode 4 f.crc.toNat ++ f.payload

/-- The record is one that is read: of a valid type, and not damaged. A checksum of zero says nothing. -/
structure Whole (F : WALFormat) (f : Frame) : Prop where
  /-- The type is not the invalid one. -/
  type : f.type ≠ walInvalidType
  /-- The header can give the length. -/
  length : f.payload.length ≤ maxWalRecordLen
  /-- The checksum is right, if there is one. -/
  crc : f.crc ≠ 0 → F.crc32 f.payload = f.crc

/-- The effect of a record. -/
def apply (F : WALFormat) (start : WALSnapshot) (st : ReadAllState) (f : Frame) : Result ReadAllState :=
  decodeRecord F f.type f.payload >>= applyRecord start st

end Frame

/-- Whole records, and behind them a header of the invalid type: how a file ends that was filled up with
zeros. -/
def EndsInvalid (F : WALFormat) (content : Bytes) : Prop :=
  ∃ fs : List Frame, (∀ f ∈ fs, f.Whole F) ∧ ∃ rest : Bytes, walHeaderLen ≤ rest.length + 1 ∧
    content = fs.flatMap Frame.bytes ++ walInvalidType :: rest

/-! ## What the loop makes of any bytes -/

/-- The loop takes a whole record, and goes on behind it. -/
theorem readLoop_frame {F : WALFormat} {f : Frame} (hf : f.Whole F) (start : WALSnapshot) (fuel : ℕ)
    (tail : Bytes) (offset : ℕ) (st : ReadAllState) :
    readLoop F start (fuel + 1) (f.bytes ++ tail) offset st =
      (f.apply F start st >>= readLoop F start fuel tail (offset + f.bytes.length)) := by
  have hbytes : f.bytes ++ tail = f.type :: LittleEndian.encode 3 f.payload.length ++
      LittleEndian.encode 4 f.crc.toNat ++ (f.payload ++ tail) := by
    simp only [Frame.bytes, List.cons_append, List.append_assoc]
  have hlen : offset + walHeaderLen + f.payload.length = offset + f.bytes.length := by
    simp only [Frame.bytes, walHeaderLen, List.length_append, List.length_cons,
      LittleEndian.length_encode]
    omega
  have hcrc : ¬(f.crc.toNat ≠ 0 ∧ (F.crc32 f.payload).toNat ≠ f.crc.toNat) := by
    rintro ⟨hne, hdiff⟩
    have hzero : f.crc ≠ 0 := fun h => hne (by rw [h]; rfl)
    exact hdiff (by rw [hf.crc hzero])
  rw [hbytes, readLoop_header F start fuel hf.type hf.length f.crc.toNat_lt, if_neg (by simp),
    List.take_left' rfl, List.drop_left' rfl, if_neg hcrc, hlen, Frame.apply, bind_assoc]

/-- The loop takes whole records, one after the other, and goes on behind them. -/
theorem readLoop_frames {F : WALFormat} (start : WALSnapshot) (fuel : ℕ) (tail : Bytes) {fs : List Frame}
    (hfs : ∀ f ∈ fs, f.Whole F) (offset : ℕ) (st : ReadAllState) :
    readLoop F start (fuel + fs.length) (fs.flatMap Frame.bytes ++ tail) offset st =
      (fs.foldlM (Frame.apply F start) st >>=
        readLoop F start fuel tail (offset + (fs.flatMap Frame.bytes).length)) := by
  induction fs generalizing offset st with
  | nil => rfl
  | cons f fs ih =>
    have hfs' : ∀ f ∈ fs, f.Whole F := fun f hf => hfs f (List.mem_cons_of_mem _ hf)
    rw [List.flatMap_cons, List.append_assoc, List.length_cons, ← Nat.add_assoc,
      readLoop_frame (hfs f List.mem_cons_self), List.foldlM_cons, bind_assoc]
    congr
    funext st'
    rw [ih hfs', List.length_append, Nat.add_assoc]

/-- How the loop can end: at the end of the bytes, at something that is to be cut off, or at a header of
the invalid type. -/
inductive LoopEnd (offset : ℕ) : Option ℕ → Bytes → Prop
  /-- All the bytes were read. -/
  | all : LoopEnd offset none []
  /-- The rest is torn or damaged. -/
  | torn (tail : Bytes) : LoopEnd offset (some offset) tail
  /-- The rest starts with a header of the invalid type. -/
  | invalid (rest : Bytes) (h : walHeaderLen ≤ rest.length + 1) :
    LoopEnd offset none (walInvalidType :: rest)

/-- The first bytes behind a header that is complete are a whole record, unless the record is cut off or
damaged. -/
theorem frame_of_bytes {F : WALFormat} {type : UInt8} {rest : Bytes}
    (hlong : ¬(type :: rest).length < walHeaderLen) (htype : type ≠ walInvalidType)
    (hlen : ¬(rest.drop 7).length < LittleEndian.decode (rest.take 3))
    (hcrc : ¬(LittleEndian.decode ((rest.drop 3).take 4) ≠ 0 ∧
      (F.crc32 ((rest.drop 7).take (LittleEndian.decode (rest.take 3)))).toNat ≠
        LittleEndian.decode ((rest.drop 3).take 4))) :
    ∃ f : Frame, f.Whole F ∧ f.type = type ∧
      f.payload = (rest.drop 7).take (LittleEndian.decode (rest.take 3)) ∧
      type :: rest = f.bytes ++ (rest.drop 7).drop (LittleEndian.decode (rest.take 3)) := by
  have hrest : 7 ≤ rest.length := by
    rw [List.length_cons] at hlong
    unfold walHeaderLen at hlong
    omega
  have h3 : (rest.take 3).length = 3 := by
    rw [List.length_take]
    omega
  have h4 : ((rest.drop 3).take 4).length = 4 := by
    rw [List.length_take, List.length_drop]
    omega
  have hlt3 := LittleEndian.decode_lt (rest.take 3)
  have hlt4 := LittleEndian.decode_lt ((rest.drop 3).take 4)
  rw [h3] at hlt3
  rw [h4] at hlt4
  have hpayload : ((rest.drop 7).take (LittleEndian.decode (rest.take 3))).length =
      LittleEndian.decode (rest.take 3) := by
    rw [List.length_take]
    omega
  have hword : (UInt32.ofNat (LittleEndian.decode ((rest.drop 3).take 4))).toNat =
      LittleEndian.decode ((rest.drop 3).take 4) := UInt32.toNat_ofNat_of_lt' (by
    change _ < 2 ^ 32
    omega)
  have hencode3 := LittleEndian.encode_decode (rest.take 3)
  have hencode4 := LittleEndian.encode_decode ((rest.drop 3).take 4)
  rw [h3] at hencode3
  rw [h4] at hencode4
  refine ⟨{ type := type
            crc := UInt32.ofNat (LittleEndian.decode ((rest.drop 3).take 4))
            payload := (rest.drop 7).take (LittleEndian.decode (rest.take 3)) }, ?_, rfl, rfl, ?_⟩
  · constructor
    · exact htype
    · show ((rest.drop 7).take (LittleEndian.decode (rest.take 3))).length ≤ maxWalRecordLen
      rw [hpayload]
      unfold maxWalRecordLen
      omega
    · intro hne
      have hnat : LittleEndian.decode ((rest.drop 3).take 4) ≠ 0 := by
        intro hzero
        apply hne
        show UInt32.ofNat (LittleEndian.decode ((rest.drop 3).take 4)) = 0
        rw [hzero]
        rfl
      have heq := not_and_not_right.mp hcrc hnat
      show F.crc32 _ = UInt32.ofNat _
      rw [← UInt32.toNat_inj, hword, heq]
  · -- The header and the payload are put together again.
    show type :: rest = type :: LittleEndian.encode 3 _ ++ LittleEndian.encode 4 _ ++ _ ++ _
    rw [hpayload, hword, hencode3, hencode4, List.append_assoc, List.take_append_drop,
      List.cons_append, List.cons_append, List.append_assoc]
    congr 1
    calc rest = rest.take 3 ++ rest.drop 3 := (List.take_append_drop 3 rest).symm
      _ = rest.take 3 ++ ((rest.drop 3).take 4 ++ (rest.drop 3).drop 4) := by
        rw [List.take_append_drop 4 (rest.drop 3)]
      _ = rest.take 3 ++ ((rest.drop 3).take 4 ++ rest.drop 7) := by rw [List.drop_drop]

/-- Where the loop returns, it has taken whole records, and has ended behind them. What is there ends the loop
whenever it is read. -/
theorem loop_frames {F : WALFormat} {start : WALSnapshot} {fuel : ℕ} {data : Bytes} {offset : ℕ}
    {st st' : ReadAllState} {cut : Option ℕ}
    (h : readLoop F start fuel data offset st = .ok (cut, st')) :
    ∃ (fs : List Frame) (tail : Bytes), (∀ f ∈ fs, f.Whole F) ∧ data = fs.flatMap Frame.bytes ++ tail ∧
      fs.foldlM (Frame.apply F start) st = .ok st' ∧
      LoopEnd (offset + (fs.flatMap Frame.bytes).length) cut tail ∧
      ∀ start fuel offset st, readLoop F start (fuel + 1) tail offset st = .ok (cut.map fun _ => offset, st) := by
  induction fuel generalizing data offset st with
  | zero => cases h
  | succ fuel ih =>
    have hnil : ∀ f ∈ ([] : List Frame), f.Whole F := fun f hf => absurd hf List.not_mem_nil
    cases data with
    | nil =>
      cases h
      exact ⟨[], [], hnil, rfl, rfl, LoopEnd.all, fun _ _ _ _ => rfl⟩
    | cons type rest =>
      unfold readLoop at h
      dsimp only at h
      split_ifs at h with hshort htype hlen hcrc
      · cases h
        refine ⟨[], _, hnil, rfl, rfl, LoopEnd.torn _, fun start fuel offset st => ?_⟩
        rw [readLoop, if_pos hshort]
        rfl
      · cases h
        have hrest : walHeaderLen ≤ rest.length + 1 := Nat.le_of_not_lt hshort
        refine ⟨[], _, hnil, rfl, rfl, htype ▸ LoopEnd.invalid rest hrest, fun start fuel offset st => ?_⟩
        rw [readLoop, if_neg hshort, if_pos htype]
        rfl
      · cases h
        refine ⟨[], _, hnil, rfl, rfl, LoopEnd.torn _, fun start fuel offset st => ?_⟩
        rw [readLoop, if_neg hshort, if_neg htype]
        exact if_pos hlen
      · cases h
        refine ⟨[], _, hnil, rfl, rfl, LoopEnd.torn _, fun start fuel offset st => ?_⟩
        rw [readLoop, if_neg hshort, if_neg htype]
        dsimp only
        rw [if_neg hlen, if_pos hcrc]
        rfl
      · obtain ⟨r, hr, hrest⟩ := bind_eq_ok.mp h
        obtain ⟨st₁, hst₁, hloop⟩ := bind_eq_ok.mp hrest
        obtain ⟨f, hf, rfl, hpayload, hbytes⟩ := frame_of_bytes hshort htype hlen hcrc
        obtain ⟨fs, tail, hfs, hdata, hfold, hend, hstops⟩ := ih hloop
        have happly : f.apply F start st = .ok st₁ := by
          rw [Frame.apply, hpayload, hr]
          exact hst₁
        have hoffset : offset + walHeaderLen + LittleEndian.decode (rest.take 3) =
            offset + f.bytes.length := by
          rw [Frame.bytes, hpayload]
          simp only [List.length_append, List.length_cons, LittleEndian.length_encode, List.length_take,
            walHeaderLen]
          omega
        refine ⟨f :: fs, tail, ?_, ?_, ?_, ?_, hstops⟩
        · intro f' hf'
          obtain rfl | hf' := List.mem_cons.mp hf'
          · exact hf
          · exact hfs f' hf'
        · rw [hbytes, hdata, List.flatMap_cons, List.append_assoc]
        · rw [List.foldlM_cons, happly]
          exact hfold
        · rw [List.flatMap_cons, List.length_append, ← Nat.add_assoc, ← hoffset]
          exact hend

/-! ## Saving behind what was read -/

/-- Hard states and entries that are saved together, one call after the other. -/
abbrev Saves := List (HardState × List Entry)

/-- The calls. -/
def Saves.calls (saves : Saves) : List WALCall := saves.map fun s => .save s.1 s.2

/-- The bytes of a log after further saves, written out by `cut` and closed. -/
def reopenedBytes (F : WALFormat) (w : WAL) (saves : Saves) : Bytes :=
  (saves.calls.foldl (WALCall.perform F) w).cut.file.close

/-- The second time the log is read, the new hard states and entries are found behind what was found the
first time. -/
def KeepsSaved (F : WALFormat) (start : WALSnapshot) (hs : HardState) (ents : List (Option Entry))
    (w : WAL) (saves : Saves) : Prop :=
  ∃ w', (WAL.openLog (reopenedBytes F w saves) start).readAll F =
    .ok (saves.calls.foldl WALCall.nextState hs,
      Overlay.replay Entry.index start.index ents (savedEntries saves.calls), w')

/-- What is saved adds nothing to what was read: the last hard state is the same, and so are the entries. -/
structure Saves.Idle (start : WALSnapshot) (hs : HardState) (ents : List (Option Entry)) (saves : Saves) :
    Prop where
  /-- The hard state. -/
  state : saves.calls.foldl WALCall.nextState hs = hs
  /-- The entries. -/
  entries : Overlay.replay Entry.index start.index ents (savedEntries saves.calls) = ents

/-- The records follow what `read_all` has left of the file. -/
theorem reopenedBytes_eq (F : WALFormat) (w : WAL) (saves : Saves) :
    reopenedBytes F w saves =
      w.file.durable ++ encodeRecords F (saves.calls.flatMap WALCall.records) := by
  have hclose : ∀ f : WALFile, f.sync.close = f.durable := fun f => by
    simp only [WALFile.close, WALFile.sync, WALFile.durable, List.append_assoc]
  rw [reopenedBytes, WAL.cut, hclose, durable_perform]

/-- No position of a snapshot is among them. -/
theorem Saves.agrees (start : WALSnapshot) (saves : Saves) :
    Agrees start (saves.calls.flatMap WALCall.records) := by
  intro s hs
  obtain ⟨call, hcall, hrecord⟩ := List.mem_flatMap.mp hs
  obtain ⟨⟨state, ents⟩, -, rfl⟩ := List.mem_map.mp hcall
  simp only [WALCall.records, WAL.savedRecords, List.mem_append, List.mem_map, reduceCtorEq, and_false,
    exists_false, false_or] at hrecord
  split at hrecord
  · cases hrecord
  · cases List.mem_singleton.mp hrecord

/-- A frame has at least one byte. -/
theorem length_le_length_frames (fs : List Frame) : fs.length ≤ (fs.flatMap Frame.bytes).length := by
  induction fs with
  | nil => exact Nat.le_refl 0
  | cons f fs ih =>
    rw [List.flatMap_cons, List.length_append, List.length_cons]
    simp only [Frame.bytes, List.length_append, List.length_cons]
    omega

/-- Whole records are read from the start of a file, and the loop goes on behind them. -/
theorem readLoop_frames_split {F : WALFormat} (start : WALSnapshot) {fs : List Frame}
    (hfs : ∀ f ∈ fs, f.Whole F) (tail : Bytes) :
    ∃ fuel, tail.length ≤ fuel ∧
      readLoop F start ((fs.flatMap Frame.bytes ++ tail).length + 1) (fs.flatMap Frame.bytes ++ tail) 0 {} =
        (fs.foldlM (Frame.apply F start) {} >>=
          readLoop F start (fuel + 1) tail (fs.flatMap Frame.bytes).length) := by
  have hle := length_le_length_frames fs
  have hfuel : (fs.flatMap Frame.bytes ++ tail).length + 1 =
      (fs.flatMap Frame.bytes ++ tail).length - fs.length + 1 + fs.length := by
    rw [List.length_append]
    omega
  have h := readLoop_frames start ((fs.flatMap Frame.bytes ++ tail).length - fs.length + 1) tail hfs 0 {}
  rw [Nat.zero_add] at h
  refine ⟨_, ?_, (congrArg (fun n => readLoop F start n _ 0 {}) hfuel).trans h⟩
  rw [List.length_append]
  omega

/-- What `read_all` has left of a log reads as the log itself, behind any snapshot. -/
theorem WAL.readAll_left {F : WALFormat} {content : Bytes} {start : WALSnapshot} {hs : HardState}
    {ents : List (Option Entry)} {w : WAL} (h : (WAL.openLog content start).readAll F = .ok (hs, ents, w))
    (start' : WALSnapshot) :
    ((WAL.openLog w.file.content start').readAll F).map (fun p => (p.1, p.2.1)) =
      ((WAL.openLog content start').readAll F).map fun p => (p.1, p.2.1) := by
  obtain ⟨cut, st, hloop, -, -, -, hw⟩ := WAL.loop_of_readAll h
  obtain ⟨fs, tail, hfs, rfl, -, hend, hstops⟩ := loop_frames hloop
  rw [Nat.zero_add] at hend
  cases hend with
  | all => rw [hw, Option.elim_none, WALFile.openFile]
  | invalid rest hrest => rw [hw, Option.elim_none, WALFile.openFile]
  | torn =>
    -- The loop ends at the torn record, as it does at the end of what is left.
    have hleft : w.file.content = fs.flatMap Frame.bytes ++ [] := by
      rw [hw, List.append_nil]
      exact List.take_left
    obtain ⟨fuel, -, hsplit⟩ := readLoop_frames_split start' hfs tail
    obtain ⟨fuel', -, hsplit'⟩ := readLoop_frames_split start' hfs []
    rw [hleft]
    unfold WAL.readAll WAL.openLog WALFile.openFile
    dsimp only
    rw [hsplit, hsplit']
    cases fs.foldlM (Frame.apply F start') {} with
    | error e => rfl
    | ok st' =>
      have hnil : readLoop F start' (fuel' + 1) [] (fs.flatMap Frame.bytes).length st' = .ok (none, st') := rfl
      simp only [bind, Except.bind, hstops, hnil]
      split_ifs
      · rfl
      · rfl

/-- Whole records, and behind them records that were appended: the loop reads them all. -/
theorem readLoop_appended {F : WALFormat} (hF : F.Lawful) {start : WALSnapshot} {fs : List Frame}
    (hfs : ∀ f ∈ fs, f.Whole F) {st : ReadAllState} (hst : fs.foldlM (Frame.apply F start) {} = .ok st)
    {rs : List WALRecord} (hrs : ∀ r ∈ rs, r.Fits F) (hagrees : Agrees start rs) :
    ∃ enti, readLoop F start ((fs.flatMap Frame.bytes ++ encodeRecords F rs).length + 1)
      (fs.flatMap Frame.bytes ++ encodeRecords F rs) 0 {} = .ok (none,
        { hs := lastState st.hs rs
          ents := replayEntries start.index st.ents rs
          enti := enti
          matchsnap := st.matchsnap || rs.any fun r => r.snapshot?.isSome }) := by
  obtain ⟨fuel, hle, hloop⟩ := readLoop_frames_split start hfs (encodeRecords F rs)
  obtain ⟨enti, henti⟩ := applyRecords_eq st hagrees
  have hfuel : fuel + 1 = fuel - rs.length + 1 + rs.length := by
    have hcount := length_le_length_encodeRecords F rs
    omega
  have hrecords := readLoop_records hF start (fuel - rs.length + 1) [] hrs
    (fs.flatMap Frame.bytes).length st
  rw [List.append_nil, henti] at hrecords
  refine ⟨enti, ?_⟩
  rw [hloop, hst, hfuel]
  exact hrecords

/-- A header of the invalid type ends the loop, and everything stays where it is. -/
theorem readLoop_invalid (F : WALFormat) (start : WALSnapshot) (fuel : ℕ) {rest : Bytes}
    (hrest : walHeaderLen ≤ rest.length + 1) (offset : ℕ) (st : ReadAllState) :
    readLoop F start (fuel + 1) (walInvalidType :: rest) offset st = .ok (none, st) := by
  have hlong : ¬(walInvalidType :: rest).length < walHeaderLen := Nat.not_lt_of_le hrest
  rw [readLoop]
  dsimp only
  rw [if_neg hlong, if_pos rfl]

/-- What is saved behind a log that `read_all` returned from is found when the log is opened again exactly
if the file did not end with a header of the invalid type, or if what is saved adds nothing. -/
theorem keeps_saved_iff {F : WALFormat} (hF : F.Lawful) {content : Bytes} {start : WALSnapshot}
    {hs : HardState} {ents : List (Option Entry)} {w : WAL}
    (hread : (WAL.openLog content start).readAll F = .ok (hs, ents, w)) {saves : Saves}
    (hfits : ∀ r ∈ saves.calls.flatMap WALCall.records, r.Fits F) :
    KeepsSaved F start hs ents w saves ↔ ¬EndsInvalid F content ∨ saves.Idle start hs ents := by
  obtain ⟨cut, st, hloop, hsnap, rfl, rfl, hw⟩ := WAL.loop_of_readAll hread
  have hdurable : ∀ content : Bytes, (WALFile.openFile content).durable = content := fun content => by
    simp only [WALFile.openFile, WALFile.durable, List.append_nil]
  rw [KeepsSaved, reopenedBytes_eq, hw]
  by_cases hinvalid : EndsInvalid F content
  · -- The second time the loop ends where it did the first time.
    obtain ⟨fs, hfs, rest, hrest, rfl⟩ := hinvalid
    obtain ⟨fuel, -, hsplit⟩ := readLoop_frames_split start hfs (walInvalidType :: rest)
    rw [hsplit] at hloop
    obtain ⟨st', hfold, hend⟩ := bind_eq_ok.mp hloop
    rw [readLoop_invalid F start fuel hrest] at hend
    cases hend
    have hrest' : walHeaderLen ≤
        (rest ++ encodeRecords F (saves.calls.flatMap WALCall.records)).length + 1 := by
      rw [List.length_append]
      omega
    obtain ⟨fuel', -, hsplit'⟩ := readLoop_frames_split start hfs
      (walInvalidType :: (rest ++ encodeRecords F (saves.calls.flatMap WALCall.records)))
    rw [hfold] at hsplit'
    have hread' := WAL.readAll_of_loop (hsplit'.trans (readLoop_invalid F start fuel' hrest' _ st)) hsnap
    rw [Option.elim_none, hdurable, List.append_assoc, List.cons_append, hread']
    constructor
    · rintro ⟨w', hw'⟩
      simp only [Except.ok.injEq, Prod.mk.injEq] at hw'
      exact Or.inr ⟨hw'.1.symm, hw'.2.1.symm⟩
    · rintro (hvalid | hidle)
      · exact absurd ⟨fs, hfs, rest, hrest, rfl⟩ hvalid
      · exact ⟨_, by rw [hidle.state, hidle.entries]⟩
  · -- What was left of the file are whole records, and the new ones follow them.
    refine iff_of_true ?_ (Or.inl hinvalid)
    obtain ⟨fs, tail, hfs, rfl, hfold, hend, -⟩ := loop_frames hloop
    rw [Nat.zero_add] at hend
    have hleft : (cut.elim (WALFile.openFile (fs.flatMap Frame.bytes ++ tail))
        (WALFile.openFile (fs.flatMap Frame.bytes ++ tail)).truncate).durable =
          fs.flatMap Frame.bytes := by
      cases hend with
      | all => rw [Option.elim_none, hdurable, List.append_nil]
      | torn =>
        simp only [Option.elim_some, WALFile.truncate, WALFile.openFile, WALFile.durable,
          List.append_nil, List.take_left]
      | invalid rest hrest => exact absurd ⟨fs, hfs, rest, hrest, rfl⟩ hinvalid
    obtain ⟨enti, hloop'⟩ := readLoop_appended hF hfs hfold hfits (saves.agrees start)
    have hread' := WAL.readAll_of_loop hloop' (by rw [hsnap, Bool.true_or])
    rw [hleft, ← lastState_records, ← entries_records]
    exact ⟨_, hread'⟩

/-- A hard state that is saved behind a new log is found. -/
theorem keeps_saved_created :
    KeepsSaved msgpackFormat {} {} []
        { WAL.openLog (WAL.create msgpackFormat) {} with enti := 0 } [({ term := 1 }, [])] ↔
      ¬EndsInvalid msgpackFormat (WAL.create msgpackFormat) ∨
        Saves.Idle {} {} [] [({ term := 1 }, [])] :=
  have hread : (WAL.openLog (WAL.create msgpackFormat) {}).readAll msgpackFormat =
      .ok ({}, [], { WAL.openLog (WAL.create msgpackFormat) {} with enti := 0 }) := by decide +kernel
  keeps_saved_iff msgpackFormat_lawful hread (by decide)

/-- A new log that is filled up with eight zeros. -/
def paddedLog : Bytes := WAL.create msgpackFormat ++ List.replicate 8 0

/-- A hard state that is saved behind the zeros is lost. -/
theorem saved_behind_padding_lost : ¬∀ (content : Bytes) (start : WALSnapshot) (hs : HardState)
    (ents : List (Option Entry)) (w : WAL),
    (WAL.openLog content start).readAll msgpackFormat = .ok (hs, ents, w) →
      ∀ saves : Saves, (∀ r ∈ saves.calls.flatMap WALCall.records, r.Fits msgpackFormat) →
        KeepsSaved msgpackFormat start hs ents w saves := by
  intro hall
  have hread : (WAL.openLog paddedLog {}).readAll msgpackFormat =
      .ok ({}, [], WAL.openLog paddedLog {}) := by decide +kernel
  obtain ⟨w', hw'⟩ := hall paddedLog {} {} [] _ hread [({ term := 1 }, [])] (by decide)
  have hagain : (WAL.openLog (reopenedBytes msgpackFormat (WAL.openLog paddedLog {})
      [({ term := 1 }, [])]) {}).readAll msgpackFormat = .ok ({}, [], WAL.openLog
        (reopenedBytes msgpackFormat (WAL.openLog paddedLog {}) [({ term := 1 }, [])]) {}) := by
    decide +kernel
  rw [hagain] at hw'
  cases hw'

end RaftCpp
