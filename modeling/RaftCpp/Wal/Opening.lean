import RaftCpp.Wal.Format
import RaftCpp.Wal.Log

/-!
# Opening a log at a snapshot

`read_all` starts at the position of a snapshot, which should have a record in the file. It unpacks the records
of the file until one of them is refused, or until the bytes do not go on with a whole record.
-/

namespace RaftCpp

open Outcome

/-- A record that is refused stops `read_all` with a `LOG_FATAL`. What msgpack throws is none. -/
def Fatal.IsWalFatal : Fatal → Prop
  | .walSnapshotMismatch | .walCrcType | .walRecordType _ | .walSnapshotNotFound => True
  | _ => False

/-- What the loop of `read_all` unpacks, whatever it does with it. -/
def unpackedFrom (F : WALFormat) : ℕ → Bytes → List (Result WALRecord)
  | 0, _ => []
  | fuel + 1, data =>
    match data with
    | [] => []
    | type :: rest =>
      if data.length < walHeaderLen then []
      else if type = walInvalidType then []
      else
        let len := LittleEndian.decode (rest.take 3)
        let crc := LittleEndian.decode ((rest.drop 3).take 4)
        let data := rest.drop 7
        if data.length < len then []
        else if crc ≠ 0 ∧ (F.crc32 (data.take len)).toNat ≠ crc then []
        else decodeRecord F type (data.take len) :: unpackedFrom F fuel (data.drop len)

/-- The records of a file. -/
def unpacked (F : WALFormat) (content : Bytes) : List (Result WALRecord) :=
  unpackedFrom F (content.length + 1) content

/-- The failure with which a record is refused first, if one is. -/
def refusal (start : WALSnapshot) : List (Result WALRecord) → Option Fatal
  | [] => none
  | .error e :: _ => some e
  | .ok (.snapshot s) :: rs =>
    if s.index = start.index ∧ s.term ≠ start.term then some .walSnapshotMismatch else refusal start rs
  | .ok _ :: rs => refusal start rs

/-- The positions of the snapshots whose records are processed: up to the first record that is refused. -/
def processed (start : WALSnapshot) : List (Result WALRecord) → List WALSnapshot
  | [] => []
  | .error _ :: _ => []
  | .ok (.snapshot s) :: rs =>
    s :: if s.index = start.index ∧ s.term ≠ start.term then [] else processed start rs
  | .ok _ :: rs => processed start rs

/-- The effects of the records, one after the other. -/
def applyUnpacked (start : WALSnapshot) (rs : List (Result WALRecord)) (st : ReadAllState) :
    Result ReadAllState :=
  rs.foldlM (fun st r => r >>= applyRecord start st) st

/-- The loop applies the records that it unpacks. -/
theorem readLoop_unpacked (F : WALFormat) (start : WALSnapshot) {fuel : ℕ} {data : Bytes}
    (hfuel : data.length < fuel) (offset : ℕ) (st : ReadAllState) :
    (readLoop F start fuel data offset st).map Prod.snd =
      applyUnpacked start (unpackedFrom F fuel data) st := by
  induction fuel generalizing data offset st with
  | zero => omega
  | succ fuel ih =>
    unfold readLoop unpackedFrom
    cases data with
    | nil => rfl
    | cons type rest =>
      dsimp only
      split_ifs with hshort htype hlen hcrc
      · rfl
      · rfl
      · rfl
      · rfl
      · rw [applyUnpacked, List.foldlM_cons]
        have hlt : ((rest.drop 7).drop (LittleEndian.decode (rest.take 3))).length < fuel := by
          rw [List.length_cons] at hfuel
          rw [List.length_drop, List.length_drop]
          omega
        cases hr : decodeRecord F type ((rest.drop 7).take (LittleEndian.decode (rest.take 3))) with
        | error e => rfl
        | ok r =>
          show (applyRecord start st r >>= _).map Prod.snd = applyRecord start st r >>= _
          cases hst : applyRecord start st r with
          | error e => rfl
          | ok st' => exact ih hlt _ st'

/-- Whether a snapshot was unpacked. -/
def hasSnapshot (rs : List (Result WALRecord)) : Bool :=
  rs.any fun
    | .ok (.snapshot _) => true
    | _ => false

/-- The records are applied unless one is refused. Any snapshot among them counts as found. -/
theorem applyUnpacked_eq (start : WALSnapshot) (rs : List (Result WALRecord)) (st : ReadAllState) :
    (∀ e, refusal start rs = some e → applyUnpacked start rs st = .error e) ∧
      (refusal start rs = none → ∃ st', applyUnpacked start rs st = .ok st' ∧
        st'.matchsnap = (st.matchsnap || hasSnapshot rs)) := by
  induction rs generalizing st with
  | nil => exact ⟨nofun, fun _ => ⟨st, rfl, (Bool.or_false _).symm⟩⟩
  | cons r rs ih =>
    rcases r with e | (e | hs | s)
    · constructor
      · rintro _ ⟨⟩
        rfl
      · nofun
    · exact ih _
    · exact ih _
    · by_cases hmismatch : s.index = start.index ∧ s.term ≠ start.term
      · have hrefusal : refusal start (.ok (.snapshot s) :: rs) = some .walSnapshotMismatch := if_pos hmismatch
        have happly : applyUnpacked start (.ok (.snapshot s) :: rs) st = .error .walSnapshotMismatch := by
          show ((if s.index = start.index ∧ s.term ≠ start.term then
            Except.error Fatal.walSnapshotMismatch else .ok { st with matchsnap := true }) >>= _) = _
          rw [if_pos hmismatch]
          rfl
        rw [hrefusal]
        constructor
        · rintro _ ⟨⟩
          exact happly
        · nofun
      · have hrefusal : refusal start (.ok (.snapshot s) :: rs) = refusal start rs := if_neg hmismatch
        have happly : applyUnpacked start (.ok (.snapshot s) :: rs) st =
            applyUnpacked start rs { st with matchsnap := true } := by
          show ((if s.index = start.index ∧ s.term ≠ start.term then
            Except.error Fatal.walSnapshotMismatch else .ok { st with matchsnap := true }) >>= _) = _
          rw [if_neg hmismatch]
          rfl
        obtain ⟨herror, hok⟩ := ih { st with matchsnap := true }
        rw [hrefusal, happly]
        refine ⟨herror, fun hnone => ?_⟩
        obtain ⟨st', hst', hfound⟩ := hok hnone
        exact ⟨st', hst', hfound.trans (Bool.or_true _).symm⟩

/-- What `read_all` returns for any bytes. -/
theorem readAll_unpacked (F : WALFormat) (content : Bytes) (start : WALSnapshot) :
    (∀ e, refusal start (unpacked F content) = some e →
        (WAL.openLog content start).readAll F = .error e) ∧
      (refusal start (unpacked F content) = none →
        if hasSnapshot (unpacked F content) then ∃ r, (WAL.openLog content start).readAll F = .ok r
        else (WAL.openLog content start).readAll F = .error .walSnapshotNotFound) := by
  have hloop := readLoop_unpacked F start (Nat.lt_succ_self content.length) 0 {}
  obtain ⟨herror, hok⟩ := applyUnpacked_eq start (unpacked F content) {}
  have hfails : ∀ e, readLoop F start (content.length + 1) content 0 {} = .error e →
      (WAL.openLog content start).readAll F = .error e := by
    intro e hl
    show (readLoop F start (content.length + 1) content 0 {} >>= _) = _
    rw [hl]
    rfl
  have hreturns : ∀ p, readLoop F start (content.length + 1) content 0 {} = .ok p →
      if p.2.matchsnap then ∃ r, (WAL.openLog content start).readAll F = .ok r
      else (WAL.openLog content start).readAll F = .error .walSnapshotNotFound := by
    rintro ⟨cut, st⟩ hl
    have hread : (WAL.openLog content start).readAll F =
        (readLoop F start (content.length + 1) content 0 {} >>= _) := rfl
    rw [hread, hl]
    cases hs : st.matchsnap with
    | true => exact ⟨_, if_neg fun h => h hs⟩
    | false => exact if_pos (Bool.eq_false_iff.mp hs)
  constructor
  · intro e he
    have happly := hloop.trans (herror e he)
    cases hl : readLoop F start (content.length + 1) content 0 {} with
    | error e' =>
      rw [hl] at happly
      cases happly
      exact hfails _ hl
    | ok p =>
      rw [hl] at happly
      cases happly
  · intro hnone
    obtain ⟨st', hst', hfound⟩ := hok hnone
    have happly := hloop.trans hst'
    cases hl : readLoop F start (content.length + 1) content 0 {} with
    | error e =>
      rw [hl] at happly
      cases happly
    | ok p =>
      rw [hl] at happly
      cases happly
      rw [Bool.false_or] at hfound
      rw [← hfound]
      exact hreturns p hl

/-- The log is opened only at a snapshot whose record it has processed. Otherwise it stops. -/
def OpensAtRecorded (F : WALFormat) (content : Bytes) (start : WALSnapshot) : Prop :=
  start ∉ processed start (unpacked F content) →
    ∃ e, (WAL.openLog content start).readAll F = .error e ∧ e.IsWalFatal

/-- The log is opened only at a recorded snapshot if and only if a record of that snapshot is processed, or a
record is refused with a `LOG_FATAL`, or none is refused and there is no snapshot at all. -/
theorem opens_at_recorded_iff (F : WALFormat) (content : Bytes) (start : WALSnapshot) :
    OpensAtRecorded F content start ↔
      start ∈ processed start (unpacked F content) ∨
        (∃ e ∈ refusal start (unpacked F content), e.IsWalFatal) ∨
          (refusal start (unpacked F content) = none ∧ hasSnapshot (unpacked F content) = false) := by
  obtain ⟨herror, hok⟩ := readAll_unpacked F content start
  constructor
  · intro h
    by_cases hmem : start ∈ processed start (unpacked F content)
    · exact Or.inl hmem
    obtain ⟨e, he, hfatal⟩ := h hmem
    right
    cases hrefusal : refusal start (unpacked F content) with
    | some e' =>
      cases he.symm.trans (herror e' hrefusal)
      exact Or.inl ⟨e, rfl, hfatal⟩
    | none =>
      refine Or.inr ⟨rfl, Bool.eq_false_iff.mpr fun hsnap => ?_⟩
      have hread := hok hrefusal
      rw [if_pos hsnap] at hread
      obtain ⟨r, hr⟩ := hread
      cases he.symm.trans hr
  · rintro (hmem | ⟨e, he, hfatal⟩ | ⟨hnone, hsnap⟩) hnot
    · exact absurd hmem hnot
    · exact ⟨e, herror e he, hfatal⟩
    · have hread := hok hnone
      rw [if_neg (Bool.eq_false_iff.mp hsnap)] at hread
      exact ⟨_, hread, True.intro⟩

/-- A log that has only the record of its creation is opened at any other position. -/
theorem unrecorded_snapshot_opened : ¬∀ (F : WALFormat) (content : Bytes) (start : WALSnapshot),
    OpensAtRecorded F content start := by
  intro hall
  have hunrecorded : { index := 5, term := 1 } ∉
      processed { index := 5, term := 1 } (unpacked msgpackFormat (WAL.create msgpackFormat)) := by
    decide +kernel
  obtain ⟨e, he, -⟩ := hall msgpackFormat (WAL.create msgpackFormat) { index := 5, term := 1 } hunrecorded
  have hok : Outcome.Returns ((WAL.openLog (WAL.create msgpackFormat) { index := 5, term := 1 }).readAll
      msgpackFormat) fun _ => True := by decide +kernel
  obtain ⟨r, hr, -⟩ := hok
  rw [he] at hr
  cases hr

end RaftCpp
