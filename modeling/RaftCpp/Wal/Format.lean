import Mathlib.Logic.Function.Iterate
import RaftCpp.Library.Msgpack
import RaftCpp.Wal.Record

/-!
# The format of the records in msgpack

What msgpack makes of the payloads of the records, by the `MSGPACK_DEFINE` lines of `raft-kv/raft/proto.h`
and `raft-kv/wal/wal.h`, and the checksum of `raft-kv/raft/util.cpp`.
-/

namespace RaftCpp

open Msgpack

/-- A part of the bytes of a value is not unpacked: `msgpack::unpack` throws for want of bytes. -/
def Codec.Strict {α : Type} (c : Codec α) : Prop :=
  ∀ a k, k < (c.pack a).length → c.unpack ((c.pack a).take k) = none

/-- A part of a payload is not unpacked. -/
structure WALFormat.Strict (F : WALFormat) : Prop where
  /-- The entries. -/
  entry : F.entry.Strict
  /-- The hard states. -/
  hardState : F.hardState.Strict
  /-- The positions of snapshots. -/
  snapshot : F.snapshot.Strict

/-- `msgpack::pack` and `msgpack::unpack` for a format. What follows the value is left alone. -/
def codec {α : Type} (f : Format α) : Codec α where
  pack := f.pack
  unpack bs := (f.parse bs).map Prod.fst

/-- A format that ends itself can be unpacked. -/
theorem codec_lawful {α : Type} {f : Format α} (hf : f.SelfDelimiting) : (codec f).Lawful := by
  intro a
  show (f.parse (f.pack a)).map Prod.fst = some a
  rw [hf.parse_pack]
  rfl

/-- A part of its bytes cannot. -/
theorem codec_strict {α : Type} {f : Format α} (hf : f.SelfDelimiting) : (codec f).Strict := by
  intro a k hk
  show (f.parse ((f.pack a).take k)).map Prod.fst = none
  rw [hf.parse_take hk]
  rfl

/-- The entry type that a number stands for. -/
def EntryType.ofCode (n : ℕ) : EntryType :=
  if n = 0 then .entryNormal else if n = 1 then .entryConfChange else .other (UInt8.ofNat n)

/-- The number of an entry type. The bytes 0 and 1 are those of the two types, so that there is no other
type of these bytes. -/
def EntryType.toCode : EntryType → ℕ
  | .entryNormal => 0
  | .entryConfChange => 1
  | .other code => if code < 2 then 256 + code.toNat else code.toNat

/-- An entry type is read back. -/
theorem EntryType.ofCode_toCode (t : EntryType) : ofCode t.toCode = t := by
  cases t with
  | entryNormal => rfl
  | entryConfChange => rfl
  | other code =>
    have hlt := code.toNat_lt
    have hmod : UInt8.ofNat (256 + code.toNat) = code := by
      apply UInt8.toNat_inj.mp
      rw [UInt8.toNat_ofNat']
      omega
    by_cases h2 : code < 2
    · rw [toCode, if_pos h2, ofCode, if_neg (by omega), if_neg (by omega), hmod]
    · have hge : ¬code.toNat < 2 := fun hlt => h2 (UInt8.lt_iff_toNat_lt.mpr hlt)
      rw [toCode, if_neg h2, ofCode, if_neg (by omega), if_neg (by omega), UInt8.ofNat_toNat]

/-- `MSGPACK_DEFINE (type, term, index, data)` of an entry. -/
def entryFormat : Format Entry :=
  (((uint.via EntryType.ofCode EntryType.toCode).pair (uint.pair (uint.pair bin))).via
    (fun p => { type := p.1, term := p.2.1, index := p.2.2.1, data := p.2.2.2 })
    fun e => (e.type, e.term, e.index, e.data)).tagged (arrayTag 4)

/-- `MSGPACK_DEFINE (term, vote, commit)` of a hard state. -/
def hardStateFormat : Format HardState :=
  ((uint.pair (uint.pair uint)).via (fun p => { term := p.1, vote := p.2.1, commit := p.2.2 })
    fun hs => (hs.term, hs.vote, hs.commit)).tagged (arrayTag 3)

/-- `MSGPACK_DEFINE (index, term)` of the position of a snapshot. -/
def walSnapshotFormat : Format WALSnapshot :=
  ((uint.pair uint).via (fun p => { index := p.1, term := p.2 })
    fun s => (s.index, s.term)).tagged (arrayTag 2)

/-- An entry ends itself. -/
theorem entryFormat_selfDelimiting : entryFormat.SelfDelimiting :=
  have htype := uint_selfDelimiting.via EntryType.ofCode_toCode
  have hfields := uint_selfDelimiting.pair (uint_selfDelimiting.pair bin_selfDelimiting)
  ((htype.pair hfields).via fun _ => rfl).tagged _

/-- A hard state ends itself. -/
theorem hardStateFormat_selfDelimiting : hardStateFormat.SelfDelimiting :=
  have hfields := uint_selfDelimiting.pair (uint_selfDelimiting.pair uint_selfDelimiting)
  (hfields.via fun _ => rfl).tagged _

/-- The position of a snapshot ends itself. -/
theorem walSnapshotFormat_selfDelimiting : walSnapshotFormat.SelfDelimiting :=
  ((uint_selfDelimiting.pair uint_selfDelimiting).via fun _ => rfl).tagged _

/-- One bit of the checksum, least significant first. -/
def crcBit (crc : UInt32) : UInt32 :=
  if crc &&& 1 = 1 then (crc >>> 1) ^^^ 0xEDB88320 else crc >>> 1

/-- `compute_crc32`: the checksum of `boost::crc_32_type`. -/
def computeCrc32 (data : Bytes) : UInt32 :=
  data.foldl (fun crc b => crcBit^[8] (crc ^^^ b.toUInt32)) 0xFFFFFFFF ^^^ 0xFFFFFFFF

/-- The format of the records. -/
def msgpackFormat : WALFormat where
  entry := codec entryFormat
  hardState := codec hardStateFormat
  snapshot := codec walSnapshotFormat
  crc32 := computeCrc32

/-- What is packed can be unpacked. -/
theorem msgpackFormat_lawful : msgpackFormat.Lawful where
  entry := codec_lawful entryFormat_selfDelimiting
  hardState := codec_lawful hardStateFormat_selfDelimiting
  snapshot := codec_lawful walSnapshotFormat_selfDelimiting

/-- A part of it cannot. -/
theorem msgpackFormat_strict : msgpackFormat.Strict where
  entry := codec_strict entryFormat_selfDelimiting
  hardState := codec_strict hardStateFormat_selfDelimiting
  snapshot := codec_strict walSnapshotFormat_selfDelimiting

/-- The check value of the checksum: that of the digits 1 to 9. -/
example : computeCrc32 [49, 50, 51, 52, 53, 54, 55, 56, 57] = 0xCBF43926 := by decide +kernel

/-- An entry of a configuration change with three bytes. -/
example : msgpackFormat.entry.pack { type := .entryConfChange, term := 2, index := 300, data := [7, 8, 9] } =
    [0x94, 1, 2, 0xcd, 1, 44, 0xc4, 3, 7, 8, 9] := by decide

end RaftCpp
