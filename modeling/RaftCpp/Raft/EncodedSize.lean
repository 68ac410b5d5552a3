import RaftCpp.Raft.PlainLog
import RaftCpp.Wal.Format

/-!
# The encoded size of an entry

`Entry::serialize_size` adds up what msgpack makes of the fields of an entry, without encoding it. The sum
has 32 bits, which is enough as long as the data leave room for the other fields.
-/

namespace RaftCpp

open Msgpack

/-- A number of 64 bits takes as many bytes as it is said to. -/
theorem length_pack_uint {n : ℕ} (h : n < 2^64) : (uint.pack n).length = u64SerializeSize n := by
  unfold uint u64SerializeSize
  dsimp only
  split_ifs <;> simp only [List.length_cons, List.length_nil, length_packBytes] <;> omega

/-- So do data whose length has 32 bits. -/
theorem length_pack_bin {data : Bytes} (h : data.length < 2^32) :
    (bin.pack data).length = dataSerializeSize data.length := by
  unfold bin dataSerializeSize
  dsimp only
  split_ifs <;> simp only [List.length_cons, List.length_append, length_packBytes] <;> omega

/-- A byte takes as much as the number that it is. -/
theorem u8SerializeSize_eq (b : UInt8) : u8SerializeSize b.toNat = u64SerializeSize b.toNat := by
  have hlt := b.toNat_lt
  unfold u8SerializeSize u64SerializeSize
  split_ifs <;> omega

/-- The code of the type that a byte stands for. -/
theorem EntryType.codes_ofCode (b : UInt8) :
    (EntryType.ofCode b.toNat).code = b.toNat ∧ (EntryType.ofCode b.toNat).toCode = b.toNat := by
  unfold ofCode
  split_ifs with h0 h1
  · exact ⟨h0.symm, h0.symm⟩
  · exact ⟨h1.symm, h1.symm⟩
  · have hge : ¬b < 2 := fun hlt => by
      have hlt := UInt8.lt_iff_toNat_lt.mp hlt
      have htwo : (2 : UInt8).toNat = 2 := rfl
      omega
    rw [UInt8.ofNat_toNat]
    exact ⟨rfl, if_neg hge⟩

/-- The fields of an entry have their widths, and its data leave room for the others. -/
structure Entry.Measurable (e : Entry) : Prop where
  /-- The type is a byte. -/
  type : ∃ b : UInt8, e.type = .ofCode b.toNat
  /-- The term has 64 bits. -/
  term : e.term < 2^64
  /-- So has the index. -/
  index : e.index < 2^64
  /-- The data. -/
  data : e.data.length < 2^32 - 64

/-- What is computed is the size of the encoding. -/
theorem Entry.Measurable.serializeSize_eq {e : Entry} (h : e.Measurable) :
    e.serializeSize = (entryFormat.pack e).length := by
  obtain ⟨⟨b, htype⟩, hterm, hindex, hdata⟩ := h
  obtain ⟨hcode, htoCode⟩ := EntryType.codes_ofCode b
  have hfields : ∀ n, u64SerializeSize n ≤ 9 := fun n => by
    unfold u64SerializeSize
    split_ifs <;> omega
  have hpayload : dataSerializeSize e.data.length ≤ 5 + e.data.length := by
    unfold dataSerializeSize
    split_ifs <;> omega
  have hb := b.toNat_lt
  have hpacked : (entryFormat.pack e).length = 1 + u64SerializeSize b.toNat + u64SerializeSize e.term +
      u64SerializeSize e.index + dataSerializeSize e.data.length := by
    calc (entryFormat.pack e).length
        = (arrayTag 4 :: (uint.pack e.type.toCode ++ (uint.pack e.term ++
            (uint.pack e.index ++ bin.pack e.data)))).length := rfl
      _ = 1 + (uint.pack b.toNat).length + (uint.pack e.term).length + (uint.pack e.index).length +
            (bin.pack e.data).length := by
          rw [htype, htoCode]
          simp only [List.length_cons, List.length_append]
          omega
      _ = _ := by
          rw [length_pack_uint (by omega), length_pack_uint hterm, length_pack_uint hindex,
            length_pack_bin (by omega)]
  -- The sum does not wrap.
  have hfits : 1 + u64SerializeSize b.toNat + u64SerializeSize e.term + u64SerializeSize e.index +
      dataSerializeSize e.data.length < 2^32 := by
    have h₁ := hfields b.toNat
    have h₂ := hfields e.term
    have h₃ := hfields e.index
    omega
  unfold Entry.serializeSize
  rw [hpacked, htype, hcode, u8SerializeSize_eq, Nat.mod_eq_of_lt (a := e.data.length) (by omega),
    Nat.mod_eq_of_lt hfits]

/-- The size of an entry is that of its encoding, and so `entry_limit_size` keeps as many entries as their
encodings fit into the limit. -/
theorem encoded_sizes_exact {es : List Entry} (h : ∀ e ∈ es, e.Measurable) :
    (∀ e ∈ es, e.serializeSize = (entryFormat.pack e).length) ∧
      ∀ maxSize, (es.map fun e => (entryFormat.pack e).length).sum < 2^64 →
        es.LongestWithin (fun e => (entryFormat.pack e).length) maxSize (entryLimitSize maxSize es) := by
  have hsizes : ∀ e ∈ es, e.serializeSize = (entryFormat.pack e).length :=
    fun e he => (h e he).serializeSize_eq
  refine ⟨hsizes, fun maxSize hfit => ?_⟩
  rw [← List.map_congr_left hsizes] at hfit
  exact (entryLimitSize_longest maxSize hfit).congr hsizes

/-- The sizes of an empty entry and of one whose fields are as large as their formats for 16 bits allow. -/
theorem encoded_sizes_exact_pair :
    let es : List Entry := [{ term := 1, index := 1 },
      { type := .entryConfChange, term := 2^16 - 1, index := 2^16, data := List.replicate 300 7 }]
    (∀ e ∈ es, e.serializeSize = (entryFormat.pack e).length) ∧
      ∀ maxSize, (es.map fun e => (entryFormat.pack e).length).sum < 2^64 →
        es.LongestWithin (fun e => (entryFormat.pack e).length) maxSize (entryLimitSize maxSize es) := by
  refine encoded_sizes_exact fun e he => ?_
  obtain rfl | he := List.mem_cons.mp he
  · exact ⟨⟨0, rfl⟩, by decide, by decide, by decide⟩
  · obtain rfl := List.mem_singleton.mp he
    exact ⟨⟨1, rfl⟩, by decide, by decide, by rw [List.length_replicate]; decide⟩

end RaftCpp
