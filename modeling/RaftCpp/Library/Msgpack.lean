import Mathlib.Data.List.Nodup
import Mathlib.Tactic.ByContra
import Mathlib.Tactic.SplitIfs
import RaftCpp.Library.LittleEndian

/-!
# Formats that end themselves, and those of msgpack

A format writes a value as bytes, and reads a value from the front of bytes. One that ends itself is read
back without looking at what follows, so that formats can be put behind one another. The formats of
msgpack for numbers, byte strings, and arrays of a fixed length are of this kind, and those for strings,
arrays, and maps of any length.
-/

namespace Msgpack

variable {α β : Type}

/-- A way to write values, and to read one from the front of bytes. -/
structure Format (α : Type) where
  /-- The bytes of a value. -/
  pack : α → List UInt8
  /-- The value at the front of the bytes, and what follows it. -/
  parse : List UInt8 → Option (α × List UInt8)

/-- A value is read back, and reading it does not depend on what follows. -/
structure Format.SelfDelimiting (f : Format α) : Prop where
  /-- A value is read back. -/
  parse_pack : ∀ a, f.parse (f.pack a) = some (a, [])
  /-- More bytes are left over. -/
  parse_append : ∀ {bs a rest}, f.parse bs = some (a, rest) → ∀ more,
    f.parse (bs ++ more) = some (a, rest ++ more)

namespace Format.SelfDelimiting

variable {f : Format α} {g : Format β}

/-- A value is read back from the front of bytes. -/
theorem parse_pack_append (hf : f.SelfDelimiting) (a : α) (rest : List UInt8) :
    f.parse (f.pack a ++ rest) = some (a, rest) := by
  simpa using hf.parse_append (hf.parse_pack a) rest

/-- No value is read from a part of the bytes of one. -/
theorem parse_take (hf : f.SelfDelimiting) {a : α} {k : ℕ} (hk : k < (f.pack a).length) :
    f.parse ((f.pack a).take k) = none := by
  by_contra hne
  obtain ⟨⟨b, rest⟩, hparse⟩ := Option.ne_none_iff_exists'.mp hne
  -- The bytes that are missing would be left over.
  have hall := hf.parse_append hparse ((f.pack a).drop k)
  rw [List.take_append_drop, hf.parse_pack, Option.some.injEq, Prod.mk.injEq] at hall
  have hdrop := (List.append_eq_nil_iff.mp hall.2.symm).2
  rw [List.drop_eq_nil_iff] at hdrop
  omega

end Format.SelfDelimiting

/-! ## Putting formats together -/

/-- One value behind the other. -/
def Format.pair (f : Format α) (g : Format β) : Format (α × β) where
  pack p := f.pack p.1 ++ g.pack p.2
  parse bs := do
    let (a, bs) ← f.parse bs
    let (b, bs) ← g.parse bs
    return ((a, b), bs)

/-- Two formats that end themselves can stand behind one another. -/
theorem Format.SelfDelimiting.pair {f : Format α} {g : Format β} (hf : f.SelfDelimiting)
    (hg : g.SelfDelimiting) : (f.pair g).SelfDelimiting where
  parse_pack p := by simp [Format.pair, hf.parse_pack_append, hg.parse_pack]
  parse_append := by
    rintro bs ⟨a, b⟩ rest h more
    simp only [Format.pair, Option.bind_eq_bind, Option.bind_eq_some_iff, Prod.exists] at h ⊢
    obtain ⟨a', bs', ha, b', bs'', hb, heq⟩ := h
    cases heq
    exact ⟨a, bs' ++ more, hf.parse_append ha more, b, rest ++ more, hg.parse_append hb more, rfl⟩

/-- The values of another type, written as those of the first one. -/
def Format.via (f : Format α) (read : α → β) (write : β → α) : Format β where
  pack b := f.pack (write b)
  parse bs := (f.parse bs).map fun p => (read p.1, p.2)

/-- Values that can be told from how they are written. -/
theorem Format.SelfDelimiting.via {f : Format α} (hf : f.SelfDelimiting) {read : α → β}
    {write : β → α} (h : ∀ b, read (write b) = b) : (f.via read write).SelfDelimiting where
  parse_pack b := by simp [Format.via, hf.parse_pack, h]
  parse_append := by
    intro bs b rest hb more
    simp only [Format.via, Option.map_eq_some_iff, Prod.exists] at hb ⊢
    obtain ⟨a, rest', ha, heq⟩ := hb
    cases heq
    exact ⟨a, rest ++ more, hf.parse_append ha more, rfl⟩

/-- The values of another type, written as those of the first one, not all of which can be read. -/
def Format.narrow (f : Format α) (read : α → Option β) (write : β → α) : Format β where
  pack b := f.pack (write b)
  parse bs := (f.parse bs).bind fun p => (read p.1).map fun b => (b, p.2)

/-- Values that can be told from how they are written. -/
theorem Format.SelfDelimiting.narrow {f : Format α} (hf : f.SelfDelimiting) {read : α → Option β}
    {write : β → α} (h : ∀ b, read (write b) = some b) : (f.narrow read write).SelfDelimiting where
  parse_pack b := by simp [Format.narrow, hf.parse_pack, h]
  parse_append := by
    intro bs b rest hb more
    simp only [Format.narrow, Option.bind_eq_some_iff, Option.map_eq_some_iff, Prod.exists,
      Prod.mk.injEq] at hb ⊢
    obtain ⟨a, rest', ha, b', hread, rfl, rfl⟩ := hb
    exact ⟨a, rest' ++ more, hf.parse_append ha more, b', hread, rfl, rfl⟩

/-- A value behind a byte that announces it. -/
def Format.tagged (tag : UInt8) (f : Format α) : Format α where
  pack a := tag :: f.pack a
  parse
    | [] => none
    | b :: bs => if b = tag then f.parse bs else none

/-- A format that ends itself does so behind a byte. -/
theorem Format.SelfDelimiting.tagged {f : Format α} (hf : f.SelfDelimiting) (tag : UInt8) :
    (f.tagged tag).SelfDelimiting where
  parse_pack a := by simp [Format.tagged, hf.parse_pack]
  parse_append := by
    intro bs a rest h more
    cases bs with
    | nil => cases h
    | cons b bs =>
      simp only [Format.tagged, List.cons_append] at h ⊢
      split_ifs at h ⊢ with hb
      exact hf.parse_append h more

/-! ## The formats of msgpack -/

/-- A number from the given count of bytes, most significant first. -/
def parseBytes (n : ℕ) (bs : List UInt8) : Option (ℕ × List UInt8) :=
  if n ≤ bs.length then some (LittleEndian.decode (bs.take n).reverse, bs.drop n) else none

/-- The given count of bytes of a number, most significant first. -/
def packBytes (n x : ℕ) : List UInt8 := (LittleEndian.encode n x).reverse

/-- There are as many as that. -/
@[simp] theorem length_packBytes (n x : ℕ) : (packBytes n x).length = n := by
  rw [packBytes, List.length_reverse, LittleEndian.length_encode]

/-- A number that fits is read back. -/
theorem parseBytes_packBytes {n x : ℕ} (h : x < 256 ^ n) (rest : List UInt8) :
    parseBytes n (packBytes n x ++ rest) = some (x, rest) := by
  have hlen := length_packBytes n x
  rw [parseBytes, if_pos (by rw [List.length_append, hlen]; omega), List.take_left' hlen,
    List.drop_left' hlen, packBytes, List.reverse_reverse, LittleEndian.decode_encode h]

/-- More bytes are left over. -/
theorem parseBytes_append {n : ℕ} {bs : List UInt8} {x : ℕ} {rest : List UInt8}
    (h : parseBytes n bs = some (x, rest)) (more : List UInt8) :
    parseBytes n (bs ++ more) = some (x, rest ++ more) := by
  unfold parseBytes at h ⊢
  split_ifs at h with hle
  cases h
  rw [if_pos (by rw [List.length_append]; omega), List.take_append_of_le_length hle,
    List.drop_append_of_le_length hle]

/-- A row of ones, ended by a zero. -/
def packUnary (n : ℕ) : List UInt8 := List.replicate n 1 ++ [0]

/-- The length of a row of ones. -/
def parseUnary : List UInt8 → Option (ℕ × List UInt8)
  | [] => none
  | b :: bs =>
    if b = 0 then some (0, bs)
    else if b = 1 then (parseUnary bs).map fun p => (p.1 + 1, p.2)
    else none

/-- The length of a row is read back. -/
theorem parseUnary_packUnary (n : ℕ) (rest : List UInt8) :
    parseUnary (packUnary n ++ rest) = some (n, rest) := by
  induction n with
  | zero => rfl
  | succ n ih =>
    have hcons : packUnary (n + 1) ++ rest = 1 :: (packUnary n ++ rest) := rfl
    rw [hcons, parseUnary, if_neg (by decide), if_pos rfl, ih]
    rfl

/-- More bytes are left over. -/
theorem parseUnary_append {bs : List UInt8} {n : ℕ} {rest : List UInt8}
    (h : parseUnary bs = some (n, rest)) (more : List UInt8) :
    parseUnary (bs ++ more) = some (n, rest ++ more) := by
  induction bs generalizing n with
  | nil => cases h
  | cons b bs ih =>
    unfold parseUnary at h
    rw [List.cons_append, parseUnary]
    split_ifs at h ⊢ with h0 h1
    · cases h
      rfl
    · simp only [Option.map_eq_some_iff, Prod.exists] at h ⊢
      obtain ⟨m, rest', hm, heq⟩ := h
      cases heq
      exact ⟨m, rest ++ more, ih hm, rfl⟩

/-- Numbers. One of more than 64 bits, for which msgpack has no format, stands as a row of ones behind the
byte that msgpack never uses. -/
def uint : Format ℕ where
  pack n :=
    if n < 128 then [UInt8.ofNat n]
    else if n < 256 ^ 1 then 0xcc :: packBytes 1 n
    else if n < 256 ^ 2 then 0xcd :: packBytes 2 n
    else if n < 256 ^ 4 then 0xce :: packBytes 4 n
    else if n < 256 ^ 8 then 0xcf :: packBytes 8 n
    else 0xc1 :: packUnary n
  parse
    | [] => none
    | b :: bs =>
      if b < 128 then some (b.toNat, bs)
      else if b = 0xcc then parseBytes 1 bs
      else if b = 0xcd then parseBytes 2 bs
      else if b = 0xce then parseBytes 4 bs
      else if b = 0xcf then parseBytes 8 bs
      else if b = 0xc1 then parseUnary bs
      else none

/-- A number is read back. -/
theorem uint_selfDelimiting : uint.SelfDelimiting where
  parse_pack n := by
    have hbytes : ∀ k, n < 256 ^ k → parseBytes k (packBytes k n) = some (n, []) := fun k hk => by
      simpa using parseBytes_packBytes hk []
    have hunary : parseUnary (packUnary n) = some (n, []) := by
      simpa using parseUnary_packUnary n []
    unfold uint
    dsimp only
    split_ifs with h0 h1 h2 h4 h8
    · have hlt : UInt8.ofNat n < 128 := by
        rw [UInt8.lt_iff_toNat_lt, UInt8.toNat_ofNat']
        change n % 2 ^ 8 < 128
        omega
      have hmod : n % 2 ^ 8 = n := by omega
      simp only [if_pos hlt, UInt8.toNat_ofNat', hmod]
    · simpa using hbytes 1 h1
    · simpa using hbytes 2 h2
    · simpa using hbytes 4 h4
    · simpa using hbytes 8 h8
    · simpa using hunary
  parse_append := by
    intro bs n rest h more
    cases bs with
    | nil => cases h
    | cons b bs =>
      simp only [uint, List.cons_append] at h ⊢
      split_ifs at h ⊢
      · cases h
        rfl
      · exact parseBytes_append h more
      · exact parseBytes_append h more
      · exact parseBytes_append h more
      · exact parseBytes_append h more
      · exact parseUnary_append h more

/-- The given count of bytes. -/
def parseData (p : ℕ × List UInt8) : Option (List UInt8 × List UInt8) :=
  if p.1 ≤ p.2.length then some (p.2.take p.1, p.2.drop p.1) else none

/-- More bytes are left over. -/
theorem parseData_append {n : ℕ} {bs data rest : List UInt8} (h : parseData (n, bs) = some (data, rest))
    (more : List UInt8) : parseData (n, bs ++ more) = some (data, rest ++ more) := by
  unfold parseData at h ⊢
  dsimp only at h ⊢
  split_ifs at h with hle
  cases h
  rw [if_pos (by rw [List.length_append]; omega), List.take_append_of_le_length hle,
    List.drop_append_of_le_length hle]

/-- Byte strings, behind their length. -/
def bin : Format (List UInt8) where
  pack data :=
    let n := data.length
    if n < 256 ^ 1 then 0xc4 :: (packBytes 1 n ++ data)
    else if n < 256 ^ 2 then 0xc5 :: (packBytes 2 n ++ data)
    else if n < 256 ^ 4 then 0xc6 :: (packBytes 4 n ++ data)
    else 0xc1 :: (packUnary n ++ data)
  parse
    | [] => none
    | b :: bs =>
      if b = 0xc4 then parseBytes 1 bs >>= parseData
      else if b = 0xc5 then parseBytes 2 bs >>= parseData
      else if b = 0xc6 then parseBytes 4 bs >>= parseData
      else if b = 0xc1 then parseUnary bs >>= parseData
      else none

/-- A byte string is read back. -/
theorem bin_selfDelimiting : bin.SelfDelimiting where
  parse_pack data := by
    have hdata : parseData (data.length, data) = some (data, []) := by simp [parseData]
    have hbytes : ∀ k, data.length < 256 ^ k →
        (parseBytes k (packBytes k data.length ++ data) >>= parseData) = some (data, []) := fun k hk => by
      rw [parseBytes_packBytes hk]
      exact hdata
    have hunary : (parseUnary (packUnary data.length ++ data) >>= parseData) = some (data, []) := by
      rw [parseUnary_packUnary]
      exact hdata
    unfold bin
    dsimp only
    split_ifs with h1 h2 h4
    · simpa using hbytes 1 h1
    · simpa using hbytes 2 h2
    · simpa using hbytes 4 h4
    · simpa using hunary
  parse_append := by
    intro bs data rest h more
    -- The length is read first, and then the bytes.
    have hthen : ∀ (p : List UInt8 → Option (ℕ × List UInt8)),
        (∀ {bs n rest}, p bs = some (n, rest) → p (bs ++ more) = some (n, rest ++ more)) →
        ∀ bs, (p bs >>= parseData) = some (data, rest) →
          (p (bs ++ more) >>= parseData) = some (data, rest ++ more) := by
      intro p hp bs hbs
      simp only [Option.bind_eq_bind, Option.bind_eq_some_iff, Prod.exists] at hbs ⊢
      obtain ⟨n, bs', hn, hdata⟩ := hbs
      exact ⟨n, bs' ++ more, hp hn, parseData_append hdata more⟩
    cases bs with
    | nil => cases h
    | cons b bs =>
      simp only [bin, List.cons_append] at h ⊢
      split_ifs at h ⊢
      · exact hthen (parseBytes 1) (fun h => parseBytes_append h more) bs h
      · exact hthen (parseBytes 2) (fun h => parseBytes_append h more) bs h
      · exact hthen (parseBytes 4) (fun h => parseBytes_append h more) bs h
      · exact hthen parseUnary (fun h => parseUnary_append h more) bs h

/-- The byte that announces an array of fewer than sixteen elements. -/
def arrayTag (n : ℕ) : UInt8 := UInt8.ofNat (0x90 + n)

/-! ## Strings, arrays, and maps of any length -/

/-- How a kind of values says how many parts it has: a small count is part of the byte that announces it,
and a larger one stands in more bytes behind another byte. -/
structure Header where
  /-- The byte of the count zero. -/
  fix : ℕ
  /-- The number of counts that are part of the byte. -/
  room : ℕ
  /-- The bytes that announce more of them, with their number. -/
  tags : List (UInt8 × ℕ)
  /-- The bytes with a count are bytes. -/
  le : fix + room ≤ 256
  /-- No other byte is among them. -/
  apart : ∀ b ∈ 0xc1 :: tags.map Prod.fst, ¬(fix ≤ b.toNat ∧ b.toNat < fix + room)
  /-- The other bytes differ. -/
  nodup : (0xc1 :: tags.map Prod.fst).Nodup

namespace Header

variable (h : Header)

/-- A count. One that no number of bytes can hold stands as a row of ones. -/
def count : Format ℕ where
  pack n :=
    if n < h.room then [UInt8.ofNat (h.fix + n)]
    else
      match h.tags.find? fun t => n < 256 ^ t.2 with
      | some t => t.1 :: packBytes t.2 n
      | none => 0xc1 :: packUnary n
  parse
    | [] => none
    | b :: bs =>
      if h.fix ≤ b.toNat ∧ b.toNat < h.fix + h.room then some (b.toNat - h.fix, bs)
      else
        match h.tags.find? fun t => t.1 = b with
        | some t => parseBytes t.2 bs
        | none => if b = 0xc1 then parseUnary bs else none

/-- A byte that announces others is found. -/
theorem find?_tag {t : UInt8 × ℕ} (ht : t ∈ h.tags) : (h.tags.find? fun u => u.1 = t.1) = some t := by
  cases hfind : h.tags.find? fun u => u.1 = t.1 with
  | none => exact absurd rfl (of_decide_eq_false (Bool.eq_false_iff.mpr (List.find?_eq_none.mp hfind t ht)))
  | some u =>
    have hu : u.1 = t.1 := by simpa using List.find?_some hfind
    have hmem := List.mem_of_find?_eq_some hfind
    rw [List.inj_on_of_nodup_map (List.nodup_cons.mp h.nodup).2 hmem ht hu]

/-- The byte of a row of ones is none of these. -/
theorem find?_unary : (h.tags.find? fun u => u.1 = 0xc1) = none := by
  rw [List.find?_eq_none]
  intro t ht heq
  refine (List.nodup_cons.mp h.nodup).1 ?_
  rw [← of_decide_eq_true heq]
  exact List.mem_map_of_mem ht

/-- A count is read back. -/
theorem count_selfDelimiting : h.count.SelfDelimiting where
  parse_pack n := by
    have hle := h.le
    unfold count
    dsimp only
    split_ifs with hroom
    · have hbyte : (UInt8.ofNat (h.fix + n)).toNat = h.fix + n := by
        rw [UInt8.toNat_ofNat']
        omega
      dsimp only
      rw [hbyte, if_pos ⟨Nat.le_add_right _ _, Nat.add_lt_add_left hroom _⟩, Nat.add_sub_cancel_left]
    cases hfind : h.tags.find? fun t => n < 256 ^ t.2 with
    | some t =>
      have ht := List.mem_of_find?_eq_some hfind
      have hlt : n < 256 ^ t.2 := by simpa using List.find?_some hfind
      dsimp only
      rw [if_neg (h.apart t.1 (List.mem_cons_of_mem _ (List.mem_map_of_mem ht))), h.find?_tag ht]
      simpa using parseBytes_packBytes hlt []
    | none =>
      dsimp only
      rw [if_neg (h.apart 0xc1 List.mem_cons_self), h.find?_unary]
      simpa using parseUnary_packUnary n []
  parse_append := by
    intro bs n rest hbs more
    cases bs with
    | nil => cases hbs
    | cons b bs =>
      simp only [count, List.cons_append] at hbs ⊢
      by_cases hfix : h.fix ≤ b.toNat ∧ b.toNat < h.fix + h.room
      · rw [if_pos hfix] at hbs ⊢
        cases hbs
        rfl
      rw [if_neg hfix] at hbs ⊢
      cases hfind : h.tags.find? fun t => t.1 = b with
      | some t =>
        rw [hfind] at hbs
        exact parseBytes_append hbs more
      | none =>
        rw [hfind] at hbs
        dsimp only at hbs ⊢
        split_ifs at hbs ⊢
        exact parseUnary_append hbs more

end Header

/-- The given count of values. -/
def parseMany (f : Format α) : ℕ → List UInt8 → Option (List α × List UInt8)
  | 0, bs => some ([], bs)
  | n + 1, bs => do
    let (a, bs) ← f.parse bs
    let (as, bs) ← parseMany f n bs
    return (a :: as, bs)

/-- A value and then more of them. -/
theorem parseMany_succ {f : Format α} {n : ℕ} {bs bs' bs'' : List UInt8} {a : α} {as : List α}
    (ha : f.parse bs = some (a, bs')) (has : parseMany f n bs' = some (as, bs'')) :
    parseMany f (n + 1) bs = some (a :: as, bs'') := by
  rw [parseMany, ha]
  show (parseMany f n bs').bind _ = _
  rw [has]
  rfl

/-- The values are read back. -/
theorem parseMany_pack {f : Format α} (hf : f.SelfDelimiting) (as : List α) :
    parseMany f as.length (as.flatMap f.pack) = some (as, []) := by
  induction as with
  | nil => rfl
  | cons a as ih =>
    rw [List.flatMap_cons, List.length_cons]
    exact parseMany_succ (hf.parse_pack_append a _) ih

/-- More bytes are left over. -/
theorem parseMany_append {f : Format α} (hf : f.SelfDelimiting) {n : ℕ} {bs rest : List UInt8} {as : List α}
    (h : parseMany f n bs = some (as, rest)) (more : List UInt8) :
    parseMany f n (bs ++ more) = some (as, rest ++ more) := by
  induction n generalizing bs as with
  | zero =>
    cases h
    rfl
  | succ n ih =>
    simp only [parseMany, Option.bind_eq_bind, Option.bind_eq_some_iff, Prod.exists] at h
    obtain ⟨a, bs', ha, as', rest', has, heq⟩ := h
    cases heq
    exact parseMany_succ (hf.parse_append ha more) (ih has)

/-- Values of one format, behind their count. -/
def Header.many (h : Header) (f : Format α) : Format (List α) where
  pack as := h.count.pack as.length ++ as.flatMap f.pack
  parse bs := (h.count.parse bs).bind fun p => parseMany f p.1 p.2

/-- Values of one format, behind their count in another one. -/
def Format.counted (c : Format ℕ) (f : Format α) : Format (List α) where
  pack as := c.pack as.length ++ as.flatMap f.pack
  parse bs := (c.parse bs).bind fun p => parseMany f p.1 p.2

/-- A list of values is read back. -/
theorem Format.SelfDelimiting.counted {c : Format ℕ} (hc : c.SelfDelimiting) {f : Format α}
    (hf : f.SelfDelimiting) : (c.counted f).SelfDelimiting where
  parse_pack as := by
    simp only [Format.counted]
    rw [hc.parse_pack_append]
    exact parseMany_pack hf as
  parse_append := by
    intro bs as rest has more
    simp only [Format.counted, Option.bind_eq_some_iff, Prod.exists] at has ⊢
    obtain ⟨n, bs', hn, has⟩ := has
    exact ⟨n, bs' ++ more, hc.parse_append hn more, parseMany_append hf has more⟩

/-- A list of values is read back. -/
theorem Header.many_selfDelimiting (h : Header) {f : Format α} (hf : f.SelfDelimiting) :
    (h.many f).SelfDelimiting := h.count_selfDelimiting.counted hf

/-- A byte, as a part of a string. -/
def byte : Format UInt8 where
  pack b := [b]
  parse
    | [] => none
    | b :: bs => some (b, bs)

/-- A byte is read back. -/
theorem byte_selfDelimiting : byte.SelfDelimiting where
  parse_pack _ := rfl
  parse_append := by
    intro bs b rest h more
    cases bs with
    | nil => cases h
    | cons b' bs =>
      cases h
      rfl

/-- Arrays. -/
def arrayHeader : Header :=
  { fix := 0x90, room := 16, tags := [(0xdc, 2), (0xdd, 4)], le := by decide, apart := by decide +kernel,
    nodup := by decide }

/-- Maps. -/
def mapHeader : Header :=
  { fix := 0x80, room := 16, tags := [(0xde, 2), (0xdf, 4)], le := by decide, apart := by decide +kernel,
    nodup := by decide }

/-- Strings. -/
def strHeader : Header :=
  { fix := 0xa0, room := 32, tags := [(0xd9, 1), (0xda, 2), (0xdb, 4)], le := by decide,
    apart := by decide +kernel, nodup := by decide }

/-! ## Objects of any type -/

/-- Bytes that are passed over. -/
def dropBytes (n : ℕ) (bs : List UInt8) : Option (List UInt8) :=
  if n ≤ bs.length then some (bs.drop n) else none

/-- The number of objects inside of the one that begins with a byte, and what follows the rest of its
beginning. -/
def openObject (b : UInt8) (bs : List UInt8) : Option (ℕ × List UInt8) :=
  let leaf (bs : Option (List UInt8)) : Option (ℕ × List UInt8) := bs.map fun bs => (0, bs)
  let data (n : ℕ) : Option (ℕ × List UInt8) := leaf ((parseBytes n bs).bind fun p => dropBytes p.1 p.2)
  let ext (n : ℕ) : Option (ℕ × List UInt8) := leaf ((parseBytes n bs).bind fun p => dropBytes (p.1 + 1) p.2)
  if b < 0x80 ∨ 0xe0 ≤ b then leaf bs
  else if b < 0x90 then some (2 * (b.toNat - 0x80), bs)
  else if b < 0xa0 then some (b.toNat - 0x90, bs)
  else if b < 0xc0 then leaf (dropBytes (b.toNat - 0xa0) bs)
  else if b = 0xc1 then none
  else if b < 0xc4 then leaf bs
  else if b < 0xc7 then data (2 ^ (b.toNat - 0xc4))
  else if b < 0xca then ext (2 ^ (b.toNat - 0xc7))
  else if b < 0xcc then leaf (dropBytes (4 * (b.toNat - 0xc9)) bs)
  else if b < 0xd0 then leaf (dropBytes (2 ^ (b.toNat - 0xcc)) bs)
  else if b < 0xd4 then leaf (dropBytes (2 ^ (b.toNat - 0xd0)) bs)
  else if b < 0xd9 then leaf (dropBytes (1 + 2 ^ (b.toNat - 0xd4)) bs)
  else if b < 0xdc then data (2 ^ (b.toNat - 0xd9))
  else if b < 0xde then parseBytes (2 ^ (b.toNat - 0xdb)) bs
  else (parseBytes (2 ^ (b.toNat - 0xdd)) bs).map fun p => (2 * p.1, p.2)

/-- Whether so many objects stand at the front of the bytes. Each of them has at least one byte. -/
def hasObjects : ℕ → ℕ → List UInt8 → Bool
  | _, 0, _ => true
  | 0, _ + 1, _ => false
  | _ + 1, _ + 1, [] => false
  | fuel + 1, n + 1, b :: bs =>
    match openObject b bs with
    | some (k, bs) => hasObjects fuel (n + k) bs
    | none => false

/-- Whether an object stands at the front of the bytes. -/
def isObject (bs : List UInt8) : Bool := hasObjects bs.length 1 bs

end Msgpack
