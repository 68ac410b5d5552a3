import Mathlib.Data.List.Chain
import Mathlib.Data.List.Infix
import RaftCpp.Library.Hex
import RaftCpp.Raft.Proto

/-!
# The names of log files

`wal_name`, `parse_wal_name`, `is_valid_seq`, `search_index` and the part of `open` that selects the files,
from `raft-kv/wal/wal.cpp`. A name is made of the sequence number of the file and the index of the first entry
that may be in it.
-/

namespace RaftCpp

/-- `'-'`. -/
def hyphen : UInt8 := 45

/-- `".wal"`. -/
def walExtension : Bytes := [46, 119, 97, 108]

/-- `wal_name`: `"%016lx-%016lx.wal"`. -/
def walName (seq index : UInt64) : Bytes :=
  Hex.padded 16 seq.toNat ++ hyphen :: (Hex.padded 16 index.toNat ++ walExtension)

/-- `boost::filesystem::path::extension`: the last component of a path from its last dot on. -/
def extension (path : Bytes) : Bytes :=
  let filename := (path.reverse.takeWhile (· ≠ 47)).reverse
  if filename = [46] ∨ filename = [46, 46] ∨ 46 ∉ filename then []
  else 46 :: (filename.reverse.takeWhile (· ≠ 46)).reverse

/-- The white space that a stream passes over. -/
def isSpace (b : UInt8) : Bool := b = 32 || (9 ≤ b && b ≤ 13)

/-- A sign in front of a number, which is negative behind `'-'`. -/
def takeSign : Bytes → Bool × Bytes
  | 45 :: bs => (true, bs)
  | 43 :: bs => (false, bs)
  | bs => (false, bs)

/-- `"0x"` or `"0X"` in front of the digits. -/
def dropBase : Bytes → Bytes
  | 48 :: 120 :: bs => bs
  | 48 :: 88 :: bs => bs
  | bs => bs

/-- What a stream that holds a string and reads hexadecimal numbers extracts into a `uint64_t` that is zero:
without a digit it stays zero, a number that does not fit becomes the largest one, and what follows the digits
is left. -/
def extractHex (str : Bytes) : UInt64 :=
  let (negative, bs) := takeSign (str.dropWhile isSpace)
  let n := Hex.value ((dropBase bs).takeWhile Hex.isDigit)
  if n < 2^64 then if negative then -UInt64.ofNat n else UInt64.ofNat n else UInt64.ofNat (2^64 - 1)

/-- `parse_wal_name`: whether it succeeds, and the numbers. -/
def parseWalName (name : Bytes) : Bool × UInt64 × UInt64 :=
  if extension name ≠ walExtension then (false, 0, 0)
  else
    let filename := name.take (name.length - 4)
    match filename.dropWhile (· ≠ hyphen) with
    | [] => (false, 0, 0)
    | _ :: str =>
      let seq := extractHex (filename.takeWhile (· ≠ hyphen))
      if str = [] then (false, seq, 0) else (true, seq, extractHex str)

/-! ## The grammar of names -/

/-- Bytes with a certain one among them, cut at the first one. -/
theorem eq_takeWhile_append {b : UInt8} {bs : Bytes} (h : b ∈ bs) :
    ∃ rest, bs = bs.takeWhile (· ≠ b) ++ b :: rest := by
  induction bs with
  | nil => exact absurd h List.not_mem_nil
  | cons b' bs ih =>
    by_cases hb : b' = b
    · subst hb
      rw [List.takeWhile_cons_of_neg (by simp)]
      exact ⟨bs, rfl⟩
    · obtain ⟨rest, hrest⟩ := ih ((List.mem_cons.mp h).resolve_left (Ne.symm hb))
      rw [List.takeWhile_cons_of_pos (by simpa using hb)]
      exact ⟨rest, congrArg (b' :: ·) hrest⟩

/-- A path has the extension if it ends with it. -/
theorem extension_eq_iff (name : Bytes) : extension name = walExtension ↔ walExtension <:+ name := by
  unfold extension
  dsimp only
  constructor
  · intro h
    split_ifs at h with hdots
    · cases h
    rw [not_or, not_or, not_not, List.mem_reverse] at hdots
    obtain ⟨-, -, hdot⟩ := hdots
    rw [List.reverse_reverse] at h
    -- The last component, from its end on.
    have hlast : (name.reverse.takeWhile (· ≠ 47)).takeWhile (· ≠ 46) = [108, 97, 119] :=
      List.reverse_eq_iff.mp (List.cons.inj h).2
    obtain ⟨rest, hrest⟩ := eq_takeWhile_append hdot
    rw [hlast] at hrest
    have hpath : [108, 97, 119] ++ 46 :: rest ++ name.reverse.dropWhile (· ≠ 47) = name.reverse := by
      rw [← hrest]
      exact List.takeWhile_append_dropWhile
    generalize name.reverse.dropWhile (· ≠ 47) = front at hpath
    refine ⟨(rest ++ front).reverse, ?_⟩
    rw [← List.reverse_inj, ← hpath]
    simp [walExtension]
  · rintro ⟨front, rfl⟩
    have hreverse : (front ++ walExtension).reverse = 108 :: 97 :: 119 :: 46 :: front.reverse := by
      rw [List.reverse_append]
      rfl
    have hlast : (108 :: 97 :: 119 :: 46 :: front.reverse).takeWhile (· ≠ (47 : UInt8)) =
        108 :: 97 :: 119 :: 46 :: front.reverse.takeWhile (· ≠ 47) := rfl
    rw [hreverse, hlast, if_neg, List.reverse_reverse]
    · rfl
    · rintro (h | h | h)
      · simpa using congrArg List.length h
      · simpa using congrArg List.length h
      · simp at h

/-- The shape of the names that are taken: anything before the first hyphen, and something behind it. -/
def Accepted (name : Bytes) : Prop :=
  ∃ front back : Bytes, name = front ++ hyphen :: (back ++ walExtension) ∧ hyphen ∉ front ∧ back ≠ []

/-- Digits of a number of 64 bits. -/
structure IsHex64 (ds : Bytes) : Prop where
  /-- There is a digit. -/
  ne_nil : ds ≠ []
  /-- There is nothing else. -/
  digits : ∀ d ∈ ds, Hex.isDigit d = true
  /-- The number fits. -/
  lt : Hex.value ds < 2^64

/-- The name is made of two numbers. -/
def IsNameOf (name : Bytes) (seq index : ℕ) : Prop :=
  ∃ front back : Bytes, name = front ++ hyphen :: (back ++ walExtension) ∧ IsHex64 front ∧ IsHex64 back ∧
    Hex.value front = seq ∧ Hex.value back = index

/-- What is taken is a name of two numbers, and they are the ones that it is made of. -/
def TakesOnlyNames (name : Bytes) : Prop :=
  ∀ seq index, parseWalName name = (true, seq, index) → IsNameOf name seq.toNat index.toNat

/-- No digit is a hyphen. -/
theorem hyphen_notMem {ds : Bytes} (h : ∀ d ∈ ds, Hex.isDigit d = true) : hyphen ∉ ds := fun hmem => by
  have hdigit := h _ hmem
  revert hdigit
  decide

/-- What has no hyphen is passed over to the next one. -/
theorem ne_of_notMem {bs : Bytes} (h : hyphen ∉ bs) : ∀ b ∈ bs, decide (b ≠ hyphen) = true := fun _ hb =>
  decide_eq_true fun heq => h (heq ▸ hb)

/-- How a name of that shape is read. -/
theorem parseWalName_of_shape {front : Bytes} (hfront : hyphen ∉ front) (back : Bytes) :
    parseWalName (front ++ hyphen :: (back ++ walExtension)) =
      if back = [] then (false, extractHex front, 0) else (true, extractHex front, extractHex back) := by
  have hext : extension (front ++ hyphen :: (back ++ walExtension)) = walExtension := by
    rw [extension_eq_iff]
    exact ⟨front ++ hyphen :: back, by simp⟩
  have hfilename : (front ++ hyphen :: (back ++ walExtension)).take
      ((front ++ hyphen :: (back ++ walExtension)).length - 4) = front ++ hyphen :: back := by
    have hassoc : front ++ hyphen :: (back ++ walExtension) = (front ++ hyphen :: back) ++ walExtension := by
      simp
    have hlength : (front ++ hyphen :: back ++ walExtension).length = (front ++ hyphen :: back).length + 4 :=
      List.length_append
    rw [hassoc, hlength, Nat.add_sub_cancel, List.take_left]
  have hne := ne_of_notMem hfront
  unfold parseWalName
  rw [if_neg (not_not.mpr hext), hfilename]
  dsimp only
  rw [List.dropWhile_append_of_pos hne, List.takeWhile_append_of_pos hne,
    List.dropWhile_cons_of_neg (by simp), List.takeWhile_cons_of_neg (by simp), List.append_nil]

/-- A digit is no white space. -/
theorem isSpace_of_isDigit {d : UInt8} (h : Hex.isDigit d = true) : isSpace d = false := by
  simp only [Hex.isDigit, Bool.or_eq_true, Bool.and_eq_true, decide_eq_true_eq, UInt8.le_iff_toNat_le,
    UInt8.reduceToNat] at h
  simp only [isSpace, Bool.or_eq_false_iff, Bool.and_eq_false_iff, decide_eq_false_iff_not,
    UInt8.le_iff_toNat_le, ← UInt8.toNat_inj, UInt8.reduceToNat]
  omega

/-- In front of digits there is nothing to pass over. -/
theorem dropBase_takeSign {ds : Bytes} (h : ∀ d ∈ ds, Hex.isDigit d = true) :
    takeSign (ds.dropWhile isSpace) = (false, ds) ∧ dropBase ds = ds := by
  have hplain : ∀ b ∈ [(45 : UInt8), 43, 120, 88], b ∉ ds := fun b hb hmem => by
    have hnot : ∀ b ∈ [(45 : UInt8), 43, 120, 88], Hex.isDigit b = false := by decide +kernel
    have hdigit := h b hmem
    rw [hnot b hb] at hdigit
    cases hdigit
  cases ds with
  | nil => exact ⟨rfl, rfl⟩
  | cons d ds =>
    rw [List.dropWhile_cons_of_neg (by simp [isSpace_of_isDigit (h d List.mem_cons_self)])]
    constructor
    · unfold takeSign
      split
      · next heq => exact absurd (by simp [heq]) (hplain 45 (by decide))
      · next heq => exact absurd (by simp [heq]) (hplain 43 (by decide))
      · rfl
    · unfold dropBase
      split
      · next heq => exact absurd (by simp [heq]) (hplain 120 (by decide))
      · next heq => exact absurd (by simp [heq]) (hplain 88 (by decide))
      · rfl

/-- Digits are extracted as their number. -/
theorem extractHex_digits {ds : Bytes} (h : IsHex64 ds) : (extractHex ds).toNat = Hex.value ds := by
  obtain ⟨hsign, hbase⟩ := dropBase_takeSign h.digits
  have hall : ds.takeWhile Hex.isDigit = ds := List.takeWhile_eq_self_iff.mpr h.digits
  unfold extractHex
  rw [hsign]
  dsimp only
  rw [hbase, hall, if_pos h.lt]
  exact UInt64.toNat_ofNat_of_lt' h.lt

/-- The digits of a number of 64 bits. -/
theorem isHex64_padded (n : UInt64) : IsHex64 (Hex.padded 16 n.toNat) where
  ne_nil h := by
    have hlength := congrArg List.length h
    rw [Hex.length_padded] at hlength
    cases hlength
  digits d hd := Hex.isDigit_of_mem_padded hd
  lt := by
    rw [Hex.value_padded n.toNat_lt]
    exact n.toNat_lt

/-- The numbers of a name are read back. -/
theorem parseWalName_walName (seq index : UInt64) : parseWalName (walName seq index) = (true, seq, index) := by
  have hread : ∀ n : UInt64, extractHex (Hex.padded 16 n.toNat) = n := fun n => by
    rw [← UInt64.toNat_inj, extractHex_digits (isHex64_padded n), Hex.value_padded n.toNat_lt]
  rw [walName, parseWalName_of_shape (hyphen_notMem (isHex64_padded seq).digits),
    if_neg (isHex64_padded index).ne_nil, hread, hread]

/-- The order of the names is that of the pairs. -/
theorem walName_lt_iff (seq index seq' index' : UInt64) :
    walName seq index < walName seq' index' ↔ seq < seq' ∨ (seq = seq' ∧ index < index') := by
  unfold walName
  rw [Hex.pair_lt_iff seq.toNat_lt index.toNat_lt seq'.toNat_lt index'.toNat_lt, UInt64.lt_iff_toNat_lt,
    UInt64.lt_iff_toNat_lt, UInt64.toNat_inj]

/-- What is taken has the shape of a name. -/
theorem accepted_of_parseWalName {name : Bytes} (h : (parseWalName name).1 = true) : Accepted name := by
  by_cases hext : extension name = walExtension
  · obtain ⟨filename, rfl⟩ := (extension_eq_iff name).mp hext
    by_cases hmem : hyphen ∈ filename
    · obtain ⟨back, hback⟩ := eq_takeWhile_append hmem
      generalize hfront : filename.takeWhile (· ≠ hyphen) = front at hback
      have hnotMem : hyphen ∉ front := fun hin => by
        rw [← hfront] at hin
        simpa using List.mem_takeWhile_imp hin
      subst hback
      rw [List.append_assoc, List.cons_append] at h ⊢
      rw [parseWalName_of_shape hnotMem] at h
      refine ⟨front, back, rfl, hnotMem, fun hnil => ?_⟩
      rw [if_pos hnil] at h
      cases h
    · have hlength : (filename ++ walExtension).length = filename.length + 4 := List.length_append
      have hdrop : filename.dropWhile (· ≠ hyphen) = [] := List.dropWhile_eq_nil_iff.mpr (ne_of_notMem hmem)
      unfold parseWalName at h
      rw [if_neg (not_not.mpr hext), hlength, Nat.add_sub_cancel, List.take_left] at h
      dsimp only at h
      rw [hdrop] at h
      cases h
  · unfold parseWalName at h
    rw [if_pos hext] at h
    cases h

/-- Only one pair of texts makes a name. -/
theorem shape_unique {front back front' back' : Bytes}
    (h : front ++ hyphen :: (back ++ walExtension) = front' ++ hyphen :: (back' ++ walExtension))
    (hfront : hyphen ∉ front) (hfront' : hyphen ∉ front') : front = front' ∧ back = back' := by
  have hfronts := congrArg (List.takeWhile (· ≠ hyphen)) h
  rw [List.takeWhile_append_of_pos (ne_of_notMem hfront), List.takeWhile_append_of_pos (ne_of_notMem hfront'),
    List.takeWhile_cons_of_neg (by simp), List.takeWhile_cons_of_neg (by simp), List.append_nil,
    List.append_nil] at hfronts
  subst hfronts
  exact ⟨rfl, List.append_cancel_right (List.cons.inj (List.append_cancel_left h)).2⟩

/-- The names are read back and sorted as their numbers are. What is taken is a name of two numbers, and they
are the ones that it is made of, if and only if it has no shape of a name or is one of two numbers. -/
theorem wal_names_iff (seq index seq' index' : UInt64) (name : Bytes) :
    parseWalName (walName seq index) = (true, seq, index) ∧
      (walName seq index < walName seq' index' ↔ seq < seq' ∨ (seq = seq' ∧ index < index')) ∧
      (TakesOnlyNames name ↔ (Accepted name → ∃ seq index, IsNameOf name seq index)) := by
  refine ⟨parseWalName_walName seq index, walName_lt_iff seq index seq' index', ?_⟩
  constructor
  · rintro h ⟨front, back, rfl, hfront, hback⟩
    have hparse := parseWalName_of_shape hfront back
    rw [if_neg hback] at hparse
    exact ⟨_, _, h _ _ hparse⟩
  · intro h seq index hparse
    obtain ⟨seq', index', front, back, rfl, hfront, hback, rfl, rfl⟩ :=
      h (accepted_of_parseWalName (congrArg Prod.fst hparse))
    rw [parseWalName_of_shape (hyphen_notMem hfront.digits), if_neg hback.ne_nil] at hparse
    obtain ⟨-, rfl, rfl⟩ := Prod.mk.inj hparse |>.imp_right Prod.mk.inj
    exact ⟨front, back, rfl, hfront, hback, (extractHex_digits hfront).symm, (extractHex_digits hback).symm⟩

/-- `"-5.wal"` is taken for the name of the first file. -/
theorem empty_number_taken : ¬∀ name, TakesOnlyNames name := by
  intro hall
  have hparse : parseWalName [45, 53, 46, 119, 97, 108] = (true, 0, 5) := by decide
  obtain ⟨front, back, hname, hfront, -⟩ := hall _ _ _ hparse
  have hshape : ([45, 53, 46, 119, 97, 108] : Bytes) = [] ++ hyphen :: ([53] ++ walExtension) := rfl
  obtain ⟨rfl, -⟩ := shape_unique (hname.symm.trans hshape) (hyphen_notMem hfront.digits) List.not_mem_nil
  exact hfront.ne_nil rfl

/-! ## Selecting the files -/

/-- What stops `open` with a `LOG_FATAL`. -/
inductive WALOpenFatal where
  /-- `"wal not found"`. -/
  | walNotFound
  /-- `"invalid wal seq"`. -/
  | invalidWalSeq
  /-- `"invalid wal name"`, or that a name should never fail. -/
  | invalidWalName (name : Bytes)
deriving DecidableEq, Repr

/-- A file that is opened, and its sequence number. -/
structure WALFileName where
  /-- The name. -/
  name : Bytes
  /-- The sequence number in the name. -/
  seq : UInt64
deriving DecidableEq, Repr

/-- The numbers of a name, which has to be one. -/
def numbersOf (name : Bytes) : Except WALOpenFatal (UInt64 × UInt64) :=
  match parseWalName name with
  | (true, numbers) => .ok numbers
  | (false, _) => .error (.invalidWalName name)

/-- The loop of `search_index`, with the count of the names that are left. It goes downwards. -/
def searchFrom (names : List Bytes) (index : UInt64) : ℕ → Except WALOpenFatal (Option ℕ)
  | 0 => .ok none
  | i + 1 => do
    let (_, curIndex) ← numbersOf (names.getD i [])
    if curIndex ≤ index then return some i else searchFrom names index i

/-- `search_index`. -/
def searchIndex (names : List Bytes) (index : UInt64) : Except WALOpenFatal (Option ℕ) :=
  searchFrom names index names.length

/-- The loop of `is_valid_seq`. A last sequence number of zero stands for none. -/
def isValidSeqFrom (lastSeq : UInt64) : List Bytes → Except WALOpenFatal Bool
  | [] => .ok true
  | name :: names => do
    let (curSeq, _) ← numbersOf name
    if lastSeq ≠ 0 ∧ lastSeq ≠ curSeq - 1 then return false else isValidSeqFrom curSeq names

/-- `is_valid_seq`. -/
def isValidSeq (names : List Bytes) : Except WALOpenFatal Bool := isValidSeqFrom 0 names

/-- The files that `open` opens, from the sorted names in the directory and the index of the snapshot. -/
def openFiles (names : List Bytes) (index : UInt64) : Except WALOpenFatal (List WALFileName) := do
  if names = [] then throw .walNotFound
  let some nameIndex ← searchIndex names index | throw .walNotFound
  let checkNames := names.drop nameIndex
  if !(← isValidSeq checkNames) then throw .invalidWalSeq
  checkNames.mapM fun name => do
    let (seq, _) ← numbersOf name
    return { name := name, seq := seq }

/-- The names of pairs of numbers. -/
def walNames (ps : List (UInt64 × UInt64)) : List Bytes := ps.map fun p => walName p.1 p.2

/-- The files with these names. -/
def filesOf (ps : List (UInt64 × UInt64)) : List WALFileName :=
  ps.map fun p => { name := walName p.1 p.2, seq := p.1 }

/-- The pairs from the last one on whose index is not after that of the snapshot. -/
def IsSelected (ps : List (UInt64 × UInt64)) (index : UInt64) (qs : List (UInt64 × UInt64)) : Prop :=
  ∃ p rest, qs = p :: rest ∧ qs <:+ ps ∧ p.2 ≤ index ∧ ∀ q ∈ rest, index < q.2

/-- The sequence numbers increase by one at each step. -/
def Continuous (ps : List (UInt64 × UInt64)) : Prop :=
  ps.IsChain fun p q => q.1.toNat = p.1.toNat + 1

/-- The log is opened if a name is selected and the sequence numbers are continuous from there on, and these
are the files. -/
def OpensContinuous (ps : List (UInt64 × UInt64)) (index : UInt64) : Prop :=
  ∀ files, openFiles (walNames ps) index = .ok files ↔
    ∃ qs, IsSelected ps index qs ∧ Continuous qs ∧ files = filesOf qs

/-- The numbers of a name that was made of them. -/
theorem numbersOf_walName (seq index : UInt64) : numbersOf (walName seq index) = .ok (seq, index) := by
  unfold numbersOf
  rw [parseWalName_walName]

/-- The selected pairs are the last ones. -/
theorem IsSelected.suffix {ps qs : List (UInt64 × UInt64)} {index : UInt64} (h : IsSelected ps index qs) :
    qs <:+ ps := by
  obtain ⟨_, _, rfl, hsuffix, -⟩ := h
  exact hsuffix

/-- Only one suffix is selected. -/
theorem IsSelected.unique {ps qs qs' : List (UInt64 × UInt64)} {index : UInt64} (h : IsSelected ps index qs)
    (h' : IsSelected ps index qs') : qs = qs' := by
  have hnot : ∀ {p p' : UInt64 × UInt64} {rest rest' : List (UInt64 × UInt64)}, p.2 ≤ index →
      (∀ q ∈ rest', index < q.2) → p :: rest <:+ p' :: rest' → p :: rest = p' :: rest' := by
    intro p p' rest rest' hp hrest hsuffix
    rcases List.suffix_cons_iff.mp hsuffix with heq | hin
    · exact heq
    · exact absurd (hrest p (hin.subset List.mem_cons_self)) (UInt64.not_lt.mpr hp)
  obtain ⟨p, rest, rfl, hsuffix, hp, hrest⟩ := h
  obtain ⟨p', rest', rfl, hsuffix', hp', hrest'⟩ := h'
  rcases List.suffix_or_suffix_of_suffix hsuffix hsuffix' with hle | hle
  · exact hnot hp hrest' hle
  · exact (hnot hp' hrest hle).symm

/-- What the loop finds among the names that are left. -/
theorem searchFrom_walNames (ps : List (UInt64 × UInt64)) (index : UInt64) {n : ℕ} (hn : n ≤ ps.length) :
    (∃ i, ∃ hi : i < n, searchFrom (walNames ps) index n = .ok (some i) ∧ (ps[i]).2 ≤ index ∧
      ∀ j, ∀ hj : j < n, i < j → index < (ps[j]).2) ∨
    (searchFrom (walNames ps) index n = .ok none ∧ ∀ j, ∀ hj : j < n, index < (ps[j]).2) := by
  induction n with
  | zero => exact Or.inr ⟨rfl, fun j hj => absurd hj (Nat.not_lt_zero j)⟩
  | succ n ih =>
    have hname : (walNames ps).getD n [] = walName (ps[n]).1 (ps[n]).2 := by
      simp [walNames, List.getD_eq_getElem?_getD, List.getElem?_eq_getElem (show n < ps.length from hn)]
    have hstep : searchFrom (walNames ps) index (n + 1) =
        if (ps[n]).2 ≤ index then .ok (some n) else searchFrom (walNames ps) index n := by
      rw [searchFrom, hname, numbersOf_walName]
      rfl
    rw [hstep]
    by_cases hle : (ps[n]).2 ≤ index
    · rw [if_pos hle]
      exact Or.inl ⟨n, Nat.lt_succ_self n, rfl, hle, fun j hj hlt => by omega⟩
    · rw [if_neg hle]
      have hlt : index < (ps[n]).2 := UInt64.not_le.mp hle
      rcases ih (Nat.le_of_succ_le hn) with ⟨i, hi, hfound, hile, hlater⟩ | ⟨hnone, hlater⟩
      · refine Or.inl ⟨i, Nat.lt_succ_of_lt hi, hfound, hile, fun j hj hij => ?_⟩
        rcases Nat.lt_succ_iff_lt_or_eq.mp hj with hj | rfl
        · exact hlater j hj hij
        · exact hlt
      · refine Or.inr ⟨hnone, fun j hj => ?_⟩
        rcases Nat.lt_succ_iff_lt_or_eq.mp hj with hj | rfl
        · exact hlater j hj
        · exact hlt

/-- What is found is where the selected names start. -/
theorem searchIndex_walNames (ps : List (UInt64 × UInt64)) (index : UInt64) :
    (∃ i, IsSelected ps index (ps.drop i) ∧ searchIndex (walNames ps) index = .ok (some i)) ∨
      ((∀ qs, ¬IsSelected ps index qs) ∧ searchIndex (walNames ps) index = .ok none) := by
  have hlength : (walNames ps).length = ps.length := List.length_map ..
  unfold searchIndex
  rw [hlength]
  rcases searchFrom_walNames ps index le_rfl with ⟨i, hi, hfound, hle, hlater⟩ | ⟨hnone, hlater⟩
  · refine Or.inl ⟨i, ⟨ps[i], ps.drop (i + 1), List.drop_eq_getElem_cons hi, List.drop_suffix i ps, hle,
      fun q hq => ?_⟩, hfound⟩
    obtain ⟨j, hj, rfl⟩ := List.getElem_of_mem hq
    rw [List.length_drop] at hj
    rw [List.getElem_drop]
    exact hlater (i + 1 + j) (by omega) (by omega)
  · refine Or.inr ⟨?_, hnone⟩
    rintro _ ⟨p, rest, rfl, hsuffix, hle, -⟩
    obtain ⟨j, hj, hp⟩ := List.getElem_of_mem (hsuffix.subset List.mem_cons_self)
    have hlt := hlater j hj
    rw [hp] at hlt
    exact absurd hlt (UInt64.not_lt.mpr hle)

/-- The check of the sequence numbers compares each of them with the last one, if that is not zero. -/
theorem isValidSeqFrom_walNames (lastSeq : UInt64) (ps : List (UInt64 × UInt64)) :
    isValidSeqFrom lastSeq (walNames ps) =
      .ok (decide ((lastSeq :: ps.map Prod.fst).IsChain fun a b => a ≠ 0 → a = b - 1)) := by
  induction ps generalizing lastSeq with
  | nil => simp [isValidSeqFrom, walNames]
  | cons p ps ih =>
    have hstep : isValidSeqFrom lastSeq (walNames (p :: ps)) =
        if lastSeq ≠ 0 ∧ lastSeq ≠ p.1 - 1 then .ok false else isValidSeqFrom p.1 (walNames ps) := by
      show isValidSeqFrom lastSeq (walName p.1 p.2 :: walNames ps) = _
      rw [isValidSeqFrom, numbersOf_walName]
      rfl
    rw [hstep, ih, List.map_cons]
    by_cases hskip : lastSeq ≠ 0 ∧ lastSeq ≠ p.1 - 1
    · rw [if_pos hskip]
      refine congrArg Except.ok (decide_eq_false fun h => ?_).symm
      exact hskip.2 ((List.isChain_cons_cons.mp h).1 hskip.1)
    · rw [if_neg hskip]
      refine congrArg Except.ok (decide_eq_decide.mpr ?_)
      rw [List.isChain_cons_cons]
      exact ⟨fun h => ⟨fun hne => not_not.mp fun hneq => hskip ⟨hne, hneq⟩, h⟩, And.right⟩

/-- The files that are opened have the names that were checked. -/
theorem mapM_walNames (ps : List (UInt64 × UInt64)) :
    (walNames ps).mapM (fun name => do
      let (seq, _) ← numbersOf name
      return ({ name := name, seq := seq } : WALFileName)) = .ok (filesOf ps) := by
  induction ps with
  | nil => rfl
  | cons p ps ih =>
    show (walName p.1 p.2 :: walNames ps).mapM _ = _
    rw [List.mapM_cons, numbersOf_walName, ih]
    rfl

/-- The sequence numbers pass the check. -/
def PassesCheck (ps : List (UInt64 × UInt64)) : Prop :=
  ps.IsChain fun p q => p.1 ≠ 0 → p.1 = q.1 - 1

instance (ps : List (UInt64 × UInt64)) : Decidable (PassesCheck ps) :=
  inferInstanceAs (Decidable (ps.IsChain _))

/-- Nothing is compared with the first one. -/
theorem isValidSeq_walNames (ps : List (UInt64 × UInt64)) :
    isValidSeq (walNames ps) = .ok (decide (PassesCheck ps)) := by
  rw [isValidSeq, isValidSeqFrom_walNames]
  refine congrArg Except.ok (decide_eq_decide.mpr ?_)
  rw [List.isChain_cons, List.isChain_map]
  exact ⟨And.right, fun h => ⟨fun _ _ hne => absurd rfl hne, h⟩⟩

/-- What is opened. -/
theorem openFiles_walNames {ps : List (UInt64 × UInt64)} (hne : ps ≠ []) (index : UInt64) :
    (∃ qs, IsSelected ps index qs ∧ openFiles (walNames ps) index =
      if PassesCheck qs then .ok (filesOf qs) else .error .invalidWalSeq) ∨
    ((∀ qs, ¬IsSelected ps index qs) ∧ openFiles (walNames ps) index = .error .walNotFound) := by
  have hnames : walNames ps ≠ [] := fun h => hne (List.map_eq_nil_iff.mp h)
  unfold openFiles
  rw [if_neg hnames]
  rcases searchIndex_walNames ps index with ⟨i, hselected, hfound⟩ | ⟨hnone, hnotFound⟩
  · refine Or.inl ⟨ps.drop i, hselected, ?_⟩
    have hdrop : (walNames ps).drop i = walNames (ps.drop i) := List.map_drop.symm
    rw [hfound]
    show ((isValidSeq ((walNames ps).drop i) >>= _ : Except _ _)) = _
    rw [hdrop, isValidSeq_walNames]
    by_cases hpasses : PassesCheck (ps.drop i)
    · rw [if_pos hpasses, decide_eq_true hpasses]
      exact mapM_walNames _
    · rw [if_neg hpasses, decide_eq_false hpasses]
      rfl
  · refine Or.inr ⟨hnone, ?_⟩
    rw [hnotFound]
    rfl

/-- Among sorted names the numbers that pass the check are one after the other, except behind a zero. -/
theorem passesCheck_iff {ps : List (UInt64 × UInt64)} (hsorted : ps.Pairwise fun p q => p.1 ≤ q.1) :
    PassesCheck ps ↔ ps.IsChain fun p q => p.1 ≠ 0 → q.1.toNat = p.1.toNat + 1 := by
  unfold PassesCheck
  rw [List.isChain_iff_getElem, List.isChain_iff_getElem]
  refine forall_congr' fun i => forall_congr' fun hi => forall_congr' fun hne => ?_
  have hle := UInt64.le_iff_toNat_le.mp
    (List.pairwise_iff_getElem.mp hsorted i (i + 1) (by omega) hi (by omega))
  have hpos : (ps[i]).1.toNat ≠ 0 := fun h => hne (UInt64.toNat_inj.mp h)
  have hlt := (ps[i + 1]).1.toNat_lt
  rw [← UInt64.toNat_inj, UInt64.toNat_sub_of_le]
  · rw [UInt64.toNat_one]
    omega
  · rw [UInt64.le_iff_toNat_le, UInt64.toNat_one]
    omega

/-- The numbers are one after the other if they are so behind a zero, and behind the others. -/
theorem continuous_iff (ps : List (UInt64 × UInt64)) :
    Continuous ps ↔ (ps.IsChain fun p q => p.1 = 0 → q.1 = 1) ∧
      ps.IsChain fun p q => p.1 ≠ 0 → q.1.toNat = p.1.toNat + 1 := by
  unfold Continuous
  rw [List.isChain_iff_getElem, List.isChain_iff_getElem, List.isChain_iff_getElem]
  have hzero : ∀ n : UInt64, n = 0 ↔ n.toNat = 0 := fun n => UInt64.toNat_inj.symm
  have hone : ∀ n : UInt64, n = 1 ↔ n.toNat = 1 := fun n => UInt64.toNat_inj.symm
  constructor
  · intro h
    refine ⟨fun i hi h0 => ?_, fun i hi _ => h i hi⟩
    rw [hone, h i hi, (hzero _).mp h0]
  · rintro ⟨hbehindZero, hbehind⟩ i hi
    by_cases h0 : (ps[i]).1 = 0
    · rw [(hone _).mp (hbehindZero i hi h0), (hzero _).mp h0]
    · exact hbehind i hi h0

/-- From the names of a directory the continuous files of the snapshot are opened if and only if, behind
a selected name with the sequence number zero, the next one has the number one, or the numbers are not
continuous elsewhere. -/
theorem opens_continuous_iff {ps : List (UInt64 × UInt64)} (hne : ps ≠ [])
    (hsorted : (walNames ps).Pairwise (· ≤ ·)) (index : UInt64) :
    OpensContinuous ps index ↔ ∀ qs, IsSelected ps index qs →
      (qs.IsChain fun p q => p.1 = 0 → q.1 = 1) ∨
        ¬qs.IsChain fun p q => p.1 ≠ 0 → q.1.toNat = p.1.toNat + 1 := by
  have hseqs : ps.Pairwise fun p q => p.1 ≤ q.1 := by
    refine (List.pairwise_map.mp hsorted).imp fun {p q} hle => UInt64.not_lt.mp fun hlt => ?_
    exact hle ((walName_lt_iff ..).mpr (Or.inl hlt))
  rcases openFiles_walNames hne index with ⟨qs, hselected, hopen⟩ | ⟨hnone, hopen⟩
  · have hchecked := passesCheck_iff (hseqs.sublist hselected.suffix.sublist)
    constructor
    · intro h qs' hselected'
      obtain rfl := hselected.unique hselected'
      by_cases hpasses : PassesCheck qs
      · rw [if_pos hpasses] at hopen
        obtain ⟨qs', hselected', hcontinuous, -⟩ := (h _).mp hopen
        obtain rfl := hselected.unique hselected'
        exact Or.inl ((continuous_iff qs).mp hcontinuous).1
      · exact Or.inr fun hchain => hpasses (hchecked.mpr hchain)
    · intro h files
      constructor
      · intro hfiles
        by_cases hpasses : PassesCheck qs
        · rw [if_pos hpasses] at hopen
          cases hopen.symm.trans hfiles
          have hchain := hchecked.mp hpasses
          refine ⟨qs, hselected, (continuous_iff qs).mpr ⟨?_, hchain⟩, rfl⟩
          exact (h qs hselected).resolve_right (not_not.mpr hchain)
        · rw [if_neg hpasses] at hopen
          cases hopen.symm.trans hfiles
      · rintro ⟨qs', hselected', hcontinuous, rfl⟩
        obtain rfl := hselected.unique hselected'
        rw [hopen, if_pos (hchecked.mpr ((continuous_iff qs).mp hcontinuous).2)]
  · constructor
    · intro _ qs hselected
      exact absurd hselected (hnone qs)
    · intro _ files
      constructor
      · intro hfiles
        cases hopen.symm.trans hfiles
      · rintro ⟨qs, hselected, -⟩
        exact absurd hselected (hnone qs)

/-- Two files, the second one behind the first one. -/
theorem opens_continuous_iff_two : [((0 : UInt64), (0 : UInt64)), (1, 7)] ≠ [] ∧
    OpensContinuous [(0, 0), (1, 7)] 3 := by
  have hsorted : (walNames [(0, 0), (1, 7)]).Pairwise (· ≤ ·) := by decide +kernel
  refine ⟨by decide, (opens_continuous_iff (by decide) hsorted 3).mpr ?_⟩
  intro qs hselected
  left
  refine List.IsChain.suffix ?_ hselected.suffix
  decide

/-- The files between the first one and the sixth one are not missed. -/
theorem gap_opened : ¬∀ ps : List (UInt64 × UInt64), ps ≠ [] → (walNames ps).Pairwise (· ≤ ·) →
    ∀ index, OpensContinuous ps index := by
  intro hall
  have hopen : openFiles (walNames [(0, 0), (5, 7)]) 3 = .ok (filesOf [(0, 0), (5, 7)]) := by decide +kernel
  obtain ⟨qs, hselected, hcontinuous, hfiles⟩ :=
    (hall [(0, 0), (5, 7)] (by decide) (by decide +kernel) 3 _).mp hopen
  have hlength : qs.length = 2 := by
    have heq := congrArg List.length hfiles
    rw [filesOf, filesOf, List.length_map, List.length_map] at heq
    exact heq.symm
  obtain rfl := hselected.suffix.eq_of_length hlength
  revert hcontinuous
  unfold Continuous
  decide

end RaftCpp
