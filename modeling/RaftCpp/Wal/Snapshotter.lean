import Mathlib.Data.List.Sort
import RaftCpp.Wal.Record

/-!
# The snapshot files

`Snapshotter` of `raft-kv/snap/snapshotter.h` and `raft-kv/snap/snapshotter.cpp`. The name of a file is
made of the term and the index of the snapshot, as two numbers of sixteen hexadecimal digits, so that the
order of the names is that of the pairs.
-/

namespace RaftCpp

/-- A file of the snapshot directory. -/
structure SnapFile where
  /-- The first number of the name. -/
  term : ℕ
  /-- The second number of the name. -/
  index : ℕ
  /-- The bytes. -/
  content : Bytes
deriving DecidableEq, Repr

/-- Whether the name of a file stands behind that of another one, or is the same. -/
def SnapFile.After (f g : SnapFile) : Prop := g.term < f.term ∨ (g.term = f.term ∧ g.index ≤ f.index)

instance (f g : SnapFile) : Decidable (f.After g) :=
  inferInstanceAs (Decidable (g.term < f.term ∨ (g.term = f.term ∧ g.index ≤ f.index)))

instance : Std.Total SnapFile.After where
  total f g := by
    unfold SnapFile.After
    omega

instance : IsTrans SnapFile SnapFile.After where
  trans f g h := by
    unfold SnapFile.After
    omega

namespace Snapshotter

/-- The codec of a snapshot, and the checksum. -/
structure Format where
  /-- The snapshots. -/
  snapshot : Codec Snapshot
  /-- `compute_crc32`. -/
  crc32 : Bytes → UInt32

variable (F : Format)

/-- The bytes of a snapshot file: a header with the length and the checksum, and the snapshot. -/
def fileBytes (snapshot : Snapshot) : Bytes :=
  let data := F.snapshot.pack snapshot
  LittleEndian.encode 4 (data.length % 2^32) ++ LittleEndian.encode 4 (F.crc32 data).toNat ++
    data.take (data.length % 2^32)

/-- `save_snap`: the file is written and closed. -/
def saveSnap (files : List SnapFile) (snapshot : Snapshot) : List SnapFile :=
  let term := snapshot.metadata.term
  let index := snapshot.metadata.index
  files.filter (fun f => ¬(f.term = term ∧ f.index = index)) ++
    [{ term := term, index := index, content := fileBytes F snapshot }]

/-- `load_snap`, on the bytes of the file. -/
def loadSnap (content : Bytes) : Option Snapshot :=
  if content.length < 8 then none
  else
    let len := LittleEndian.decode (content.take 4)
    let crc := LittleEndian.decode ((content.drop 4).take 4)
    if len = 0 ∨ crc = 0 then none
    else
      let data := (content.drop 8).take len
      if data.length ≠ len then none
      else if (F.crc32 data).toNat ≠ crc then none
      else F.snapshot.unpack data

/-- `get_snap_names`: the last name first. -/
def getSnapNames (files : List SnapFile) : List SnapFile := files.insertionSort SnapFile.After

/-- The loop of `load`: a file that is broken is renamed, and the next one is tried. -/
def loadFirst : List SnapFile → Option Snapshot × List SnapFile
  | [] => (none, [])
  | f :: files =>
    match loadSnap F f.content with
    | some snapshot => (some snapshot, f :: files)
    | none => loadFirst files

/-- `load`: the snapshot of the last file that is not broken, and the files that are left. -/
def load (files : List SnapFile) : Option Snapshot × List SnapFile := loadFirst F (getSnapNames files)

/-! ## The newest snapshot -/

/-- The file of a snapshot can be told from a broken one. -/
structure Readable (snapshot : Snapshot) : Prop where
  /-- The snapshot can be unpacked. -/
  unpack : F.snapshot.unpack (F.snapshot.pack snapshot) = some snapshot
  /-- Its length can be recorded, and is not taken for that of no data. -/
  length : 0 < (F.snapshot.pack snapshot).length ∧ (F.snapshot.pack snapshot).length < 2^32
  /-- Its checksum is not taken for that of no data. -/
  crc32 : F.crc32 (F.snapshot.pack snapshot) ≠ 0

/-- What is loaded from the files: nothing if there are none, or the snapshot of the last file. -/
def Newest (files : List SnapFile) : Option Snapshot → Prop
  | none => files = []
  | some snapshot => ∃ f ∈ files, loadSnap F f.content = some snapshot ∧
      f.term = snapshot.metadata.term ∧ f.index = snapshot.metadata.index ∧
      ∀ g ∈ files, g ≠ f → ¬ g.After f

variable {F}

/-- What is read from a file with a whole header. -/
theorem loadSnap_header {len crc : ℕ} (hlen : len < 2^32) (hcrc : crc < 2^32) (bytes : Bytes) :
    loadSnap F (LittleEndian.encode 4 len ++ (LittleEndian.encode 4 crc ++ bytes)) =
      if len = 0 ∨ crc = 0 then none
      else if (bytes.take len).length ≠ len then none
      else if (F.crc32 (bytes.take len)).toNat ≠ crc then none
      else F.snapshot.unpack (bytes.take len) := by
  have hdrop : (LittleEndian.encode 4 len ++ (LittleEndian.encode 4 crc ++ bytes)).drop 8 = bytes := by
    rw [show 8 = 4 + 4 from rfl, ← List.drop_drop, List.drop_left' (LittleEndian.length_encode _ _)]
    exact List.drop_left' (LittleEndian.length_encode _ _)
  have hlong : ¬(LittleEndian.encode 4 len ++ (LittleEndian.encode 4 crc ++ bytes)).length < 8 := by
    simp only [List.length_append, LittleEndian.length_encode]
    omega
  rw [loadSnap, if_neg hlong]
  dsimp only
  rw [hdrop, List.take_left' (LittleEndian.length_encode _ _),
    List.drop_left' (LittleEndian.length_encode _ _), List.take_left' (LittleEndian.length_encode _ _),
    LittleEndian.decode_encode (by omega), LittleEndian.decode_encode (by omega)]

/-- The file of a readable snapshot is read back. -/
theorem loadSnap_fileBytes {snapshot : Snapshot} (h : Readable F snapshot) :
    loadSnap F (fileBytes F snapshot) = some snapshot := by
  obtain ⟨hpos, hlt⟩ := h.length
  have hcrc := (F.crc32 (F.snapshot.pack snapshot)).toNat_lt
  have hne : (F.crc32 (F.snapshot.pack snapshot)).toNat ≠ 0 := fun h0 =>
    h.crc32 (UInt32.toNat_inj.mp h0)
  rw [fileBytes, Nat.mod_eq_of_lt hlt, List.append_assoc, loadSnap_header hlt hcrc, List.take_length,
    List.take_length, if_neg (by omega), if_neg (not_not.mpr rfl), if_neg (not_not.mpr rfl), h.unpack]

/-- What is loaded is the newest snapshot, and no file is lost. -/
theorem load_of_newest {files : List SnapFile} {s : Option Snapshot} (h : Newest F files s) :
    (load F files).1 = s ∧ Newest F (load F files).2 s := by
  cases s with
  | none =>
    cases h
    exact ⟨rfl, rfl⟩
  | some snapshot =>
    obtain ⟨f, hf, hload, hterm, hindex, hlast⟩ := h
    have hperm := List.perm_insertionSort SnapFile.After files
    have hsorted := List.pairwise_insertionSort SnapFile.After files
    -- The last name comes first, and that is the one of the newest snapshot.
    obtain ⟨g, rest, hg⟩ : ∃ g rest, files.insertionSort SnapFile.After = g :: rest := by
      apply List.exists_cons_of_ne_nil
      rintro hnil
      rw [hnil] at hperm
      rw [hperm.symm.eq_nil] at hf
      cases hf
    rw [hg] at hperm hsorted
    have hgf : g = f := by
      by_contra hne
      rcases List.mem_cons.mp (hperm.symm.mem_iff.mp hf) with rfl | hrest
      · exact hne rfl
      · exact hlast g (hperm.mem_iff.mp List.mem_cons_self) hne
          (List.rel_of_pairwise_cons hsorted hrest)
    subst hgf
    have hfirst : load F files = (some snapshot, g :: rest) := by
      rw [load, getSnapNames, hg, loadFirst, hload]
    rw [hfirst]
    exact ⟨rfl, g, List.mem_cons_self, hload, hterm, hindex,
      fun g' hg' => hlast g' (hperm.mem_iff.mp hg')⟩

/-- A readable snapshot that is not behind the newest one is the newest one once it is saved. -/
theorem newest_saveSnap {files : List SnapFile} {s : Option Snapshot} (h : Newest F files s)
    {snapshot : Snapshot} (hread : Readable F snapshot)
    (hterm : ∀ s₀, s = some s₀ → s₀.metadata.term ≤ snapshot.metadata.term)
    (hindex : ∀ s₀, s = some s₀ → s₀.metadata.index ≤ snapshot.metadata.index) :
    Newest F (saveSnap F files snapshot) (some snapshot) := by
  refine ⟨_, List.mem_append_right _ (List.mem_singleton_self _), loadSnap_fileBytes hread, rfl, rfl,
    fun g hg hne => ?_⟩
  rcases List.mem_append.mp hg with hg | hg
  · obtain ⟨hmem, hname⟩ := List.mem_filter.mp hg
    rw [decide_eq_true_eq] at hname
    cases s with
    | none =>
      rw [h] at hmem
      cases hmem
    | some s₀ =>
      have hterm := hterm s₀ rfl
      have hindex := hindex s₀ rfl
      obtain ⟨f, hf, -, hft, hfi, hlast⟩ := h
      unfold SnapFile.After at hlast ⊢
      dsimp only
      by_cases hgf : g = f
      · subst hgf
        omega
      · have := hlast g hmem hgf
        omega
  · exact absurd (List.mem_singleton.mp hg) hne

/-! ## Any files -/

/-- The first file that is not broken is loaded. -/
theorem loadFirst_eq (files : List SnapFile) :
    (loadFirst F files).1 = files.findSome? fun f => loadSnap F f.content := by
  induction files with
  | nil => rfl
  | cons f files ih =>
    rw [List.findSome?_cons]
    unfold loadFirst
    cases loadSnap F f.content with
    | some snapshot => rfl
    | none => exact ih

/-- Nothing is loaded if all files are broken. -/
theorem load_eq_none_iff (files : List SnapFile) :
    (load F files).1 = none ↔ ∀ f ∈ files, loadSnap F f.content = none := by
  have hperm := List.perm_insertionSort SnapFile.After files
  rw [load, loadFirst_eq, getSnapNames, List.findSome?_eq_none_iff]
  exact forall_congr' fun f => by rw [hperm.mem_iff]

/-- What is loaded is in a file that is not before any other one that is not broken. -/
theorem exists_of_load {files : List SnapFile} {s : Snapshot} (h : (load F files).1 = some s) :
    ∃ f ∈ files, loadSnap F f.content = some s ∧
      ∀ g ∈ files, (loadSnap F g.content).isSome → f.After g := by
  have hperm := List.perm_insertionSort SnapFile.After files
  have hsorted := List.pairwise_insertionSort SnapFile.After files
  rw [load, loadFirst_eq, getSnapNames, List.findSome?_eq_some_iff] at h
  obtain ⟨before, f, later, hsplit, hload, hbroken⟩ := h
  rw [hsplit] at hperm hsorted
  refine ⟨f, hperm.mem_iff.mp (by simp), hload, fun g hg hsome => ?_⟩
  rcases List.mem_append.mp (hperm.mem_iff.mpr hg) with hbefore | hlater
  · rw [hbroken g hbefore] at hsome
    cases hsome
  · obtain rfl | hlater := List.mem_cons.mp hlater
    · exact (Std.Total.total (r := SnapFile.After) g g).elim id id
    · exact List.rel_of_pairwise_cons (List.pairwise_append.mp hsorted).2.1 hlater

/-- The names of the files are different, and tell the positions of the snapshots in those that are not
broken. -/
structure Named (F : Format) (files : List SnapFile) : Prop where
  /-- The names are different. -/
  nodup : (files.map fun f => (f.term, f.index)).Nodup
  /-- They tell the positions. -/
  position : ∀ f ∈ files, ∀ s, loadSnap F f.content = some s →
    f.term = s.metadata.term ∧ f.index = s.metadata.index

/-- A file is known by its name. -/
theorem Named.eq_of_name {files : List SnapFile} (h : Named F files) {f g : SnapFile} (hf : f ∈ files)
    (hg : g ∈ files) (hterm : f.term = g.term) (hindex : f.index = g.index) : f = g :=
  List.inj_on_of_nodup_map h.nodup hf hg (Prod.ext hterm hindex)

/-- Nothing is saved yet. -/
theorem named_nil : Named F [] := ⟨List.nodup_nil, fun _ hf => absurd hf List.not_mem_nil⟩

/-- The files that are left when some are not broken are the last ones by name. -/
theorem loadFirst_suffix (files : List SnapFile) : (loadFirst F files).2 <:+ files := by
  induction files with
  | nil => exact List.suffix_refl []
  | cons f files ih =>
    unfold loadFirst
    cases loadSnap F f.content with
    | some s => exact List.suffix_refl _
    | none => exact ih.trans (List.suffix_cons f files)

/-- What is loaded is not broken, and is the first of the files that are left. -/
theorem loadFirst_spec (files : List SnapFile) :
    (loadFirst F files).1 = (loadFirst F files).2.findSome? fun f => loadSnap F f.content := by
  induction files with
  | nil => rfl
  | cons f files ih =>
    unfold loadFirst
    cases hf : loadSnap F f.content with
    | some s => rw [List.findSome?_cons, hf]
    | none => exact ih

/-- The files that are left have their names. -/
theorem Named.load {files : List SnapFile} (h : Named F files) : Named F (load F files).2 := by
  have hperm := List.perm_insertionSort SnapFile.After files
  have hsub := (loadFirst_suffix (F := F) (getSnapNames files)).sublist
  constructor
  · refine (hsub.map _).nodup ?_
    exact ((hperm.map _).nodup_iff).mpr h.nodup
  · exact fun f hf => h.position f (hperm.mem_iff.mp (hsub.subset hf))

/-- The same snapshot is loaded from them again. -/
theorem load_load (files : List SnapFile) : (Snapshotter.load F (load F files).2).1 = (load F files).1 := by
  have hsorted : (load F files).2.Pairwise SnapFile.After :=
    (List.pairwise_insertionSort SnapFile.After files).sublist (loadFirst_suffix (getSnapNames files)).sublist
  rw [load, loadFirst_eq, getSnapNames, hsorted.insertionSort_eq]
  exact (loadFirst_spec _).symm

/-- A file that is not read as another snapshot. -/
def Faithful (F : Format) (s : Snapshot) : Prop :=
  loadSnap F (fileBytes F s) = none ∨ loadSnap F (fileBytes F s) = some s

instance (s : Snapshot) : Decidable (Faithful F s) := inferInstanceAs (Decidable (_ ∨ _))

/-- A saved snapshot has a file with its name. -/
theorem Named.saveSnap {files : List SnapFile} (h : Named F files) {s : Snapshot} (hs : Faithful F s) :
    Named F (saveSnap F files s) := by
  constructor
  · unfold Snapshotter.saveSnap
    dsimp only
    rw [List.map_append, List.nodup_append]
    refine ⟨(List.filter_sublist.map _).nodup h.nodup, List.nodup_singleton _, ?_⟩
    rintro p hp q hq rfl
    obtain ⟨f, hf, hfp⟩ := List.mem_map.mp hp
    obtain ⟨-, hname⟩ := List.mem_filter.mp hf
    rw [decide_eq_true_eq] at hname
    have heq := hfp.trans (List.mem_singleton.mp hq)
    exact hname ⟨congrArg Prod.fst heq, congrArg Prod.snd heq⟩
  · intro f hf s' hs'
    obtain hf | hf := List.mem_append.mp hf
    · exact h.position f (List.mem_filter.mp hf).1 s' hs'
    · obtain rfl := List.mem_singleton.mp hf
      dsimp only at hs' ⊢
      obtain hnone | hsome := hs
      · rw [hnone] at hs'
        cases hs'
      · rw [hsome] at hs'
        cases hs'
        exact ⟨rfl, rfl⟩

/-- After a snapshot of a higher index is saved, it is loaded, or what was loaded before still is. -/
theorem Named.load_saveSnap {files : List SnapFile} (h : Named F files) {s : Snapshot} (hs : Faithful F s)
    (hindex : ∀ s₀ ∈ (Snapshotter.load F files).1, s₀.metadata.index < s.metadata.index) :
    (Snapshotter.load F (Snapshotter.saveSnap F files s)).1 = (Snapshotter.load F files).1 ∨
      (Snapshotter.load F (Snapshotter.saveSnap F files s)).1 = some s := by
  have hnamed := h.saveSnap hs
  -- The file that was loaded before is still there.
  have hkept : ∀ s₀ ∈ (Snapshotter.load F files).1, ∃ f ∈ files, f ∈ Snapshotter.saveSnap F files s ∧
      loadSnap F f.content = some s₀ ∧ ∀ g ∈ files, (loadSnap F g.content).isSome → f.After g := by
    intro s₀ hs₀
    obtain ⟨f, hf, hload, hafter⟩ := exists_of_load hs₀
    refine ⟨f, hf, List.mem_append_left _ (List.mem_filter.mpr ⟨hf, ?_⟩), hload, hafter⟩
    have hlt := hindex s₀ hs₀
    have hposition := h.position f hf s₀ hload
    rw [decide_eq_true_eq]
    omega
  cases hloaded : (Snapshotter.load F (Snapshotter.saveSnap F files s)).1 with
  | none =>
    rw [load_eq_none_iff] at hloaded
    refine Or.inl (Option.eq_none_iff_forall_not_mem.mpr fun s₀ hs₀ => ?_).symm
    obtain ⟨f, -, hf, hload, -⟩ := hkept s₀ hs₀
    rw [hloaded f hf] at hload
    cases hload
  | some s' =>
    obtain ⟨f, hf, hload, hafter⟩ := exists_of_load hloaded
    obtain hold | hnew := List.mem_append.mp hf
    · have hfold := (List.mem_filter.mp hold).1
      cases hbefore : (Snapshotter.load F files).1 with
      | none =>
        rw [(load_eq_none_iff files).mp hbefore f hfold] at hload
        cases hload
      | some s₀ =>
        -- The file that was loaded before is not behind this one, nor is this one behind it.
        obtain ⟨g, hg, hgkept, hgload, hgafter⟩ := hkept s₀ hbefore
        have hfg := hafter g hgkept (by rw [hgload]; rfl)
        have hgf := hgafter f hfold (by rw [hload]; rfl)
        unfold SnapFile.After at hfg hgf
        obtain rfl := h.eq_of_name hfold hg (by omega) (by omega)
        exact Or.inl (hload.symm.trans hgload)
    · obtain rfl := List.mem_singleton.mp hnew
      dsimp only at hload
      obtain hnone | hsome := hs
      · rw [hnone] at hload
        cases hload
      · exact Or.inr (hload.symm.trans hsome)

end Snapshotter

end RaftCpp
