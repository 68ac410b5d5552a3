import Mathlib.Data.List.MinMax
import Mathlib.Data.Prod.Lex
import RaftCpp.Server.Formats
import RaftCpp.Wal.Names

/-!
# Falling back to an older snapshot

`Snapshotter::load` reads the snapshot files from the last name on, and takes the first one that is not broken.
What it should find is the newest snapshot among those that were written completely.
-/

namespace RaftCpp

namespace Snapshotter

variable (F : Format)

/-- The position of a snapshot in the order of terms and indices. -/
def position (s : Snapshot) : ℕ ×ₗ ℕ := toLex (s.metadata.term, s.metadata.index)

/-- `".snap"`. -/
def snapExtension : Bytes := [46, 115, 110, 97, 112]

/-- `snap_name`: `"%016lx-%016lx.snap"`. -/
def snapName (term index : ℕ) : Bytes :=
  Hex.padded 16 term ++ hyphen :: (Hex.padded 16 index ++ snapExtension)

/-- The file of a snapshot. -/
def fileOf (s : Snapshot) : SnapFile :=
  { term := s.metadata.term, index := s.metadata.index, content := fileBytes F s }

/-- The files after snapshots were saved one after the other. -/
def savedFiles (saves : List Snapshot) : List SnapFile := saves.foldl (saveSnap F) []

/-- The last file is cut, if it is longer. -/
def cutLast (k : ℕ) (files : List SnapFile) : List SnapFile :=
  files.dropLast ++ files.getLast?.toList.map fun f => { f with content := f.content.take k }

/-- The snapshots that were written completely, if the last file was cut. -/
def completed (k : ℕ) (saves : List Snapshot) : List Snapshot :=
  saves.dropLast ++ saves.getLast?.toList.filter fun s => (fileBytes F s).length ≤ k

/-- What is loaded is the newest snapshot of those that were written completely, and nothing only if there is
none. -/
def LoadsNewest (saves : List Snapshot) (k : ℕ) : Prop :=
  (load F (cutLast k (savedFiles F saves))).1 = (completed F k saves).argmax position

/-- The checksum of a part of the bytes is not that of the whole. -/
def NoCollision (s : Snapshot) : Prop :=
  ∀ n, 0 < n → n < (F.snapshot.pack s).length →
    F.crc32 ((F.snapshot.pack s).take n) ≠ F.crc32 (F.snapshot.pack s)

variable {F}

/-! ## Reading one file -/

/-- The length of a file. -/
theorem length_fileBytes (s : Snapshot) :
    (fileBytes F s).length = 8 + (F.snapshot.pack s).length % 2^32 := by
  have hle := Nat.mod_le (F.snapshot.pack s).length (2^32)
  unfold fileBytes
  rw [List.length_append, List.length_append, LittleEndian.length_encode, LittleEndian.length_encode,
    List.length_take_of_le hle]

/-- A file that was cut is broken. -/
theorem loadSnap_take {s : Snapshot} {k : ℕ} (hk : k < (fileBytes F s).length) :
    loadSnap F ((fileBytes F s).take k) = none := by
  by_cases hshort : k < 8
  · unfold loadSnap
    rw [if_pos]
    rw [List.length_take]
    omega
  · have hlen : (F.snapshot.pack s).length % 2^32 < 2^32 := Nat.mod_lt _ (by decide)
    rw [length_fileBytes] at hk
    obtain ⟨j, rfl⟩ : ∃ j, k = 4 + (4 + j) := ⟨k - 8, by omega⟩
    have hskip : ∀ (x i : ℕ) (bs : Bytes), (LittleEndian.encode 4 x ++ bs).take (4 + i) =
        LittleEndian.encode 4 x ++ bs.take i := by
      intro x i bs
      have hlength := LittleEndian.length_encode 4 x
      rw [List.take_append, List.take_of_length_le (by omega), hlength, Nat.add_sub_cancel_left]
    have htake : (fileBytes F s).take (4 + (4 + j)) =
        LittleEndian.encode 4 ((F.snapshot.pack s).length % 2^32) ++
          (LittleEndian.encode 4 (F.crc32 (F.snapshot.pack s)).toNat ++
            ((F.snapshot.pack s).take ((F.snapshot.pack s).length % 2^32)).take j) := by
      rw [fileBytes, List.append_assoc, hskip, hskip]
    have hmissing : (((F.snapshot.pack s).take ((F.snapshot.pack s).length % 2^32)).take j).length ≤ j :=
      List.length_take_le _ _
    rw [htake, loadSnap_header hlen (F.crc32 _).toNat_lt]
    by_cases hzero : (F.snapshot.pack s).length % 2^32 = 0 ∨ (F.crc32 (F.snapshot.pack s)).toNat = 0
    · rw [if_pos hzero]
    · rw [if_neg hzero, if_pos]
      rw [List.length_take]
      omega

/-- A file that was written completely is broken too, if it cannot be told from a broken one. -/
theorem loadSnap_unreadable (hF : F.snapshot.Lawful) {s : Snapshot} (hcrc : NoCollision F s)
    (h : ¬Readable F s) : loadSnap F (fileBytes F s) = none := by
  have hlen : (F.snapshot.pack s).length % 2^32 < 2^32 := Nat.mod_lt _ (by decide)
  have hle := Nat.mod_le (F.snapshot.pack s).length (2^32)
  rw [fileBytes, List.append_assoc, loadSnap_header hlen (F.crc32 _).toNat_lt, List.take_take, Nat.min_self,
    List.length_take_of_le hle]
  by_cases hzero : (F.snapshot.pack s).length % 2^32 = 0 ∨ (F.crc32 (F.snapshot.pack s)).toNat = 0
  · rw [if_pos hzero]
  · rw [if_neg hzero, if_neg (not_not.mpr rfl), if_pos]
    rw [not_or] at hzero
    obtain ⟨hpos, hne⟩ := hzero
    -- Only a length that was cut can have made it unreadable.
    have hlong : ¬(F.snapshot.pack s).length < 2^32 := fun hlt => h
      { unpack := hF s
        length := ⟨by omega, hlt⟩
        crc32 := fun h0 => hne (by rw [h0]; rfl) }
    have hcollision := hcrc ((F.snapshot.pack s).length % 2^32) (by omega) (by omega)
    exact fun heq => hcollision (UInt32.toNat_inj.mp heq)

/-! ## Reading the directory -/

/-- The names of the files, whose numbers have 64 bits, are sorted from the last one on. -/
theorem getSnapNames_sorted {files : List SnapFile} (h : ∀ f ∈ files, f.term < 2^64 ∧ f.index < 2^64) :
    ((getSnapNames files).map fun f => snapName f.term f.index).Pairwise fun name name' => name' ≤ name := by
  have hperm := List.perm_insertionSort SnapFile.After files
  have hsorted := List.pairwise_insertionSort SnapFile.After files
  refine List.pairwise_map.mpr (hsorted.imp_of_mem fun {f g} hf hg hafter => ?_)
  obtain ⟨hterm, hindex⟩ := h f (hperm.mem_iff.mp hf)
  obtain ⟨hterm', hindex'⟩ := h g (hperm.mem_iff.mp hg)
  rw [← List.not_lt]
  unfold snapName
  rw [Hex.pair_lt_iff hterm hindex hterm' hindex']
  unfold SnapFile.After at hafter
  omega

/-! ## The files that were saved -/

/-- The names are in the order of the positions. -/
theorem after_fileOf (s s' : Snapshot) : (fileOf F s).After (fileOf F s') ↔ position s' ≤ position s := by
  unfold position
  rw [Prod.Lex.toLex_le_toLex]
  rfl

/-- Snapshots of different positions have files of their own. -/
theorem savedFiles_eq {saves : List Snapshot} (h : (saves.map position).Nodup) :
    savedFiles F saves = saves.map (fileOf F) := by
  induction saves using List.reverseRecOn with
  | nil => rfl
  | append_singleton saves s ih =>
    rw [List.map_append, List.nodup_append] at h
    obtain ⟨hnodup, -, hnew⟩ := h
    have hkeep : ∀ f ∈ saves.map (fileOf F),
        decide (¬(f.term = s.metadata.term ∧ f.index = s.metadata.index)) = true := by
      intro f hf
      obtain ⟨s', hs', rfl⟩ := List.mem_map.mp hf
      rw [decide_eq_true_eq]
      rintro ⟨hterm, hindex⟩
      have hposition : position s' = position s := congrArg toLex (Prod.ext hterm hindex)
      exact hnew _ (List.mem_map_of_mem hs') _ (by simp) hposition
    rw [savedFiles, List.foldl_append, ← savedFiles, ih hnodup, List.map_append]
    show List.filter _ _ ++ _ = _
    rw [List.filter_eq_self.mpr hkeep]
    rfl

/-- The cut is that of the last file. -/
theorem cutLast_concat (k : ℕ) (files : List SnapFile) (f : SnapFile) :
    cutLast k (files ++ [f]) = files ++ [{ f with content := f.content.take k }] := by
  unfold cutLast
  rw [List.dropLast_concat, List.getLast?_concat]
  rfl

/-- All snapshots but the last one were written completely. -/
theorem completed_concat (k : ℕ) (saves : List Snapshot) (s : Snapshot) :
    completed F k (saves ++ [s]) = saves ++ if (fileBytes F s).length ≤ k then [s] else [] := by
  unfold completed
  rw [List.dropLast_concat, List.getLast?_concat]
  by_cases hk : (fileBytes F s).length ≤ k
  · simp [hk]
  · simp [hk]

/-- What was written completely was saved. -/
theorem completed_subset {saves : List Snapshot} {k : ℕ} {s : Snapshot} (hs : s ∈ completed F k saves) :
    s ∈ saves := by
  rcases saves.eq_nil_or_concat' with rfl | ⟨saves, last, rfl⟩
  · exact hs
  · rw [completed_concat] at hs
    rcases List.mem_append.mp hs with hs | hs
    · exact List.mem_append_left _ hs
    · split_ifs at hs
      · exact List.mem_append_right _ hs
      · cases hs

/-- A file that is not broken after the cut is that of a readable snapshot which was written completely. -/
theorem mem_completed_of_load (hF : F.snapshot.Lawful) {saves : List Snapshot}
    (hcrc : ∀ s ∈ saves, NoCollision F s) {k : ℕ} {f : SnapFile} {s : Snapshot}
    (hf : f ∈ cutLast k (saves.map (fileOf F))) (hload : loadSnap F f.content = some s) :
    s ∈ completed F k saves ∧ Readable F s ∧ f = fileOf F s := by
  have hwhole : ∀ s' ∈ saves, loadSnap F (fileBytes F s') = some s → s' = s ∧ Readable F s := by
    intro s' hs' hload
    by_cases hread : Readable F s'
    · rw [loadSnap_fileBytes hread] at hload
      cases hload
      exact ⟨rfl, hread⟩
    · rw [loadSnap_unreadable hF (hcrc s' hs') hread] at hload
      cases hload
  rcases saves.eq_nil_or_concat' with rfl | ⟨saves, last, rfl⟩
  · cases hf
  · rw [List.map_append, List.map_singleton, cutLast_concat] at hf
    rw [completed_concat]
    rcases List.mem_append.mp hf with hf | hf
    · obtain ⟨s', hs', rfl⟩ := List.mem_map.mp hf
      obtain ⟨rfl, hread⟩ := hwhole s' (List.mem_append_left _ hs') hload
      exact ⟨List.mem_append_left _ hs', hread, rfl⟩
    · rw [List.mem_singleton] at hf
      subst hf
      by_cases hk : (fileBytes F last).length ≤ k
      · have htake : (fileBytes F last).take k = fileBytes F last := List.take_of_length_le hk
        dsimp only [fileOf] at hload
        rw [htake] at hload
        obtain ⟨rfl, hread⟩ := hwhole last (by simp) hload
        rw [if_pos hk]
        refine ⟨by simp, hread, ?_⟩
        unfold fileOf
        rw [htake]
      · dsimp only [fileOf] at hload
        rw [loadSnap_take (Nat.lt_of_not_le hk)] at hload
        cases hload

/-- The file of a snapshot that was written completely is not touched by the cut. -/
theorem fileOf_mem_cutLast {saves : List Snapshot} {k : ℕ} {s : Snapshot} (hs : s ∈ completed F k saves) :
    fileOf F s ∈ cutLast k (saves.map (fileOf F)) := by
  rcases saves.eq_nil_or_concat' with rfl | ⟨saves, last, rfl⟩
  · cases hs
  · rw [List.map_append, List.map_singleton, cutLast_concat]
    rw [completed_concat] at hs
    rcases List.mem_append.mp hs with hs | hs
    · exact List.mem_append_left _ (List.mem_map_of_mem hs)
    · split_ifs at hs with hk
      · obtain rfl := List.mem_singleton.mp hs
        have htake : (fileBytes F s).take k = fileBytes F s := List.take_of_length_le hk
        refine List.mem_append_right _ (List.mem_singleton.mpr ?_)
        unfold fileOf
        rw [htake]
      · cases hs

/-! ## The newest one -/

/-- Among some snapshots one is the newest. -/
theorem exists_newest {snaps : List Snapshot} {s : Snapshot} (hs : s ∈ snaps) :
    ∃ m, snaps.argmax position = some m := by
  apply Option.ne_none_iff_exists'.mp
  rw [Ne, List.argmax_eq_none]
  rintro rfl
  cases hs

/-- The newest of snapshots with different positions. -/
theorem argmax_position_eq {snaps saves : List Snapshot} (hdistinct : (saves.map position).Nodup)
    (hsub : ∀ s ∈ snaps, s ∈ saves) {s : Snapshot} (hs : s ∈ snaps)
    (hgreatest : ∀ s' ∈ snaps, position s' ≤ position s) : snaps.argmax position = some s := by
  obtain ⟨m, hm⟩ := exists_newest hs
  have hmem := List.argmax_mem hm
  have hle := List.le_of_mem_argmax hs hm
  have heq : position m = position s := le_antisymm (hgreatest m hmem) hle
  rw [hm, List.inj_on_of_nodup_map hdistinct (hsub m hmem) (hsub s hs) heq]

end Snapshotter

open Snapshotter

/-- The newest snapshot of those that were written completely is loaded if and only if it can be told from a
broken one: its length can be recorded, and its checksum is not zero. -/
theorem newest_loaded_iff {F : Snapshotter.Format} (hF : F.snapshot.Lawful) {saves : List Snapshot}
    (hdistinct : (saves.map position).Nodup) (hcrc : ∀ s ∈ saves, NoCollision F s) (k : ℕ) :
    LoadsNewest F saves k ↔ ∀ s ∈ (completed F k saves).argmax position, Readable F s := by
  unfold LoadsNewest
  rw [savedFiles_eq hdistinct]
  constructor
  · intro h s hs
    obtain ⟨f, hf, hload, -⟩ := exists_of_load (h.trans hs)
    exact (mem_completed_of_load hF hcrc hf hload).2.1
  · intro h
    cases hloaded : (load F (cutLast k (saves.map (fileOf F)))).1 with
    | none =>
      rw [load_eq_none_iff] at hloaded
      cases hnewest : (completed F k saves).argmax position with
      | none => rfl
      | some s =>
        have hnone := hloaded _ (fileOf_mem_cutLast (List.argmax_mem hnewest))
        have hsome := loadSnap_fileBytes (h s hnewest)
        cases hnone.symm.trans hsome
    | some s =>
      obtain ⟨f, hf, hload, hafter⟩ := exists_of_load hloaded
      obtain ⟨hs, -, rfl⟩ := mem_completed_of_load hF hcrc hf hload
      refine (argmax_position_eq hdistinct (fun _ => completed_subset) hs fun s' hs' => ?_).symm
      -- The newest one is not broken, so that it is not behind the one that is loaded.
      obtain ⟨m, hm⟩ := exists_newest hs
      have hsome : (loadSnap F (fileOf F m).content).isSome := by
        show (loadSnap F (fileBytes F m)).isSome
        rw [loadSnap_fileBytes (h m hm)]
        rfl
      have hle := (after_fileOf s m).mp (hafter _ (fileOf_mem_cutLast (List.argmax_mem hm)) hsome)
      exact (List.le_of_mem_argmax hs' hm).trans hle

/-- The first of two snapshots. -/
def firstSnapshot : Snapshot := { data := [1], metadata := { index := 1, term := 1 } }

/-- The second one. -/
def secondSnapshot : Snapshot := { data := [2], metadata := { index := 2, term := 1 } }

/-- The second file was cut within its header, so that the first one is loaded. -/
theorem newest_loaded_iff_cutHeader : ([firstSnapshot, secondSnapshot].map position).Nodup ∧
    LoadsNewest msgpackFormats.snap [firstSnapshot, secondSnapshot] 5 := by
  have hdistinct : ([firstSnapshot, secondSnapshot].map position).Nodup := by decide
  have hlawful : msgpackFormats.snap.snapshot.Lawful := codec_lawful snapshotFormat_selfDelimiting
  have hcrc : ∀ s ∈ [firstSnapshot, secondSnapshot], ∀ n < (msgpackFormats.snap.snapshot.pack s).length,
      0 < n → msgpackFormats.snap.crc32 ((msgpackFormats.snap.snapshot.pack s).take n) ≠
        msgpackFormats.snap.crc32 (msgpackFormats.snap.snapshot.pack s) := by decide +kernel
  have hnoCollision : ∀ s ∈ [firstSnapshot, secondSnapshot], NoCollision msgpackFormats.snap s :=
    fun s hs n hpos hlt => hcrc s hs n hlt hpos
  refine ⟨hdistinct, (newest_loaded_iff hlawful hdistinct hnoCollision 5).mpr fun s hs => ?_⟩
  have hcompleted : completed msgpackFormats.snap 5 [firstSnapshot, secondSnapshot] = [firstSnapshot] := by
    decide +kernel
  rw [hcompleted, List.argmax_singleton, Option.mem_some] at hs
  subst hs
  exact { unpack := hlawful _, length := by decide +kernel, crc32 := by decide +kernel }

/-- A snapshot whose bytes have the checksum zero. -/
def zeroCrc : Snapshot := { data := [56, 231, 159, 243], metadata := { index := 1, term := 1 } }

/-- It was written completely, but it is not loaded. -/
theorem zeroCrc_lost : ¬∀ (F : Snapshotter.Format) (saves : List Snapshot) (k : ℕ), F.snapshot.Lawful →
    (saves.map position).Nodup → (∀ s ∈ saves, NoCollision F s) → LoadsNewest F saves k := by
  intro hall
  have hcrc : ∀ s ∈ [zeroCrc], ∀ n < (msgpackFormats.snap.snapshot.pack s).length,
      0 < n → msgpackFormats.snap.crc32 ((msgpackFormats.snap.snapshot.pack s).take n) ≠
        msgpackFormats.snap.crc32 (msgpackFormats.snap.snapshot.pack s) := by decide +kernel
  have hloads := hall msgpackFormats.snap [zeroCrc] 100 (codec_lawful snapshotFormat_selfDelimiting)
    (by decide) fun s hs n hpos hlt => hcrc s hs n hlt hpos
  have hnone : (load msgpackFormats.snap (cutLast 100 (savedFiles msgpackFormats.snap [zeroCrc]))).1 =
      none := by decide +kernel
  have hnewest := hloads.symm.trans hnone
  rw [List.argmax_eq_none] at hnewest
  revert hnewest
  decide +kernel

end RaftCpp
