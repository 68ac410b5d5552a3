import RaftCpp.Library.BasedLog
import RaftCpp.Raft.SoundLog

/-!
# The log as one list of entries

The storage and the unstable part denote one list of entries, in which the unstable entries override
those of the storage. Reading the log reads that list, and appending to the log overwrites it.
-/

namespace RaftCpp

open Outcome

/-! ## Limiting the size -/

/-- Past its first entry, `entry_limit_size` keeps the longest prefix within the limit, as long as the
sizes can be added up in 64 bits. -/
theorem entryLimitSizeFrom_longest (maxSize : ℕ) :
    ∀ (size : ℕ) (es : List Entry), size + (es.map Entry.serializeSize).sum < 2^64 →
      (entryLimitSizeFrom maxSize size es = [] ∨
        size + ((entryLimitSizeFrom maxSize size es).map Entry.serializeSize).sum ≤ maxSize) ∧
      ∀ zs, zs <+: es → size + (zs.map Entry.serializeSize).sum ≤ maxSize →
        zs.length ≤ (entryLimitSizeFrom maxSize size es).length
  | size, [], _ => by
    constructor
    · exact Or.inl rfl
    · intro zs hzs _
      rw [List.prefix_nil.mp hzs]
      exact Nat.zero_le _
  | size, e :: es, hfit => by
    rw [List.map_cons, List.sum_cons] at hfit
    have hmod : (size + e.serializeSize) % 2^64 = size + e.serializeSize := Nat.mod_eq_of_lt (by omega)
    obtain ⟨hsum, hlongest⟩ :=
      entryLimitSizeFrom_longest maxSize (size + e.serializeSize) es (by omega)
    unfold entryLimitSizeFrom
    dsimp only
    rw [hmod]
    split_ifs with hover
    · constructor
      · exact Or.inl rfl
      · intro zs hzs hle
        cases zs with
        | nil => exact Nat.le_refl _
        | cons z zs =>
          obtain ⟨rfl, -⟩ := List.cons_prefix_cons.mp hzs
          rw [List.map_cons, List.sum_cons] at hle
          omega
    · constructor
      · refine Or.inr ?_
        rw [List.map_cons, List.sum_cons]
        obtain hnil | hle := hsum
        · rw [hnil, List.map_nil, List.sum_nil]
          omega
        · omega
      · intro zs hzs hle
        cases zs with
        | nil => exact Nat.zero_le _
        | cons z zs =>
          obtain ⟨rfl, hzs'⟩ := List.cons_prefix_cons.mp hzs
          rw [List.map_cons, List.sum_cons] at hle
          have hlen := hlongest zs hzs' (by omega)
          rw [List.length_cons, List.length_cons]
          omega

/-- `entry_limit_size` keeps the longest prefix within the limit, but at least one entry. -/
theorem entryLimitSize_longest (maxSize : ℕ) {es : List Entry}
    (hfit : (es.map Entry.serializeSize).sum < 2^64) :
    es.LongestWithin Entry.serializeSize maxSize (entryLimitSize maxSize es) := by
  constructor
  · exact entryLimitSize_isPrefix maxSize es
  · intro hne hnil
    exact hne (entryLimitSize_eq_nil.mp hnil)
  · cases es with
    | nil => exact Or.inl (Nat.zero_le _)
    | cons e es =>
      obtain ⟨hsum, -⟩ := entryLimitSizeFrom_longest maxSize e.serializeSize es
        (by rwa [List.map_cons, List.sum_cons] at hfit)
      rw [entryLimitSize, List.map_cons, List.sum_cons, List.length_cons]
      obtain hnil | hle := hsum
      · exact Or.inl (by rw [hnil, List.length_nil])
      · exact Or.inr hle
  · intro zs hzs hle
    cases zs with
    | nil => exact Nat.zero_le _
    | cons z zs =>
      cases es with
      | nil => cases List.prefix_nil.mp hzs
      | cons e es =>
        obtain ⟨rfl, hzs'⟩ := List.cons_prefix_cons.mp hzs
        obtain ⟨-, hlongest⟩ := entryLimitSizeFrom_longest maxSize z.serializeSize es
          (by rwa [List.map_cons, List.sum_cons] at hfit)
        rw [List.map_cons, List.sum_cons] at hle
        exact Nat.succ_le_succ (hlongest zs hzs' hle)

/-- Once the limit is reached, what follows does not matter. -/
theorem entryLimitSizeFrom_append (maxSize : ℕ) :
    ∀ (size : ℕ) (es es' : List Entry),
      (entryLimitSizeFrom maxSize size es).length < es.length →
        entryLimitSizeFrom maxSize size (es ++ es') = entryLimitSizeFrom maxSize size es
  | _, [], _, h => absurd h (Nat.not_lt_zero _)
  | size, e :: es, es', h => by
    rw [List.cons_append]
    unfold entryLimitSizeFrom at h ⊢
    dsimp only at h ⊢
    split_ifs at h ⊢ with hover
    · rfl
    · rw [List.length_cons, List.length_cons] at h
      rw [entryLimitSizeFrom_append maxSize _ es es' (Nat.lt_of_succ_lt_succ h)]

/-- Once the limit is reached, what follows does not matter. -/
theorem entryLimitSize_append {maxSize : ℕ} {es : List Entry} (es' : List Entry)
    (h : (entryLimitSize maxSize es).length < es.length) :
    entryLimitSize maxSize (es ++ es') = entryLimitSize maxSize es := by
  cases es with
  | nil => exact absurd h (Nat.not_lt_zero _)
  | cons e es =>
    rw [entryLimitSize, List.length_cons, List.length_cons] at h
    rw [List.cons_append, entryLimitSize, entryLimitSize,
      entryLimitSizeFrom_append maxSize _ es es' (Nat.lt_of_succ_lt_succ h)]

namespace RaftLog

/-! ## The list -/

/-- The unstable part lies over the storage, or over what a snapshot to install leaves of it. -/
structure Layered (l : RaftLog) : Prop where
  /-- The log ends where the unstable part does. -/
  lastIndex_succ : l.lastIndex + 1 = l.unstable.offset + l.unstable.entries.length
  /-- It does not end before it starts. -/
  firstIndex_le : l.firstIndex ≤ l.lastIndex + 1
  /-- What is below the unstable part is in the storage. -/
  stored : l.firstIndex < l.unstable.offset →
    l.storage.dummy.index < l.firstIndex ∧ l.unstable.offset ≤ l.storage.lastIndex + 1

/-- The term of the entry below the first one. -/
def baseTerm (l : RaftLog) : ℕ :=
  if l.unstable.offset ≤ l.firstIndex - 1 then
    (l.unstable.entries[l.firstIndex - 1 - l.unstable.offset]?.map (·.term)).getD 0
  else
    match l.unstable.snapshot with
    | some s => s.metadata.term
    | none => l.storage.dummy.term

/-- The list that the log denotes. -/
def plain (l : RaftLog) : BasedLog Entry :=
  { base := l.firstIndex - 1
    baseTerm := l.baseTerm
    entries := (l.storage.entries.drop (l.firstIndex - l.storage.dummy.index)).take
      (l.unstable.offset - l.firstIndex) ++ l.unstable.entries.drop (l.firstIndex - l.unstable.offset) }

variable {l l' : RaftLog} {i j low high maxSize : ℕ} {es : List Entry}

/-- The first index is at least one. -/
theorem firstIndex_pos (l : RaftLog) : 1 ≤ l.firstIndex := by
  unfold firstIndex Unstable.maybeFirstIndex MemoryStorage.firstIndex
  cases l.unstable.snapshot with
  | none => exact Nat.succ_pos _
  | some s => exact Nat.succ_pos _

/-- The list holds the entries from the first index on. -/
theorem plain_base (l : RaftLog) : l.plain.base = l.firstIndex - 1 := rfl

/-- The first index of the list. -/
@[simp] theorem plain_firstIndex (l : RaftLog) : l.plain.firstIndex = l.firstIndex :=
  Nat.sub_add_cancel l.firstIndex_pos

/-- A log whose parts fit together is layered. -/
theorem Sound.layered (h : l.Sound) : l.Layered := by
  have hfirst := h.firstIndex_le
  have hcommitted := h.committed_le
  constructor
  · exact h.lastIndex_succ
  · omega
  · intro hlt
    have hstored := (h.storage_of_lt (Nat.le_refl _) hlt).2
    exact ⟨h.dummy_lt_firstIndex, hstored⟩

/-- The list does not reach past the unstable part. -/
theorem plain_lastIndex_le (l : RaftLog) :
    l.plain.lastIndex ≤ max (l.firstIndex - 1) (l.unstable.offset + l.unstable.entries.length - 1) := by
  have hpos := l.firstIndex_pos
  show l.firstIndex - 1 + (_ ++ _ : List Entry).length ≤ _
  rw [List.length_append, List.length_take, List.length_drop, List.length_drop]
  omega

namespace Layered

/-- The part of the list that is in the storage. -/
theorem length_stored (h : l.Layered) :
    ((l.storage.entries.drop (l.firstIndex - l.storage.dummy.index)).take
      (l.unstable.offset - l.firstIndex)).length = l.unstable.offset - l.firstIndex := by
  rw [List.length_take, List.length_drop]
  obtain hlt | hle := Nat.lt_or_ge l.firstIndex l.unstable.offset
  · have hslen := storage_lastIndex_succ l.storage
    have hstored := h.stored hlt
    omega
  · omega

/-- The last index of the list. -/
theorem plain_lastIndex (h : l.Layered) : l.plain.lastIndex = l.lastIndex := by
  have hend := h.lastIndex_succ
  have hfirst := h.firstIndex_le
  have hpos := l.firstIndex_pos
  show l.firstIndex - 1 + (_ ++ _ : List Entry).length = l.lastIndex
  rw [List.length_append, h.length_stored, List.length_drop]
  omega

/-- Below the unstable part, the list is the storage's. -/
theorem plain_get?_of_lt (h : l.Layered) (hlow : l.firstIndex ≤ i) (hi : i < l.unstable.offset) :
    l.plain.get? i = l.storage.entries[i - l.storage.dummy.index]? := by
  have hpos := l.firstIndex_pos
  have hstored := h.stored (by omega)
  have hlen := h.length_stored
  unfold BasedLog.get?
  rw [plain_firstIndex, plain_base, if_neg (by omega)]
  unfold plain
  rw [List.getElem?_append_left (by omega), List.getElem?_take_of_lt (by omega), List.getElem?_drop]
  congr 1
  omega

/-- From the offset on, it is the unstable part. -/
theorem plain_get?_of_le (h : l.Layered) (hlow : l.firstIndex ≤ i) (hi : l.unstable.offset ≤ i) :
    l.plain.get? i = l.unstable.entries[i - l.unstable.offset]? := by
  have hpos := l.firstIndex_pos
  have hlen := h.length_stored
  unfold BasedLog.get?
  rw [plain_firstIndex, plain_base, if_neg (by omega)]
  unfold plain
  rw [List.getElem?_append_right (by omega), hlen, List.getElem?_drop]
  congr 1
  omega

/-! ## Reading -/

/-- The term at an index of the unstable part. -/
theorem maybeTerm_of_le (h : l.Layered) (hi : l.unstable.offset ≤ i) (hlast : i ≤ l.lastIndex) :
    ∃ e, l.unstable.entries[i - l.unstable.offset]? = some e ∧
      l.unstable.maybeTerm i = some e.term := by
  have hend := h.lastIndex_succ
  have hlt : i - l.unstable.offset < l.unstable.entries.length := by omega
  have hget := List.getElem?_eq_getElem hlt
  refine ⟨_, hget, ?_⟩
  unfold Unstable.maybeTerm
  rw [if_neg (by omega), hget]
  rfl

/-- `term` is the term of the list. -/
theorem term_eq (h : l.Layered) (i : ℕ) : l.term i = .ok (l.plain.termAt Entry.term i) := by
  have hlast := h.plain_lastIndex
  have hpos := l.firstIndex_pos
  unfold term
  dsimp only
  split_ifs with hout
  · -- Outside of the log.
    rw [BasedLog.termAt_eq_zero]
    rwa [hlast]
  obtain ⟨hlow, hhigh⟩ : l.firstIndex - 1 ≤ i ∧ i ≤ l.lastIndex := by omega
  obtain hoff | hoff := Nat.lt_or_ge i l.unstable.offset
  · have hbase : i = l.firstIndex - 1 → l.plain.termAt Entry.term i = match l.unstable.snapshot with
        | some s => s.metadata.term
        | none => l.storage.dummy.term := by
      intro hi
      rw [BasedLog.termAt, plain_base, if_pos hi]
      show l.baseTerm = _
      rw [baseTerm, if_neg (by omega)]
    -- What is above the first index and not unstable is in the storage.
    have hstored : l.firstIndex ≤ i →
        l.storage.term i = .ok (l.plain.termAt Entry.term i) := by
      intro hi
      have hdummy := h.stored (by omega)
      have hslen := storage_lastIndex_succ l.storage
      have hlt : i - l.storage.dummy.index < l.storage.entries.length := by omega
      have hget := List.getElem?_eq_getElem hlt
      rw [BasedLog.termAt_of_get? ((h.plain_get?_of_lt hi hoff).trans hget)]
      unfold MemoryStorage.term
      rw [if_neg (by omega), hget]
    unfold Unstable.maybeTerm
    rw [if_pos hoff]
    cases hs : l.unstable.snapshot with
    | none =>
      have hfirst := Sound.firstIndex_of_none hs
      dsimp only
      obtain hi | hi := Nat.eq_or_lt_of_le hlow
      · obtain ⟨rest, hrest⟩ := storage_entries l.storage
        rw [hbase hi.symm, hs]
        unfold MemoryStorage.term
        rw [if_neg (by omega), hrest, show i - l.storage.dummy.index = 0 by omega]
        rfl
      · exact hstored (by omega)
    | some s =>
      have hfirst := Sound.firstIndex_of_some hs
      dsimp only
      split_ifs with hi
      · rw [hbase (by omega), hs]
      · exact hstored (by omega)
  · obtain ⟨e, hget, hterm⟩ := h.maybeTerm_of_le hoff hhigh
    rw [hterm]
    dsimp only
    obtain hi | hi := Nat.eq_or_lt_of_le hlow
    · rw [BasedLog.termAt, plain_base, if_pos hi.symm]
      show _ = Except.ok l.baseTerm
      rw [baseTerm, if_pos (by omega), hi, hget]
      rfl
    · rw [BasedLog.termAt_of_get? ((h.plain_get?_of_le (by omega) hoff).trans hget)]

/-- `match_term` compares with the term of the list. -/
theorem matchTerm_iff (h : l.Layered) {t : ℕ} :
    l.matchTerm i t = true ↔ l.plain.termAt Entry.term i = t := by
  unfold matchTerm
  rw [h.term_eq i]
  exact beq_iff_eq.trans eq_comm

/-- The list's entries in a range are those of the storage below the offset, and the unstable ones. -/
theorem plain_slice (h : l.Layered) (hlow : l.firstIndex ≤ low) (hle : low ≤ high)
    (hhigh : high ≤ l.lastIndex + 1) : l.plain.slice low high = l.range low high := by
  have hend := h.lastIndex_succ
  have hslen := storage_lastIndex_succ l.storage
  have hlen : (l.plain.slice low high).length = high - low :=
    BasedLog.length_slice (by rwa [plain_firstIndex]) (by rwa [h.plain_lastIndex])
  have hstored : low < l.unstable.offset →
      l.storage.dummy.index < low ∧ l.unstable.offset ≤ l.storage.lastIndex + 1 := fun hlt => by
    have := h.stored (by omega)
    omega
  have hleft : ((l.storage.entries.drop (low - l.storage.dummy.index)).take
      (min high l.unstable.offset - low)).length = min high l.unstable.offset - low := by
    rw [List.length_take, List.length_drop]
    omega
  have hright : ((l.unstable.entries.drop (max low l.unstable.offset - l.unstable.offset)).take
      (high - max low l.unstable.offset)).length = high - max low l.unstable.offset := by
    rw [List.length_take, List.length_drop]
    omega
  apply List.ext_getElem?
  intro i
  obtain hi | hi := Nat.lt_or_ge i (high - low)
  · rw [BasedLog.getElem?_slice (by rwa [plain_firstIndex]) (by omega), range]
    obtain hoff | hoff := Nat.lt_or_ge (low + i) l.unstable.offset
    · have hdummy := hstored (by omega)
      rw [h.plain_get?_of_lt (by omega) hoff, List.getElem?_append_left (by omega),
        List.getElem?_take_of_lt (by omega), List.getElem?_drop]
      congr 1
      omega
    · rw [h.plain_get?_of_le (by omega) hoff, List.getElem?_append_right (by omega), hleft,
        List.getElem?_take_of_lt (by omega), List.getElem?_drop]
      congr 1
      omega
  · rw [List.getElem?_eq_none (by omega), List.getElem?_eq_none]
    rw [range, List.length_append, hleft, hright]
    omega

/-- `slice` returns the list's entries in the range, up to the size limit. -/
theorem slice_eq (h : l.Layered) (hlow : l.firstIndex ≤ low) (hle : low ≤ high)
    (hhigh : high ≤ l.lastIndex + 1) (maxSize : ℕ) :
    l.slice low high maxSize = .ok (.ok, entryLimitSize maxSize (l.plain.slice low high)) := by
  have hend := h.lastIndex_succ
  have hslen := storage_lastIndex_succ l.storage
  rw [h.plain_slice hlow hle hhigh]
  have hcheck : l.mustCheckOutOfBounds low high = .ok .ok := by
    unfold mustCheckOutOfBounds
    rw [sub64_of_le h.firstIndex_le, if_neg (by omega), if_neg (by omega), if_neg (by omega)]
  -- The part above the offset, after the storage gave all of its part.
  have hunstable : low < high → l.sliceUnstable low high maxSize
      ((l.storage.entries.drop (low - l.storage.dummy.index)).take
        (min high l.unstable.offset - low)) =
        .ok (.ok, entryLimitSize maxSize (l.range low high)) := by
    intro hlt
    unfold sliceUnstable range
    split_ifs with hoff
    · unfold Unstable.slice
      rw [if_neg (by omega), if_neg (by omega)]
      rfl
    · rw [show high - max low l.unstable.offset = 0 by omega, List.take_zero, List.append_nil]
      rfl
  unfold slice
  simp only [hcheck, bind, Except.bind, Status.isOk, not_true_eq_false, if_false]
  split_ifs with heq hoff
  · subst heq
    rw [range, show min low l.unstable.offset - low = 0 by omega,
      show low - max low l.unstable.offset = 0 by omega]
    rfl
  · have hstored := h.stored (by omega)
    have hentries : l.storage.entriesIn low (min high l.unstable.offset) maxSize =
        .ok (.ok, entryLimitSize maxSize ((l.storage.entries.drop (low - l.storage.dummy.index)).take
          (min high l.unstable.offset - low))) := by
      unfold MemoryStorage.entriesIn
      rw [if_neg (by omega), if_neg (by omega), if_neg (by omega), if_neg (by omega)]
    have hleft : ((l.storage.entries.drop (low - l.storage.dummy.index)).take
        (min high l.unstable.offset - low)).length = min high l.unstable.offset - low := by
      rw [List.length_take, List.length_drop]
      omega
    simp only [hentries, not_true_eq_false, if_false]
    split_ifs with hshort
    · -- The storage reached the limit, which the unstable part does not change.
      rw [range, entryLimitSize_append _ (by rwa [hleft])]
      rfl
    · have hall := (entryLimitSize_isPrefix maxSize ((l.storage.entries.drop
        (low - l.storage.dummy.index)).take (min high l.unstable.offset - low))).eq_of_length_le
          (by omega)
      rw [hall]
      exact hunstable (by omega)
  · have hnil : (l.storage.entries.drop (low - l.storage.dummy.index)).take
        (min high l.unstable.offset - low) = [] := by
      rw [show min high l.unstable.offset - low = 0 by omega, List.take_zero]
    have hrest := hunstable (by omega)
    rwa [hnil] at hrest

end Layered

/-! ## Appending -/

/-- `truncate_and_append` cuts the unstable part at the first new entry, which must not leave a gap. -/
theorem truncateAndAppend_cons (u : Unstable) (e : Entry) (es : List Entry) :
    u.truncateAndAppend (e :: es) =
      if e.index ≤ u.offset + u.entries.length then .ok (cutAt u e.index (e :: es))
      else .error .unstableSliceOutOfBound := by
  unfold Unstable.truncateAndAppend Unstable.slice
  dsimp only
  by_cases hgap : e.index ≤ u.offset + u.entries.length
  · rw [if_pos hgap]
    unfold cutAt
    by_cases hend : e.index = u.offset + u.entries.length
    · rw [if_pos hend]
      split_ifs with hlow
      · -- Nothing is unstable.
        have hnil : u.entries = [] := List.length_eq_zero_iff.mp (by omega)
        rw [hend, hnil]
        rfl
      · rw [List.take_of_length_le (by omega)]
        rfl
    · rw [if_neg hend]
      by_cases hlow : e.index ≤ u.offset
      · rw [if_pos hlow, if_pos hlow]
        rfl
      · rw [if_neg hlow, if_neg hlow, if_neg (by omega), if_neg (by omega), Nat.sub_self,
          List.drop_zero]
        rfl
  · rw [if_neg hgap, if_neg (by omega), if_neg (by omega), if_neg (by omega), if_pos (by omega)]
    rfl

/-- A cut from the first index on leaves a layered log, and overwrites the list. -/
theorem Layered.cut (h : l.Layered) (hne : es ≠ []) (hlow : l.firstIndex ≤ j)
    (hhigh : j ≤ l.lastIndex + 1) :
    ({ l with unstable := cutAt l.unstable j es } : RaftLog).Layered ∧
      ({ l with unstable := cutAt l.unstable j es } : RaftLog).plain = l.plain.overwrite j es := by
  have hend := h.lastIndex_succ
  have hpos := l.firstIndex_pos
  have hlen := h.length_stored
  have hes := List.length_pos_iff.mpr hne
  obtain ⟨hsnap, hoff, hend'⟩ := cutAt_place es (u := l.unstable) (j := j) (by omega)
  have hfirst : ({ l with unstable := cutAt l.unstable j es } : RaftLog).firstIndex = l.firstIndex := by
    unfold firstIndex Unstable.maybeFirstIndex
    dsimp only
    rw [hsnap]
  have hne' : (cutAt l.unstable j es).entries ≠ [] := fun hnil => by
    rw [hnil, List.length_nil] at hend'
    omega
  have hlast := lastIndex_of_ne_nil (l := { l with unstable := cutAt l.unstable j es }) hne'
  constructor
  · constructor
    · rw [hlast]
      dsimp only
      omega
    · rw [hfirst, hlast]
      dsimp only
      omega
    · rw [hfirst]
      intro hlt
      have hstored := h.stored (by dsimp only at hlt; omega)
      exact ⟨hstored.1, by dsimp only; omega⟩
  · apply BasedLog.ext
    · show _ - 1 = l.firstIndex - 1
      rw [hfirst]
    · show RaftLog.baseTerm _ = l.baseTerm
      unfold baseTerm
      rw [hfirst]
      dsimp only
      rw [hsnap, hoff]
      by_cases hbase : l.unstable.offset ≤ l.firstIndex - 1
      · -- The entry below the first index is unstable, and stays where it is.
        rw [if_pos (by omega), if_pos hbase, Nat.min_eq_right (by omega)]
        unfold cutAt
        rw [if_neg (by omega), List.getElem?_append_left (by rw [List.length_take]; omega),
          List.getElem?_take_of_lt (by omega)]
      · rw [if_neg (by omega), if_neg hbase]
    · show _ = l.plain.entries.take (j - l.plain.firstIndex) ++ es
      rw [plain_firstIndex]
      unfold plain
      dsimp only
      rw [hfirst, hoff, List.take_append, hlen, List.take_take]
      unfold cutAt
      split_ifs with hj
      · rw [show l.firstIndex - min j l.unstable.offset = 0 by omega,
          show j - l.firstIndex - (l.unstable.offset - l.firstIndex) = 0 by omega, List.drop_zero,
          List.take_zero, List.append_nil]
        congr 2
        omega
      · have htake : (l.unstable.entries.take (j - l.unstable.offset)).length =
            j - l.unstable.offset := by
          rw [List.length_take]
          omega
        rw [Nat.min_eq_right (by omega), List.drop_append_of_le_length (by omega), List.drop_take,
          List.append_assoc]
        congr 2
        · omega
        · congr 1
          omega
/-- `append` overwrites the list, from any index above what is committed on. -/
theorem Layered.append_ok (h : l.Layered) (hes : IndexedFrom j es) (hne : es ≠ [])
    (hcommitted : l.committed < j) (hlow : l.firstIndex ≤ j) (hhigh : j ≤ l.lastIndex + 1) :
    ∃ u, l.append es = .ok { l with unstable := u } ∧
      ({ l with unstable := u } : RaftLog).Layered ∧
      ({ l with unstable := u } : RaftLog).plain = l.plain.overwrite j es := by
  have hend := h.lastIndex_succ
  have hpos := l.firstIndex_pos
  refine ⟨cutAt l.unstable j es, ?_, h.cut hne hlow hhigh⟩
  cases es with
  | nil => exact absurd rfl hne
  | cons e es =>
    unfold append
    dsimp only
    rw [truncateAndAppend_cons, hes.head, sub64_of_le (by omega), if_neg (by omega),
      if_pos (by omega)]
    rfl

/-! ## Refinement -/

/-- The log does what a list of entries does. -/
structure Refines (l : RaftLog) (L : BasedLog Entry) : Prop where
  /-- `first_index`. -/
  firstIndex : l.firstIndex = L.firstIndex
  /-- `last_index`. -/
  lastIndex : l.lastIndex = L.lastIndex
  /-- `term`. -/
  term : ∀ i, l.term i = .ok (L.termAt Entry.term i)
  /-- `slice`, of a range of the list whose sizes can be added up in 64 bits. -/
  slice : ∀ low high maxSize, L.firstIndex ≤ low → low ≤ high → high ≤ L.lastIndex + 1 →
    ((L.slice low high).map Entry.serializeSize).sum < 2^64 →
      ∃ es, l.slice low high maxSize = .ok (.ok, es) ∧
        (L.slice low high).LongestWithin Entry.serializeSize maxSize es
  /-- `slice`, of a range that starts before the list does. -/
  slice_compacted : ∀ low high maxSize, low < L.firstIndex → low ≤ high →
    l.slice low high maxSize = .ok (MemoryStorage.errCompacted, [])
  /-- `slice`, of a range that ends after the list does. -/
  slice_outOfBound : ∀ low high maxSize, L.firstIndex ≤ low → low ≤ high → L.lastIndex + 1 < high →
    l.slice low high maxSize = .error .sliceOutOfBound
  /-- `slice`, of no range. -/
  slice_assertion : ∀ low high maxSize, high < low → l.slice low high maxSize = .error .assertion
  /-- `entries`, from an index of the list on. -/
  entries : ∀ index maxSize, L.firstIndex ≤ index → index ≤ L.lastIndex →
    ((L.slice index (L.lastIndex + 1)).map Entry.serializeSize).sum < 2^64 →
      ∃ es, l.entries index maxSize = .ok (.ok, es) ∧
        (L.slice index (L.lastIndex + 1)).LongestWithin Entry.serializeSize maxSize es
  /-- `entries`, from an index after the list on. -/
  entries_nil : ∀ index maxSize, L.lastIndex < index → l.entries index maxSize = .ok (.ok, [])
  /-- `entries`, from an index before the list on. -/
  entries_compacted : ∀ index maxSize, index < L.firstIndex → index ≤ L.lastIndex →
    l.entries index maxSize = .ok (MemoryStorage.errCompacted, [])
  /-- `append`, of consecutive entries above what is committed. -/
  append : ∀ j es, IndexedFrom j es → es ≠ [] → l.committed < j → L.firstIndex ≤ j →
    j ≤ L.lastIndex + 1 → ∃ u, l.append es = .ok { l with unstable := u } ∧
      ({ l with unstable := u } : RaftLog).Layered ∧
      ({ l with unstable := u } : RaftLog).plain = L.overwrite j es

namespace Layered

/-- Outside of the log, `slice` returns nothing. -/
theorem slice_outside (h : l.Layered) (low high maxSize : ℕ) :
    (low < l.firstIndex → low ≤ high →
      l.slice low high maxSize = .ok (MemoryStorage.errCompacted, [])) ∧
      (l.firstIndex ≤ low → low ≤ high → l.lastIndex + 1 < high →
        l.slice low high maxSize = .error .sliceOutOfBound) ∧
      (high < low → l.slice low high maxSize = .error .assertion) := by
  have hfirst := h.firstIndex_le
  unfold slice mustCheckOutOfBounds
  rw [sub64_of_le hfirst]
  constructor
  · intro hlow hle
    rw [if_neg (by omega), if_pos hlow]
    rfl
  · constructor
    · intro hlow hle hhigh
      rw [if_neg (by omega), if_neg (by omega), if_pos (by omega)]
      rfl
    · intro hlt
      rw [if_pos (by omega)]
      rfl

end Layered

/-- A layered log does what the list that it denotes does. -/
theorem refines_plain (h : l.Layered) : l.Refines l.plain := by
  have hlast := h.plain_lastIndex
  have hslice : ∀ low high maxSize, l.firstIndex ≤ low → low ≤ high → high ≤ l.lastIndex + 1 →
      ((l.plain.slice low high).map Entry.serializeSize).sum < 2^64 →
        ∃ es, l.slice low high maxSize = .ok (.ok, es) ∧
          (l.plain.slice low high).LongestWithin Entry.serializeSize maxSize es :=
    fun low high maxSize hlow hle hhigh hfit =>
      ⟨_, h.slice_eq hlow hle hhigh maxSize, entryLimitSize_longest maxSize hfit⟩
  constructor
  · exact (plain_firstIndex l).symm
  · exact hlast.symm
  · exact h.term_eq
  · rw [plain_firstIndex, hlast]
    exact hslice
  · rw [plain_firstIndex]
    exact fun low high maxSize => (h.slice_outside low high maxSize).1
  · rw [plain_firstIndex, hlast]
    exact fun low high maxSize => (h.slice_outside low high maxSize).2.1
  · exact fun low high maxSize => (h.slice_outside low high maxSize).2.2
  · rw [plain_firstIndex, hlast]
    intro index maxSize hlow hle hfit
    unfold RaftLog.entries
    rw [if_neg (by omega)]
    exact hslice index (l.lastIndex + 1) maxSize hlow (by omega) (Nat.le_refl _) hfit
  · rw [hlast]
    intro index maxSize hlt
    unfold RaftLog.entries
    rw [if_pos hlt]
  · rw [plain_firstIndex, hlast]
    intro index maxSize hlow hle
    unfold RaftLog.entries
    rw [if_neg (by omega)]
    exact (h.slice_outside index (l.lastIndex + 1) maxSize).1 hlow (by omega)
  · rw [plain_firstIndex, hlast]
    intro j es hes hne hcommitted hlow hhigh
    exact h.append_ok hes hne hcommitted hlow hhigh

/-- Entries of the given first index and terms. -/
def entriesFrom (index : ℕ) (terms : List ℕ) : List Entry :=
  (terms.zipIdx index).map fun p => { term := p.1, index := p.2 }

/-- A log whose last stored entry is overridden, and one more entry follows. -/
def straddling : RaftLog :=
  { storage := { entries := entriesFrom 0 [0, 1, 1, 1], entries_ne_nil := List.cons_ne_nil _ _ }
    unstable := { offset := 3, entries := entriesFrom 3 [2, 2] }
    committed := 2
    applied := 0
    maxNextEntsSize := unlimited }

/-- Its parts lie over each other. -/
theorem straddling_layered : straddling.Layered := by
  constructor
  · decide
  · decide
  · decide

/-- That log denotes the entries of the terms 1, 1, 2, and 2. -/
theorem refines_plain_straddling : straddling.Refines straddling.plain ∧
    straddling.plain = ⟨0, 0, entriesFrom 1 [1, 1, 2, 2]⟩ :=
  ⟨refines_plain straddling_layered, rfl⟩

/-- Consecutive entries and an offset that does not leave a gap are not enough. Where nothing is
unstable and the offset is not the end of the storage, `slice` stops at an entry that the storage has;
and where the unstable part ends before the storage starts, the log ends before it starts. -/
theorem gapless_insufficient :
    (∃ l : RaftLog, IndexedFrom l.storage.dummy.index l.storage.entries ∧
      IndexedFrom l.unstable.offset l.unstable.entries ∧ l.unstable.snapshot = none ∧
      l.unstable.offset ≤ l.storage.lastIndex + 1 ∧ l.firstIndex = 1 ∧ l.lastIndex = 3 ∧
      l.slice 2 3 unlimited = .error .unstableSliceOutOfBound) ∧
    ∃ l : RaftLog, IndexedFrom l.storage.dummy.index l.storage.entries ∧
      IndexedFrom l.unstable.offset l.unstable.entries ∧ l.unstable.snapshot = none ∧
      l.unstable.offset ≤ l.storage.lastIndex + 1 ∧ l.firstIndex = 6 ∧ l.lastIndex = 2 := by
  constructor
  · exact ⟨{ straddling with unstable := { offset := 2 } }, by decide⟩
  · exact ⟨
      { straddling with
        storage := { entries := entriesFrom 5 [1], entries_ne_nil := List.cons_ne_nil _ _ }
        unstable := { offset := 2, entries := entriesFrom 2 [1] } }, by decide⟩

end RaftLog

end RaftCpp
