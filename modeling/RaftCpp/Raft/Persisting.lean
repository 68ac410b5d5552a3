import RaftCpp.Raft.PlainLog
import RaftCpp.Raft.PlainStorage

/-!
# What persisting changes

Writing what was taken to the storage changes nothing that can be read from the log. To advance past it
changes nothing either, whatever became of the log in the meantime, unless a newer snapshot is to be
installed and nothing is left above it.
-/

namespace RaftCpp

open Outcome

namespace RaftLog

variable {l l' : RaftLog} {rd : Ready} {a i k : ℕ} {s : MemoryStorage}

/-- What was taken can be written to the storage, which then holds it. -/
theorem InRound.persist_ok (hr : l.InRound rd false a) : ∃ s, rd.persist l.storage = .ok s ∧
    (rd.snapshot.isEmpty = true →
      s.dummy = l.storage.dummy ∧ ∀ i < a, s.plain.get? i = l.storage.plain.get? i) ∧
    (rd.snapshot.isEmpty = false →
      s.dummy.index = rd.snapshot.metadata.index ∧ s.dummy.term = rd.snapshot.metadata.term) ∧
    (rd.entries ≠ [] → ∀ i, a ≤ i → s.dummy.index < i → s.plain.get? i = rd.entries[i - a]?) := by
  obtain ⟨hempty, hfull⟩ := hr.writable rfl
  unfold Ready.persist
  dsimp only
  cases he : rd.snapshot.isEmpty with
  | true =>
    obtain ⟨hdummy, ha, happlied⟩ := hempty he
    simp only [if_true]
    by_cases hnil : rd.entries = []
    · rw [hnil]
      exact ⟨l.storage, rfl, fun _ => ⟨rfl, fun _ _ => rfl⟩, nofun, fun hne => absurd rfl hne⟩
    · have hpos := List.length_pos_iff.mpr hnil
      obtain ⟨s, happ, -, -, hd, hentries⟩ :=
        MemoryStorage.append_ok hr.entries_indexed hnil ha (by omega)
      refine ⟨s, happ, fun _ => ⟨hd, fun i hi => ?_⟩, nofun, fun _ i hi hlt => ?_⟩
      · obtain hle | hgt := Nat.lt_or_ge l.storage.dummy.index i
        · rw [MemoryStorage.plain_append hd ha hentries hle, if_pos hi]
        · rw [MemoryStorage.plain_get?_of_le (by rwa [hd]), MemoryStorage.plain_get?_of_le hgt]
      · rw [hd] at hlt
        rw [MemoryStorage.plain_append hd ha hentries hlt, if_neg (Nat.not_lt.mpr hi)]
  | false =>
    have hnew := hfull he
    obtain ⟨-, ha⟩ := hr.snapshot_gt he
    obtain ⟨s₁, happ, hd₁, ht₁, hlast₁⟩ : ∃ s₁ : MemoryStorage,
        (l.storage.applySnapshot rd.snapshot).2 = s₁ ∧
        s₁.dummy.index = rd.snapshot.metadata.index ∧ s₁.dummy.term = rd.snapshot.metadata.term ∧
        s₁.lastIndex = rd.snapshot.metadata.index := by
      unfold MemoryStorage.applySnapshot
      rw [if_neg (by omega)]
      exact ⟨_, rfl, rfl, rfl, rfl⟩
    simp only [Bool.false_eq_true, if_false]
    rw [happ]
    by_cases hnil : rd.entries = []
    · rw [hnil]
      exact ⟨s₁, rfl, nofun, fun _ => ⟨hd₁, ht₁⟩, fun hne => absurd rfl hne⟩
    · have hpos := List.length_pos_iff.mpr hnil
      obtain ⟨s, happ, -, -, hd, hentries⟩ :=
        MemoryStorage.append_ok hr.entries_indexed hnil (s := s₁) (by omega) (by omega)
      refine ⟨s, happ, nofun, fun _ => by rw [hd]; exact ⟨hd₁, ht₁⟩, fun _ i hi hlt => ?_⟩
      rw [hd] at hlt
      rw [MemoryStorage.plain_append hd (by omega) hentries hlt, if_neg (Nat.not_lt.mpr hi)]

/-! ## Logs that read alike -/

/-- Nothing that can be read from the one log differs from the other. -/
structure Alike (l l' : RaftLog) : Prop where
  /-- `first_index`. -/
  firstIndex : l.firstIndex = l'.firstIndex
  /-- `last_index`. -/
  lastIndex : l.lastIndex = l'.lastIndex
  /-- `term`. -/
  term : ∀ i, l.term i = l'.term i
  /-- `slice`. -/
  slice : ∀ low high maxSize, l.slice low high maxSize = l'.slice low high maxSize

/-- Layered logs that denote one list read alike. -/
theorem Layered.alike (h : l.Layered) (h' : l'.Layered) (heq : l.plain = l'.plain) : l.Alike l' := by
  have hfirst : l.firstIndex = l'.firstIndex := by
    rw [← plain_firstIndex l, heq, plain_firstIndex]
  have hlast : l.lastIndex = l'.lastIndex := by
    rw [← h.plain_lastIndex, heq, h'.plain_lastIndex]
  constructor
  · exact hfirst
  · exact hlast
  · intro i
    rw [h.term_eq, h'.term_eq, heq]
  · intro low high maxSize
    obtain ⟨hbelow, habove, hswap⟩ := h.slice_outside low high maxSize
    obtain ⟨hbelow', habove', hswap'⟩ := h'.slice_outside low high maxSize
    by_cases hle : low ≤ high
    · by_cases hlow : low < l.firstIndex
      · rw [hbelow hlow hle, hbelow' (by omega) hle]
      · by_cases hhigh : l.lastIndex + 1 < high
        · rw [habove (by omega) hle hhigh, habove' (by omega) hle (by omega)]
        · rw [h.slice_eq (by omega) hle (by omega), h'.slice_eq (by omega) hle (by omega), heq]
    · rw [hswap (by omega), hswap' (by omega)]

/-- Logs that start, end, and hold the same read alike. -/
theorem Layered.alike_of_get? (h : l.Layered) (h' : l'.Layered) (hfirst : l.firstIndex = l'.firstIndex)
    (hlast : l.lastIndex = l'.lastIndex) (hterm : l.baseTerm = l'.baseTerm)
    (hget : ∀ i, l.firstIndex ≤ i → i ≤ l.lastIndex → l.plain.get? i = l'.plain.get? i) :
    l.Alike l' := by
  apply h.alike h'
  apply BasedLog.ext_get?
  · rw [plain_base, plain_base, hfirst]
  · exact hterm
  · rw [h.plain_lastIndex, h'.plain_lastIndex, hlast]
  · rw [plain_firstIndex, h.plain_lastIndex]
    exact hget

/-! ## Writing -/

/-- Writing what was taken to the storage changes nothing that can be read from the log. -/
theorem Sound.alike_persist (h : l.Sound) (hr : l.InRound rd false a)
    (hs : rd.persist l.storage = .ok s) : ({ l with storage := s } : RaftLog).Alike l := by
  obtain ⟨hsound, -⟩ := h.persist hr s hs
  obtain ⟨s', hs', hempty, -, -⟩ := hr.persist_ok
  obtain rfl : s = s' := Except.ok.inj (hs.symm.trans hs')
  have hdummy : l.unstable.snapshot = none → s.dummy = l.storage.dummy := fun hnone =>
    (hempty (hr.of_none hnone).1).1
  have hfirst : ({ l with storage := s } : RaftLog).firstIndex = l.firstIndex := by
    cases hp : l.unstable.snapshot with
    | none =>
      rw [Sound.firstIndex_of_none (l := l) hp, Sound.firstIndex_of_none (l := { l with storage := s }) hp]
      exact congrArg (·.index + 1) (hdummy hp)
    | some t =>
      rw [Sound.firstIndex_of_some (l := l) hp, Sound.firstIndex_of_some (l := { l with storage := s }) hp]
  have hlast : ({ l with storage := s } : RaftLog).lastIndex = l.lastIndex :=
    Nat.succ.inj (hsound.lastIndex_succ.trans h.lastIndex_succ.symm)
  have hterm : ({ l with storage := s } : RaftLog).baseTerm = l.baseTerm := by
    unfold baseTerm
    rw [hfirst]
    cases hp : l.unstable.snapshot with
    | none =>
      dsimp only
      rw [hdummy hp]
    | some t => rfl
  apply hsound.layered.alike_of_get? h.layered hfirst hlast hterm
  intro i hi _
  rw [hfirst] at hi
  obtain hoff | hoff := Nat.lt_or_ge i l.unstable.offset
  · -- Below the offset, nothing was written.
    obtain ⟨hnone, -⟩ := h.storage_of_lt hi hoff
    obtain ⟨hrd, hle, -⟩ := hr.of_none hnone
    obtain ⟨hd, hsame⟩ := hempty hrd
    have hlow := h.dummy_lt_firstIndex
    have hsame' := hsame i (by omega)
    rw [MemoryStorage.plain_get? (by rw [hd]; omega), MemoryStorage.plain_get? (by omega)] at hsame'
    rw [hsound.layered.plain_get?_of_lt (by rwa [hfirst]) hoff, h.layered.plain_get?_of_lt hi hoff]
    exact hsame'
  · rw [hsound.layered.plain_get?_of_le (by rwa [hfirst]) hoff, h.layered.plain_get?_of_le hi hoff]

/-- The last entry that was taken is then in the storage. -/
theorem InRound.stored_last (hr : l.InRound rd false a) (hs : rd.persist l.storage = .ok s)
    {e : Entry} (he : rd.entries.getLast? = some e) : s.plain.get? e.index = some e := by
  obtain ⟨s', hs', hempty, hfull, hentries⟩ := hr.persist_ok
  obtain rfl : s = s' := Except.ok.inj (hs.symm.trans hs')
  have hindex := hr.entries_indexed.getLast? he
  have hne : rd.entries ≠ [] := fun hnil => by
    rw [hnil] at he
    cases he
  have hpos := List.length_pos_iff.mpr hne
  have hlow : s.dummy.index < e.index := by
    cases hsnap : rd.snapshot.isEmpty with
    | true =>
      obtain ⟨hdummy, -, happlied⟩ := (hr.writable rfl).1 hsnap
      rw [(hempty hsnap).1]
      omega
    | false =>
      obtain ⟨-, ha⟩ := hr.snapshot_gt hsnap
      rw [(hfull hsnap).1]
      omega
  rw [hentries hne e.index (by omega) hlow, ← he, List.getLast?_eq_getElem?]
  congr 1
  omega

/-! ## Advancing -/

/-- What was taken is all that is left above a newer snapshot to install, and the node forgets it. -/
def Loses (l : RaftLog) (rd : Ready) : Prop :=
  l.DropsAbove rd ∧ ∃ e ∈ rd.entries.getLast?, e.index = l.lastIndex

/-- An unstable part that is forgotten up to an index, below which the storage holds the list, reads
alike. -/
theorem Sound.alike_forget (h : l.Sound) {u : Unstable} {n : ℕ} (hoff : l.unstable.offset ≤ k)
    (hk : k ≤ l.lastIndex + 1)
    (hu : u.offset = k ∧ u.entries = l.unstable.entries.drop (k - l.unstable.offset))
    (hfirst : ({ l with unstable := u, applied := n } : RaftLog).firstIndex = l.firstIndex)
    (hlast : ({ l with unstable := u, applied := n } : RaftLog).lastIndex = l.lastIndex)
    (hterm : ({ l with unstable := u, applied := n } : RaftLog).baseTerm = l.baseTerm)
    (hstored : l.firstIndex < k → k ≤ l.storage.lastIndex + 1 ∧
      ∀ i, l.firstIndex ≤ i → i < k → l.storage.plain.get? i = l.plain.get? i) :
    ({ l with unstable := u, applied := n } : RaftLog).Alike l := by
  obtain ⟨hoffset, hentries⟩ := hu
  have hend := h.lastIndex_succ
  have hlow := h.dummy_lt_firstIndex
  have hlen : u.entries.length = l.lastIndex + 1 - k := by
    rw [hentries, List.length_drop]
    omega
  have hlayered : ({ l with unstable := u, applied := n } : RaftLog).Layered := by
    constructor
    · rw [hlast]
      dsimp only
      omega
    · rw [hfirst, hlast]
      exact h.layered.firstIndex_le
    · rw [hfirst]
      intro hlt
      dsimp only at hlt ⊢
      exact ⟨hlow, by have := (hstored (by omega)).1; omega⟩
  apply hlayered.alike_of_get? h.layered hfirst hlast hterm
  intro i hi _
  rw [hfirst] at hi
  obtain hik | hik := Nat.lt_or_ge i k
  · rw [hlayered.plain_get?_of_lt (by rwa [hfirst]) (by dsimp only; omega)]
    have hsame := (hstored (by omega)).2 i hi hik
    rwa [MemoryStorage.plain_get? (by omega)] at hsame
  · rw [hlayered.plain_get?_of_le (by rwa [hfirst]) (by dsimp only; omega),
      h.layered.plain_get?_of_le hi (by omega)]
    dsimp only
    rw [hentries, hoffset, List.getElem?_drop]
    congr 1
    omega

/-- Of the entries that were taken and are forgotten, the storage holds the same ones as the log. -/
theorem Sound.stored_of_consistent (h : l.Sound) {e : Entry} (hentry : l.storage.plain.get? e.index = some e)
    (hcons : l.storage.plain.Consistent Entry.term l.plain)
    (hmaybe : l.unstable.maybeTerm e.index = some e.term) (hoff : l.unstable.offset ≤ e.index) :
    l.firstIndex ≤ e.index ∧
      (∀ i, l.firstIndex ≤ i → i < e.index + 1 → l.storage.plain.get? i = l.plain.get? i) ∧
      (l.unstable.snapshot = none → l.storage.dummy.term = l.baseTerm) := by
  have hlow := h.dummy_lt_firstIndex
  have hdummy : l.storage.dummy.index < e.index := by
    have hsome := BasedLog.get?_isSome.mp (Option.isSome_of_mem hentry)
    exact hsome.1
  have hfirst : l.firstIndex ≤ e.index := by
    cases hp : l.unstable.snapshot with
    | none =>
      rw [Sound.firstIndex_of_none hp]
      exact hdummy
    | some s =>
      rw [Sound.firstIndex_of_some hp, ← h.pending_offset s hp]
      exact hoff
  -- The entry of the log at that index.
  unfold Unstable.maybeTerm at hmaybe
  rw [if_neg (by omega)] at hmaybe
  obtain ⟨e', hget, hterm⟩ := Option.map_eq_some_iff.mp hmaybe
  rw [← h.layered.plain_get?_of_le hfirst hoff] at hget
  have hupto := hcons e.index e e' hentry hget hterm.symm
  constructor
  · exact hfirst
  constructor
  · intro i hi hlt
    have hbase : l.storage.plain.firstIndex ≤ i := by
      show l.storage.dummy.index + 1 ≤ i
      omega
    exact (hupto i (by omega)).1 hbase (by rwa [plain_firstIndex])
  · intro hnone
    have hbase : l.plain.base = l.storage.dummy.index := by
      rw [plain_base, Sound.firstIndex_of_none hnone]
      rfl
    have hsame := (hupto l.storage.dummy.index (Nat.le_of_lt hdummy)).2 (Nat.le_refl _)
      (Nat.le_of_eq hbase)
    unfold BasedLog.termAt at hsame
    rw [if_pos (show l.storage.dummy.index = l.storage.plain.base from rfl), if_pos hbase.symm] at hsame
    exact hsame

/-- Where the last index of a log is, of what is left of its unstable part. -/
theorem lastIndex_forget (hend : l.lastIndex + 1 = l.unstable.offset + l.unstable.entries.length)
    (hoff : l.unstable.offset ≤ k) (hk : k ≤ l.lastIndex) {u : Unstable} {n : ℕ} (hoffset : u.offset = k)
    (hentries : u.entries = l.unstable.entries.drop (k - l.unstable.offset)) :
    ({ l with unstable := u, applied := n } : RaftLog).lastIndex = l.lastIndex := by
  have hlen : u.entries.length = l.lastIndex + 1 - k := by
    rw [hentries, List.length_drop]
    omega
  have hne : ({ l with unstable := u, applied := n } : RaftLog).unstable.entries ≠ [] := fun hnil => by
    have := congrArg List.length hnil
    dsimp only at this
    rw [List.length_nil] at this
    omega
  rw [lastIndex_of_ne_nil hne]
  dsimp only
  omega

variable (h : l.Sound) (hr : l.InRound rd true a)
include h hr

/-- A round that leaves the unstable part as it is, perhaps without its snapshot. -/
theorem InRound.alike_of_kept (hsnap : rd.snapshot.isEmpty = false →
      l.unstable.snapshot = some rd.snapshot → l.storage.dummy.index = rd.snapshot.metadata.index ∧
        l.storage.dummy.term = rd.snapshot.metadata.term)
    (hkept : stabilized l.unstable rd = l.unstable) : (l.advance rd).Alike l := by
  rw [advance_eq, hkept]
  cases he : rd.snapshot.isEmpty with
  | true => exact ⟨rfl, rfl, fun _ => rfl, fun _ _ _ => rfl⟩
  | false =>
    rw [if_neg (by simp)]
    unfold Unstable.stableSnapTo
    split_ifs with hindex
    · -- The snapshot is the one of the round.
      obtain ⟨s, hs, hsindex⟩ := Option.map_eq_some_iff.mp hindex
      have hown : l.HasSnapshotOf rd ∧ (l.unstable.entries = [] → rd.entries = []) := by
        cases hr.place with
        | kept hown hoff hpre => exact ⟨hown, fun hnil => List.prefix_nil.mp (hnil ▸ hpre)⟩
        | cut hown hoff hne hc => exact ⟨hown, fun hnil => absurd hnil hne⟩
        | replaced s' hs' hc hnew hfresh =>
          rw [hs] at hs'
          cases hs'
          omega
      obtain ⟨hown, hnil⟩ := hown
      unfold HasSnapshotOf at hown
      rw [he, if_neg (by simp)] at hown
      obtain ⟨hdummy, hdummyTerm⟩ := hsnap he hown
      have hoffset := h.pending_offset _ hown
      have hfirst := Sound.firstIndex_of_some hown
      have hend := h.lastIndex_succ
      have hfirst' : ({ l with
          unstable := { l.unstable with snapshot := none }, applied := l.appliedAfter rd } : RaftLog).firstIndex =
          l.firstIndex := by
        rw [hfirst, Sound.firstIndex_of_none (l := { l with
          unstable := { l.unstable with snapshot := none }, applied := l.appliedAfter rd }) rfl]
        show l.storage.dummy.index + 1 = _
        rw [hdummy]
      apply h.alike_forget (k := l.unstable.offset) (Nat.le_refl _) (by omega)
      · rw [Nat.sub_self, List.drop_zero]
        exact ⟨rfl, rfl⟩
      · exact hfirst'
      · by_cases hentries : l.unstable.entries = []
        · have hwritten := hr.written rfl (Or.inr he)
          obtain ⟨-, ha⟩ := hr.snapshot_gt he
          rw [hnil hentries, List.length_nil] at hwritten
          rw [lastIndex_of_nil hentries, lastIndex_of_nil (l := { l with
            unstable := { l.unstable with snapshot := none }, applied := l.appliedAfter rd }) hentries, hown]
          show l.storage.lastIndex = rd.snapshot.metadata.index
          omega
        · rw [lastIndex_of_ne_nil hentries, lastIndex_of_ne_nil (l := { l with
            unstable := { l.unstable with snapshot := none }, applied := l.appliedAfter rd }) hentries]
      · unfold baseTerm
        rw [hfirst', hfirst, hown]
        dsimp only
        rw [if_neg (by omega), if_neg (by omega), hdummyTerm]
      · intro hlt
        omega
    · exact ⟨rfl, rfl, fun _ => rfl, fun _ _ _ => rfl⟩

variable {e : Entry} (he : rd.entries.getLast? = some e)
  (hentry : l.storage.plain.get? e.index = some e)
  (hcons : l.storage.plain.Consistent Entry.term l.plain)
  (hmaybe : l.unstable.maybeTerm e.index = some e.term) (hoff : l.unstable.offset ≤ e.index)
  (hle : e.index ≤ l.lastIndex)
  (hstab : stabilized l.unstable rd = { l.unstable with
    entries := l.unstable.entries.drop (e.index + 1 - l.unstable.offset), offset := e.index + 1 })
include he hentry hcons hmaybe hoff hle hstab

/-- A round that forgets what was taken, its snapshot included. -/
theorem InRound.alike_of_own (hsnap : rd.snapshot.isEmpty = false →
      l.unstable.snapshot = some rd.snapshot → l.storage.dummy.index = rd.snapshot.metadata.index ∧
        l.storage.dummy.term = rd.snapshot.metadata.term)
    (hown : l.HasSnapshotOf rd) : (l.advance rd).Alike l := by
  have hend := h.lastIndex_succ
  have hne : rd.entries ≠ [] := fun hnil => by
    rw [hnil] at he
    cases he
  have hwritten := hr.written rfl (Or.inl hne)
  have hindex := hr.entries_indexed.getLast? he
  obtain ⟨hfirst, hstored, hbase⟩ := h.stored_of_consistent hentry hcons hmaybe hoff
  have hadvance : l.advance rd = { l with
      unstable := { snapshot := none, entries := l.unstable.entries.drop (e.index + 1 - l.unstable.offset),
                    offset := e.index + 1 }
      applied := l.appliedAfter rd } := by
    rw [advance_eq, hstab]
    unfold HasSnapshotOf at hown
    cases hempty : rd.snapshot.isEmpty with
    | true =>
      rw [hempty, if_pos rfl] at hown
      rw [if_pos rfl]
      dsimp only
      rw [hown]
    | false =>
      rw [hempty, if_neg (by simp)] at hown
      unfold Unstable.stableSnapTo
      rw [if_neg (by simp), hown]
      simp
  -- The placeholder of the storage is where the log starts.
  have hdummy : l.storage.dummy.index + 1 = l.firstIndex ∧ l.storage.dummy.term = l.baseTerm := by
    unfold HasSnapshotOf at hown
    cases hempty : rd.snapshot.isEmpty with
    | true =>
      rw [hempty, if_pos rfl] at hown
      exact ⟨(Sound.firstIndex_of_none hown).symm, hbase hown⟩
    | false =>
      rw [hempty, if_neg (by simp)] at hown
      obtain ⟨hd, ht⟩ := hsnap hempty hown
      have hoffset := h.pending_offset _ hown
      have hfirst' := Sound.firstIndex_of_some hown
      constructor
      · rw [hd, hfirst']
      · unfold baseTerm
        rw [if_neg (by omega), hown, ht]
  obtain ⟨hdummy, hdummyTerm⟩ := hdummy
  rw [hadvance]
  generalize hu : ({ snapshot := none, entries := l.unstable.entries.drop (e.index + 1 - l.unstable.offset),
                     offset := e.index + 1 } : Unstable) = u
  have hu' : u.snapshot = none ∧ u.offset = e.index + 1 ∧
      u.entries = l.unstable.entries.drop (e.index + 1 - l.unstable.offset) := by
    rw [← hu]
    exact ⟨rfl, rfl, rfl⟩
  obtain ⟨hnone, hoffset, hentries⟩ := hu'
  have hfirst' : ({ l with unstable := u, applied := l.appliedAfter rd } : RaftLog).firstIndex =
      l.firstIndex := by
    rw [← hdummy]
    exact Sound.firstIndex_of_none hnone
  apply h.alike_forget (k := e.index + 1) (by omega) (by omega) ⟨hoffset, hentries⟩ hfirst'
  · obtain hlt | heq := Nat.lt_or_eq_of_le hle
    · exact lastIndex_forget hend (by omega) (by omega) hoffset hentries
    · have hnil : u.entries = [] := by
        rw [hentries]
        exact List.drop_eq_nil_iff.mpr (by omega)
      rw [lastIndex_of_nil (l := { l with unstable := u, applied := l.appliedAfter rd }) hnil]
      dsimp only
      rw [hnone]
      show l.storage.lastIndex = _
      omega
  · show RaftLog.baseTerm _ = _
    rw [← hdummyTerm]
    unfold baseTerm
    rw [hfirst']
    dsimp only
    rw [hnone, if_neg (by omega)]
  · intro _
    exact ⟨by omega, hstored⟩

/-- A round that forgets what was taken below a newer snapshot. -/
theorem InRound.alike_of_replaced {s : Snapshot} (hs : l.unstable.snapshot = some s)
    (hnew : rd.snapshot.metadata.index < s.metadata.index) :
    (l.advance rd).Alike l ↔ e.index ≠ l.lastIndex := by
  have hend := h.lastIndex_succ
  have hne : rd.entries ≠ [] := fun hnil => by
    rw [hnil] at he
    cases he
  have hwritten := hr.written rfl (Or.inl hne)
  have hindex := hr.entries_indexed.getLast? he
  have hpending := h.pending_offset s hs
  have hfirst := Sound.firstIndex_of_some hs
  obtain ⟨-, hstored, -⟩ := h.stored_of_consistent hentry hcons hmaybe hoff
  have hadvance : l.advance rd = { l with
      unstable := { l.unstable with
        entries := l.unstable.entries.drop (e.index + 1 - l.unstable.offset), offset := e.index + 1 }
      applied := l.appliedAfter rd } := by
    rw [advance_eq, hstab]
    unfold Unstable.stableSnapTo
    rw [hs, if_neg (show ¬Option.map _ (some s) = some rd.snapshot.metadata.index by
      simp only [Option.map_some, Option.some.injEq]
      omega)]
    split_ifs
    · rfl
    · rfl
  rw [hadvance]
  generalize hu : ({ l.unstable with
    entries := l.unstable.entries.drop (e.index + 1 - l.unstable.offset),
    offset := e.index + 1 } : Unstable) = u
  have hu' : u.snapshot = some s ∧ u.offset = e.index + 1 ∧
      u.entries = l.unstable.entries.drop (e.index + 1 - l.unstable.offset) := by
    rw [← hu]
    exact ⟨hs, rfl, rfl⟩
  obtain ⟨hsome, hoffset, hentries⟩ := hu'
  have hfirst' : ({ l with unstable := u, applied := l.appliedAfter rd } : RaftLog).firstIndex =
      l.firstIndex := by
    rw [hfirst]
    exact Sound.firstIndex_of_some hsome
  constructor
  · intro halike heq
    -- Nothing is left, so that the log ends with the snapshot.
    have hnil : u.entries = [] := by
      rw [hentries]
      exact List.drop_eq_nil_iff.mpr (by omega)
    have hlast := halike.lastIndex
    rw [lastIndex_of_nil (l := { l with unstable := u, applied := l.appliedAfter rd }) hnil] at hlast
    dsimp only at hlast
    rw [hsome] at hlast
    have hlast : s.metadata.index = l.lastIndex := hlast
    omega
  · intro hne'
    apply h.alike_forget (k := e.index + 1) (by omega) (by omega) ⟨hoffset, hentries⟩ hfirst'
    · exact lastIndex_forget hend (by omega) (by omega) hoffset hentries
    · unfold baseTerm
      rw [hfirst']
      dsimp only
      rw [hsome, hs, if_neg (by omega), if_neg (by omega)]
    · intro _
      exact ⟨by omega, hstored⟩

omit he hentry hcons hmaybe hoff hle hstab

/-- A round changes nothing that can be read from the log, unless it loses what was taken. -/
theorem InRound.alike_advance_iff (hsnap : rd.snapshot.isEmpty = false →
      l.unstable.snapshot = some rd.snapshot → l.storage.dummy.index = rd.snapshot.metadata.index ∧
        l.storage.dummy.term = rd.snapshot.metadata.term)
    (hlast : ∀ e ∈ rd.entries.getLast?, l.storage.plain.get? e.index = some e)
    (hcons : l.storage.plain.Consistent Entry.term l.plain) :
    (l.advance rd).Alike l ↔ ¬l.Loses rd := by
  have hend := h.lastIndex_succ
  have hk : ∀ e ∈ rd.entries.getLast?, e.index + 1 = a + rd.entries.length := fun e he =>
    hr.entries_indexed.getLast? he
  obtain ⟨hkept, hnot⟩ | ⟨-, -, hle, hstab, e, he, hmaybe, hoff⟩ := stabilized_cases l.unstable rd hk
  · constructor
    · rintro - ⟨⟨s, -, -, e, he, hfire⟩, -⟩
      exact hnot e he hfire
    · exact fun _ => hr.alike_of_kept h hsnap hkept
  rw [← hk e he] at hle hstab
  have hown : l.HasSnapshotOf rd → ((l.advance rd).Alike l ↔ ¬l.Loses rd) := by
    intro hown
    have halike := hr.alike_of_own h he (hlast e he) hcons hmaybe hoff (by omega) hstab hsnap hown
    apply iff_of_true halike
    rintro ⟨⟨s, hs, hne, -⟩, -⟩
    unfold HasSnapshotOf at hown
    rw [show l.unstable.snapshot = some s from hs] at hown
    split_ifs at hown
    exact hne (congrArg (·.metadata.index) (Option.some.inj hown))
  cases hr.place with
  | kept hsame _ _ => exact hown hsame
  | cut hsame _ _ _ => exact hown hsame
  | replaced s hs _ hnew _ =>
    rw [hr.alike_of_replaced h he (hlast e he) hcons hmaybe hoff (by omega) hstab hs hnew]
    constructor
    · rintro hne ⟨-, e', he', heq⟩
      rw [he] at he'
      cases he'
      exact hne heq
    · intro hloses heq
      exact hloses ⟨⟨s, hs, Nat.ne_of_gt hnew, e, he, hmaybe, hoff⟩, e, he, heq⟩

end RaftLog

/-! ## The round as a whole -/

/-- Writing what was taken to the storage changes nothing that can be read from the log, whatever became
of the log in the meantime; and to advance past it changes nothing, unless that loses what was taken. -/
theorem persisting_invisible_iff {r : Raft} {preSoft : SoftState} {preHard : HardState} {rd : Ready}
    {l : RaftLog} (hsound : r.raftLog.Sound) (hfresh : r.raftLog.Fresh)
    (hrd : Ready.new r preSoft preHard = .ok rd) (hedits : r.raftLog.Edits l) :
    ∃ s, rd.persist l.storage = .ok s ∧ ({ l with storage := s } : RaftLog).Alike l ∧
      ∀ l', RaftLog.Edits { l with storage := s } l' → s.plain.Consistent Entry.term l'.plain →
        ((l'.advance rd).Alike l' ↔ ¬l'.Loses rd) := by
  obtain ⟨es, hnext, hrd⟩ := bind_eq_ok.mp hrd
  have htaken : rd.entries = r.raftLog.unstable.entries ∧
      rd.snapshot = r.raftLog.unstable.snapshot.getD {} ∧ rd.committedEntries = es := by
    cases hrd
    exact ⟨rfl, rfl, rfl⟩
  obtain ⟨hentries, hsnap, rfl⟩ := htaken
  have hround := (hsound.ready hfresh hentries hsnap hnext).edits hsound hedits
  have hsound' := hsound.edits hedits
  obtain ⟨s, hs, -, hfull, -⟩ := hround.persist_ok
  obtain ⟨hsound₁, hround₁⟩ := hsound'.persist hround s hs
  refine ⟨s, hs, hsound'.alike_persist hround hs, fun l' hedits' hcons => ?_⟩
  have hstorage : l'.storage = s := hedits'.frame.1
  apply (hround₁.edits hsound₁ hedits').alike_advance_iff (hsound₁.edits hedits')
  · intro hempty _
    rw [hstorage]
    exact hfull hempty
  · intro e he
    rw [hstorage]
    exact hround.stored_last hs he
  · rwa [hstorage]

/-- A node whose log is not persisted yet. -/
def unpersisted : Raft :=
  { (Host.started voterConfig).node.raft with
    raftLog :=
      { storage := .empty
        unstable := { offset := 1, entries := RaftLog.entriesFrom 1 [1, 1, 1] }
        committed := 0
        applied := 0
        maxNextEntsSize := RaftLog.unlimited } }

/-- The parts of its log fit together. -/
theorem unpersisted_sound : unpersisted.raftLog.Sound ∧ unpersisted.raftLog.Fresh := by
  constructor
  · constructor <;> decide
  · nofun

/-- The entries that are stored behind the dummy. -/
theorem stored_ne_nil : RaftLog.entriesFrom 0 [0, 1, 1, 1] ≠ [] := List.cons_ne_nil _ _

/-- The storage that its entries are written to. -/
def threeStored : MemoryStorage :=
  { entries := RaftLog.entriesFrom 0 [0, 1, 1, 1], entries_ne_nil := stored_ne_nil }

/-- What is taken of it. -/
theorem unpersisted_ready : ∃ rd, Ready.new unpersisted unpersisted.softState {} = .ok rd ∧
    rd.entries = RaftLog.entriesFrom 1 [1, 1, 1] ∧ rd.snapshot = {} ∧ rd.committedEntries = [] ∧
    rd.persist .empty = .ok threeStored :=
  ⟨_, rfl, rfl, rfl, rfl, rfl⟩

/-- Its entries are written and forgotten without a trace. -/
theorem persisting_invisible_iff_unpersisted : ∃ rd s,
    Ready.new unpersisted unpersisted.softState {} = .ok rd ∧ rd.persist .empty = .ok s ∧
      ∀ l', RaftLog.Edits { unpersisted.raftLog with storage := s } l' →
        s.plain.Consistent Entry.term l'.plain → ((l'.advance rd).Alike l' ↔ ¬l'.Loses rd) := by
  obtain ⟨rd, hrd, -⟩ := unpersisted_ready
  obtain ⟨s, hs, -, hadvance⟩ := persisting_invisible_iff unpersisted_sound.1 unpersisted_sound.2 hrd
    Relation.ReflTransGen.refl
  exact ⟨rd, s, hrd, hs, hadvance⟩

/-- What becomes of its log when the second entry is replaced, a snapshot of the original one comes in,
and the third entry is appended to it again. -/
def reappended (s : MemoryStorage) : RaftLog :=
  { storage := s
    unstable :=
      { snapshot := some { metadata := { index := 2, term := 1 } }
        entries := RaftLog.entriesFrom 3 [1]
        offset := 3 }
    committed := 2
    applied := 0
    maxNextEntsSize := RaftLog.unlimited }

/-- These are changes that a log goes through. -/
theorem reappended_edits : unpersisted.raftLog.Edits (reappended .empty) := by
  have hcut := RaftLog.Edit.cut (l := unpersisted.raftLog) 2 (RaftLog.entriesFrom 2 [2]) (by decide)
    (by decide) (by decide) (by decide)
  have hrestore := RaftLog.Edit.restore
    (l := { unpersisted.raftLog with
      unstable := RaftLog.cutAt unpersisted.raftLog.unstable 2 (RaftLog.entriesFrom 2 [2]) })
    { metadata := { index := 2, term := 1 } } (by decide)
  have happend := RaftLog.Edit.append
    (l := { unpersisted.raftLog with
      committed := 2, unstable := .restore { metadata := { index := 2, term := 1 } } })
    (RaftLog.entriesFrom 3 [1]) (by decide) (by decide)
  exact ((Relation.ReflTransGen.single hcut).tail hrestore).tail happend

/-- Where the log ends with the third entry again, it is the one that was stored. -/
theorem reappended_consistent :
    threeStored.plain.Consistent Entry.term (reappended threeStored).plain := by
  intro i e e' _ he' _ j hj
  have hi := (BasedLog.get?_isSome.mp (Option.isSome_of_mem he')).2
  have hlast : (reappended threeStored).plain.lastIndex = 3 := rfl
  constructor
  · intro _ hlow
    have hfirst : (reappended threeStored).plain.firstIndex = 3 := rfl
    obtain rfl : j = 3 := by omega
    rfl
  · intro _ hlow
    have hbase : (reappended threeStored).plain.base = 2 := rfl
    obtain rfl | rfl : j = 2 ∨ j = 3 := by omega
    · rfl
    · rfl

/-- The third entry is lost, where it is appended again above a snapshot that is still to be
installed. -/
theorem persisting_loses_entry : ¬∀ (r : Raft) (preSoft : SoftState) (preHard : HardState) (rd : Ready)
    (l : RaftLog), r.raftLog.Sound → r.raftLog.Fresh → Ready.new r preSoft preHard = .ok rd →
      r.raftLog.Edits l → ∀ s, rd.persist l.storage = .ok s →
        s.plain.Consistent Entry.term ({ l with storage := s } : RaftLog).plain →
          (({ l with storage := s } : RaftLog).advance rd).Alike l := by
  intro hall
  obtain ⟨rd, hrd, hentries, hsnap, hcommitted, hs⟩ := unpersisted_ready
  have halike := hall unpersisted _ _ rd (reappended .empty) unpersisted_sound.1 unpersisted_sound.2 hrd
    reappended_edits threeStored hs reappended_consistent
  have hlast := halike.lastIndex
  rw [RaftLog.advance_eq] at hlast
  unfold RaftLog.stabilized at hlast
  rw [hentries, hsnap] at hlast
  have hlast : 2 = 3 := hlast
  exact absurd hlast (by decide)

end RaftCpp
