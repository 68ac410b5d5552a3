import RaftCpp.Raft.Booting
import RaftCpp.Raft.PlainLog

/-!
# Accepting entries

What `maybe_append` makes of the list that a log denotes, and what a node acknowledges after it.
-/

namespace RaftCpp

open Outcome

namespace RaftLog

variable {l l' : RaftLog} {index logTerm commit k n : ℕ} {es : List Entry}

/-! ## Conflicts -/

/-- The position of the first entry whose term is not the log's. -/
def firstConflict (l : RaftLog) (es : List Entry) : Option ℕ :=
  es.findIdx? fun e => l.plain.termAt Entry.term e.index ≠ e.term

/-- Without a conflict, the log has the terms of the entries. -/
theorem firstConflict_eq_none :
    l.firstConflict es = none ↔ ∀ e ∈ es, l.plain.termAt Entry.term e.index = e.term := by
  unfold firstConflict
  rw [List.findIdx?_eq_none_iff]
  simp

/-- Before the conflict, the log has the terms of the entries. -/
theorem firstConflict_eq_some :
    l.firstConflict es = some n ↔ ∃ e, es[n]? = some e ∧ l.plain.termAt Entry.term e.index ≠ e.term ∧
      ∀ i < n, ∀ e', es[i]? = some e' → l.plain.termAt Entry.term e'.index = e'.term := by
  unfold firstConflict
  rw [List.findIdx?_eq_some_iff_getElem]
  constructor
  · rintro ⟨hlt, hn, hbefore⟩
    refine ⟨es[n], List.getElem?_eq_getElem hlt, by simpa using hn, fun i hi e' he' => ?_⟩
    obtain ⟨hi', rfl⟩ := List.getElem?_eq_some_iff.mp he'
    simpa using hbefore i hi
  · rintro ⟨e, he, hn, hbefore⟩
    obtain ⟨hlt, rfl⟩ := List.getElem?_eq_some_iff.mp he
    refine ⟨hlt, by simpa using hn, fun i hi => ?_⟩
    have := hbefore i hi _ (List.getElem?_eq_getElem (hi.trans hlt))
    simpa using this

/-- `find_conflict` returns the index of the first entry in conflict, or zero. -/
theorem Layered.findConflict_eq (h : l.Layered) : ∀ es : List Entry,
    l.findConflict es = ((l.firstConflict es).bind fun n => es[n]?.map (·.index)).getD 0
  | [] => rfl
  | e :: es => by
    have ih := h.findConflict_eq es
    unfold firstConflict at ih ⊢
    rw [findConflict, List.findIdx?_cons]
    by_cases hm : l.matchTerm e.index e.term = true
    · rw [if_pos hm, ih]
      rw [h.matchTerm_iff] at hm
      rw [if_neg (by simpa using hm)]
      cases es.findIdx? _ with
      | none => rfl
      | some n => rfl
    · rw [if_neg hm]
      rw [h.matchTerm_iff] at hm
      rw [if_pos (by simpa using hm)]
      rfl

/-- Of consecutive entries, it is the conflict's position that decides. -/
theorem Layered.findConflict_of_indexed (h : l.Layered) (hes : IndexedFrom k es) :
    l.findConflict es = ((l.firstConflict es).map (k + ·)).getD 0 := by
  rw [h.findConflict_eq es]
  cases hn : l.firstConflict es with
  | none => rfl
  | some n =>
    obtain ⟨e, he, -⟩ := firstConflict_eq_some.mp hn
    simp only [Option.bind_some, he, Option.map_some, Option.getD_some]
    exact hes n e he

/-! ## What `maybe_append` does -/

/-- A log commits up to an index that is committed already, or not past its end. -/
theorem commitTo_iff : l.commitTo k = .ok l' ↔
    (l.committed < k → k ≤ l.lastIndex) ∧ l' = { l with committed := max l.committed k } := by
  unfold commitTo
  split_ifs with hlt hout
  · simp [hlt, hout]
  · simp [hlt, Nat.le_of_not_lt hout, Nat.max_eq_right (Nat.le_of_lt hlt), eq_comm]
  · rw [Nat.max_eq_left (Nat.le_of_not_lt hlt)]
    constructor
    · rintro ⟨⟩
      exact ⟨fun h => absurd h hlt, rfl⟩
    · rintro ⟨-, rfl⟩
      rfl

/-- A log commits up to an index that is not past its end. -/
theorem commitTo_eq (h : k ≤ l.lastIndex) :
    l.commitTo k = .ok { l with committed := max l.committed k } :=
  commitTo_iff.mpr ⟨fun _ => h, rfl⟩

/-- What a log is after it took the entries that follow an index, with a commit index. -/
structure Took (l : RaftLog) (index commit : ℕ) (es : List Entry) (l' : RaftLog) : Prop where
  /-- It is layered. -/
  layered : l'.Layered
  /-- It has the terms of the entries. -/
  agrees : ∀ e ∈ es, l'.plain.termAt Entry.term e.index = e.term
  /-- Without a conflict, all of the log is kept. -/
  kept : l.firstConflict es = none → l'.plain = l.plain
  /-- The entries before the conflict are kept. -/
  kept_below : ∀ n ∈ l.firstConflict es, ∀ i ≤ index + n, l'.plain.get? i = l.plain.get? i
  /-- From the conflict on, the log holds the entries. -/
  written : ∀ n ∈ l.firstConflict es, ∀ i, n ≤ i → l'.plain.get? (index + 1 + i) = es[i]?
  /-- With a conflict, the log ends with the entries. -/
  dropped_above : l.firstConflict es ≠ none → l'.lastIndex = index + es.length
  /-- The commit index is the given one, as far as the entries reach, unless it is the old one. -/
  committed : l'.committed = max l.committed (min commit (index + es.length))
  /-- The storage stays as it is. -/
  storage : l'.storage = l.storage
  /-- What is applied stays as it is. -/
  applied : l'.applied = l.applied

/-- The log reaches up to the entry before the conflict, where the terms of the entries are positive. -/
theorem Layered.le_lastIndex (h : l.Layered) (hindex : index ≤ l.lastIndex)
    (hes : IndexedFrom (index + 1) es) (hterm : ∀ e ∈ es, 0 < e.term)
    (hbefore : ∀ i < n, ∀ e, es[i]? = some e → l.plain.termAt Entry.term e.index = e.term)
    (hn : n ≤ es.length) : index + n ≤ l.lastIndex := by
  cases n with
  | zero => exact hindex
  | succ n =>
    have hget := List.getElem?_eq_getElem (l := es) (i := n) (by omega)
    have hmatch := hbefore n (Nat.lt_succ_self n) _ hget
    have hpos := hterm _ (List.mem_of_getElem? hget)
    rw [← hmatch, hes n _ hget] at hpos
    have hlast := (BasedLog.mem_of_termAt_pos hpos).2
    rw [h.plain_lastIndex] at hlast
    omega

/-- `maybe_append` of entries that the log has. -/
theorem Layered.maybeAppend_of_none (h : l.Layered) (hindex : index ≤ l.lastIndex)
    (hmatch : l.plain.termAt Entry.term index = logTerm) (hes : IndexedFrom (index + 1) es)
    (hterm : ∀ e ∈ es, 0 < e.term) (hnone : l.firstConflict es = none) :
    ∃ l', l.maybeAppend index logTerm commit es = .ok (some (index + es.length), l') ∧
      l.Took index commit es l' := by
  have hall := firstConflict_eq_none.mp hnone
  have hlast : index + es.length ≤ l.lastIndex :=
    h.le_lastIndex hindex hes hterm (fun i _ e he => hall e (List.mem_of_getElem? he)) (Nat.le_refl _)
  have hwrite : l.appendFrom index es = .ok l := by
    unfold appendFrom
    rw [h.findConflict_of_indexed hes, hnone]
    rfl
  have hcommit := commitTo_eq (l := l) (k := min commit (index + es.length)) (by omega)
  refine ⟨{ l with committed := max l.committed (min commit (index + es.length)) }, ?_, ?_⟩
  · unfold maybeAppend
    rw [if_pos (h.matchTerm_iff.mpr hmatch), hwrite]
    simp only [bind, Except.bind]
    rw [hcommit]
    rfl
  · constructor
    · exact ⟨h.lastIndex_succ, h.firstIndex_le, h.stored⟩
    · exact hall
    · exact fun _ => rfl
    · rw [hnone]
      exact nofun
    · rw [hnone]
      exact nofun
    · exact fun hne => absurd hnone hne
    · rfl
    · rfl
    · rfl

/-- `maybe_append` of entries that the log does not all have, all of them above what is committed. -/
theorem Layered.maybeAppend_of_some (h : l.Layered) (hfirst : l.firstIndex ≤ l.committed + 1)
    (hindex : index ≤ l.lastIndex) (hmatch : l.plain.termAt Entry.term index = logTerm)
    (hes : IndexedFrom (index + 1) es) (hterm : ∀ e ∈ es, 0 < e.term)
    (hsome : l.firstConflict es = some n) (hcommitted : l.committed < index + 1 + n) :
    ∃ l', l.maybeAppend index logTerm commit es = .ok (some (index + es.length), l') ∧
      l.Took index commit es l' := by
  obtain ⟨e, he, -, hbefore⟩ := firstConflict_eq_some.mp hsome
  have hn := (List.getElem?_eq_some_iff.mp he).1
  have hlast := h.le_lastIndex hindex hes hterm hbefore (Nat.le_of_lt hn)
  have hne : es.drop n ≠ [] := fun hnil => by
    have := List.drop_eq_nil_iff.mp hnil
    omega
  have hdrop := hes.drop n
  obtain ⟨u, happ, hlayered, hplain⟩ :=
    h.append_ok hdrop hne hcommitted (by omega) (by omega)
  have hlast' : ({ l with unstable := u } : RaftLog).lastIndex = index + es.length := by
    have hover : (l.plain.overwrite (index + 1 + n) (es.drop n)).lastIndex + 1 =
        index + 1 + n + (es.drop n).length :=
      BasedLog.lastIndex_overwrite (by rw [plain_firstIndex]; omega) (by rw [h.plain_lastIndex]; omega)
    rw [← hplain, hlayered.plain_lastIndex, List.length_drop] at hover
    omega
  have hwrite : l.appendFrom index es = .ok { l with unstable := u } := by
    have hsub : sub64 (index + 1 + n) (index + 1) = n := by
      rw [sub64_of_le (by omega)]
      omega
    unfold appendFrom
    rw [h.findConflict_of_indexed hes, hsome]
    simp only [Option.map_some, Option.getD_some]
    rw [hsub, if_neg (by omega), if_neg (by omega), if_neg (by omega), happ]
  have hcommit := commitTo_eq (l := { l with unstable := u }) (k := min commit (index + es.length))
    (by omega)
  -- What the list holds below the conflict, and from it on.
  have hlow : l.plain.firstIndex ≤ index + 1 + n := by
    rw [plain_firstIndex]
    omega
  have hhigh : index + 1 + n ≤ l.plain.lastIndex + 1 := by
    rw [h.plain_lastIndex]
    omega
  refine ⟨{ l with
    unstable := u, committed := max l.committed (min commit (index + es.length)) }, ?_, ?_⟩
  · unfold maybeAppend
    rw [if_pos (h.matchTerm_iff.mpr hmatch), hwrite]
    simp only [bind, Except.bind]
    rw [hcommit]
    rfl
  · have hplain' : ({ l with
        unstable := u, committed := max l.committed (min commit (index + es.length)) } : RaftLog).plain =
        l.plain.overwrite (index + 1 + n) (es.drop n) := hplain
    constructor
    · exact ⟨hlayered.lastIndex_succ, hlayered.firstIndex_le, hlayered.stored⟩
    · intro e' he'
      obtain ⟨i, hi⟩ := List.mem_iff_getElem?.mp he'
      rw [hplain', hes i e' hi]
      obtain hlt | hge := Nat.lt_or_ge i n
      · rw [BasedLog.termAt_overwrite_of_lt hhigh (by omega), ← hes i e' hi]
        exact hbefore i hlt e' hi
      · rw [BasedLog.termAt_overwrite_of_le hlow hhigh (by omega), List.getElem?_drop,
          show n + (index + 1 + i - (index + 1 + n)) = i by omega, hi]
        rfl
    · rw [hsome]
      exact nofun
    · rw [hsome]
      rintro _ ⟨⟩ i hi
      rw [hplain', BasedLog.get?_overwrite_of_lt hhigh (by omega)]
    · rw [hsome]
      rintro _ ⟨⟩ i hi
      rw [hplain', BasedLog.get?_overwrite_of_le hlow hhigh (by omega), List.getElem?_drop]
      congr 1
      omega
    · exact fun _ => hlast'
    · rfl
    · rfl
    · rfl

/-- `maybe_append`: where the log does not have the term at the index, nothing happens. Otherwise the
entries are taken, unless one of them conflicts with a committed one. -/
theorem maybeAppend_law (h : l.Layered) (hfirst : l.firstIndex ≤ l.committed + 1)
    (hindex : index ≤ l.lastIndex ∨ 0 < logTerm) (hes : IndexedFrom (index + 1) es)
    (hterm : ∀ e ∈ es, 0 < e.term) :
    (l.plain.termAt Entry.term index ≠ logTerm →
      l.maybeAppend index logTerm commit es = .ok (none, l)) ∧
    (l.plain.termAt Entry.term index = logTerm →
      ((∃ n ∈ l.firstConflict es, index + 1 + n ≤ l.committed) →
        ∃ ci, l.maybeAppend index logTerm commit es =
          .error (.conflictWithCommitted ci l.committed)) ∧
      ((∀ n ∈ l.firstConflict es, l.committed < index + 1 + n) →
        ∃ l', l.maybeAppend index logTerm commit es = .ok (some (index + es.length), l') ∧
          l.Took index commit es l')) := by
  constructor
  · intro hne
    unfold maybeAppend
    rw [if_neg fun hm => hne (h.matchTerm_iff.mp hm)]
    rfl
  intro hmatch
  have hindex' : index ≤ l.lastIndex := by
    obtain hle | hpos := hindex
    · exact hle
    · rw [← hmatch] at hpos
      have hlast := (BasedLog.mem_of_termAt_pos hpos).2
      rwa [h.plain_lastIndex] at hlast
  constructor
  · rintro ⟨n, hsome, hle⟩
    refine ⟨index + 1 + n, ?_⟩
    unfold maybeAppend appendFrom
    rw [if_pos (h.matchTerm_iff.mpr hmatch), h.findConflict_of_indexed hes, hsome]
    simp only [Option.map_some, Option.getD_some]
    rw [if_neg (by omega), if_pos hle]
    rfl
  · intro habove
    cases hn : l.firstConflict es with
    | none => exact h.maybeAppend_of_none hindex' hmatch hes hterm hn
    | some n => exact h.maybeAppend_of_some hfirst hindex' hmatch hes hterm hn (habove n hn)

/-- The log of the terms 1, 1, 2, and 2 takes entries of the terms 2 and 3 after its second one. -/
theorem maybeAppend_law_straddling :
    ∃ l', straddling.maybeAppend 2 1 3 (entriesFrom 3 [2, 3]) = .ok (some 4, l') ∧
      straddling.Took 2 3 (entriesFrom 3 [2, 3]) l' :=
  ((maybeAppend_law straddling_layered (by decide) (Or.inl (by decide)) (by decide)
    (by decide)).2 (by decide)).2 (by decide)

/-! ## Messages that claim too much -/

/-- How many of the entries `maybe_append` erases before it writes the others. -/
def skipped (l : RaftLog) (index : ℕ) (es : List Entry) : ℕ := sub64 (l.findConflict es) (index + 1)

/-- There is nothing to write: the log has the terms of all the entries, or all of them are erased. -/
def NothingNew (l : RaftLog) (index : ℕ) (es : List Entry) : Prop :=
  l.findConflict es = 0 ∨ (l.committed < l.findConflict es ∧ l.skipped index es = es.length)

/-- The entries are written from the given one on. -/
def WritesFrom (l : RaftLog) (index : ℕ) (es : List Entry) (e : Entry) : Prop :=
  l.committed < l.findConflict es ∧ es[l.skipped index es]? = some e ∧
    l.committed ≤ sub64 e.index 1 ∧ e.index ≤ l.lastIndex + 1

/-- What the log is after the entries are written from the given one on. -/
def writtenFrom (l : RaftLog) (index : ℕ) (es : List Entry) (e : Entry) : RaftLog :=
  { l with unstable := cutAt l.unstable e.index (es.drop (l.skipped index es)) }

/-- The entries are written from an entry on, or nothing is written. -/
theorem Layered.appendFrom_iff (h : l.Layered) :
    l.appendFrom index es = .ok l' ↔ (l.NothingNew index es ∧ l' = l) ∨
      ∃ e, l.WritesFrom index es e ∧ l' = l.writtenFrom index es e := by
  have hend := h.lastIndex_succ
  unfold NothingNew WritesFrom writtenFrom appendFrom
  dsimp only
  rw [show sub64 (l.findConflict es) (index + 1) = l.skipped index es from rfl]
  split_ifs with hnone hcommitted hlen
  · simp [hnone, eq_comm]
  · simp [hnone, Nat.not_lt.mpr hcommitted]
  · -- The entries to erase are not all there.
    have hget : es[l.skipped index es]? = none := List.getElem?_eq_none (by omega)
    simp [hnone, hget, Nat.ne_of_gt hlen]
  · have habove : l.committed < l.findConflict es := Nat.lt_of_not_le hcommitted
    cases hdrop : es.drop (l.skipped index es) with
    | nil =>
      have hall : l.skipped index es = es.length := by
        have := List.drop_eq_nil_iff.mp hdrop
        omega
      simp [hnone, habove, hall, append, pure, Except.pure, eq_comm]
    | cons e rest =>
      have hlt : l.skipped index es < es.length := by
        have hlen' := congrArg List.length hdrop
        rw [List.length_drop, List.length_cons] at hlen'
        omega
      have hget : es[l.skipped index es]? = some e := by
        rw [← Nat.add_zero (l.skipped index es), ← List.getElem?_drop, hdrop]
        rfl
      unfold append
      dsimp only
      rw [truncateAndAppend_cons]
      split_ifs with hlow hgap
      · simp [hnone, hget, Nat.ne_of_lt hlt, Nat.not_le.mpr hlow]
      · have hgap' : e.index ≤ l.lastIndex + 1 := by omega
        simp [hnone, habove, hget, Nat.ne_of_lt hlt, Nat.not_lt.mp hlow, hgap', bind, Except.bind, pure,
          Except.pure, eq_comm]
      · have hgap' : ¬e.index ≤ l.lastIndex + 1 := by omega
        simp [hnone, hget, Nat.ne_of_lt hlt, hgap', bind, Except.bind]

/-- Where the log ends after entries are written from one of them on. -/
theorem Layered.writtenFrom_spec {e : Entry} (h : l.Layered) (hw : l.WritesFrom index es e) :
    (l.writtenFrom index es e).firstIndex = l.firstIndex ∧
      (l.writtenFrom index es e).lastIndex + 1 = e.index + (es.length - l.skipped index es) ∧
      (l.writtenFrom index es e).unstable.offset + (l.writtenFrom index es e).unstable.entries.length =
        e.index + (es.length - l.skipped index es) ∧
      es.drop (l.skipped index es) ≠ [] ∧ l.skipped index es < es.length := by
  obtain ⟨-, hget, -, hgap⟩ := hw
  have hend := h.lastIndex_succ
  have hlt := (List.getElem?_eq_some_iff.mp hget).1
  have hne : es.drop (l.skipped index es) ≠ [] := fun hnil => by
    have := List.drop_eq_nil_iff.mp hnil
    omega
  obtain ⟨hsnap, -, hend'⟩ := cutAt_place (es.drop (l.skipped index es)) (u := l.unstable)
    (j := e.index) (by omega)
  rw [List.length_drop] at hend'
  have hne' : (l.writtenFrom index es e).unstable.entries ≠ [] := fun hnil => by
    have hlen := congrArg List.length hnil
    unfold writtenFrom cutAt at hlen
    split_ifs at hlen
    · exact hne (List.length_eq_zero_iff.mp hlen)
    · rw [List.length_append] at hlen
      exact hne (List.length_eq_zero_iff.mp (Nat.eq_zero_of_add_eq_zero_left hlen))
  have hpos := List.length_pos_iff.mpr hne'
  have hlast := lastIndex_of_ne_nil hne'
  refine ⟨?_, ?_, hend', hne, hlt⟩
  · unfold firstIndex Unstable.maybeFirstIndex writtenFrom
    dsimp only
    rw [hsnap]
  · rw [hlast]
    unfold writtenFrom at hpos ⊢
    dsimp only at hpos ⊢
    omega

end RaftLog

/-- The message has the log acknowledge more than it holds. Either there is nothing to write, although
the message reaches past the end of the log, and the commit index does not; or the first entry to be
written carries an index below its place. -/
def Message.Overclaims (m : Message) (l : RaftLog) : Prop :=
  l.committed ≤ m.index ∧ l.matchTerm m.index m.logTerm = true ∧
    l.committed < m.index + m.entries.length ∧
    ((l.NothingNew m.index m.entries ∧ l.lastIndex < m.index + m.entries.length ∧
        m.commit ≤ l.lastIndex) ∨
      ∃ e, l.WritesFrom m.index m.entries e ∧ e.index ≤ m.index + l.skipped m.index m.entries ∧
        (l.committed < min m.commit (m.index + m.entries.length) →
          min m.commit (m.index + m.entries.length) <
            e.index + (m.entries.length - l.skipped m.index m.entries)))

/-- Of the messages whose entries are consecutive and have terms, the ones that claim too much are the
empty ones that match nothing past the end of the log. -/
theorem Message.overclaims_iff {m : Message} {l : RaftLog} (h : l.Layered)
    (hcommitted : l.committed ≤ l.lastIndex) (hes : IndexedFrom (m.index + 1) m.entries)
    (hterm : ∀ e ∈ m.entries, 0 < e.term) :
    m.Overclaims l ↔
      l.lastIndex < m.index ∧ m.logTerm = 0 ∧ m.entries = [] ∧ m.commit ≤ l.lastIndex := by
  have hlast := h.plain_lastIndex
  constructor
  · rintro ⟨-, hmatch, -, hcase⟩
    rw [h.matchTerm_iff] at hmatch
    -- The entries are numbered from the message's index on, so that the erased ones precede the conflict.
    have hskipped : ∀ n ∈ l.firstConflict m.entries, l.skipped m.index m.entries = n := by
      intro n hn
      unfold RaftLog.skipped
      rw [h.findConflict_of_indexed hes, hn]
      simp only [Option.map_some, Option.getD_some]
      rw [sub64_of_le (by omega)]
      omega
    obtain ⟨hnew, hshort, hcommit⟩ | ⟨e, ⟨-, hget, -⟩, hbelow, -⟩ := hcase
    · have hnone : l.firstConflict m.entries = none := by
        cases hn : l.firstConflict m.entries with
        | none => rfl
        | some n =>
          obtain ⟨e, he, -⟩ := RaftLog.firstConflict_eq_some.mp hn
          have hlt := (List.getElem?_eq_some_iff.mp he).1
          have hzero := h.findConflict_of_indexed hes
          rw [hn] at hzero
          simp only [Option.map_some, Option.getD_some] at hzero
          obtain hnew | ⟨-, hnew⟩ := hnew
          · omega
          · rw [hskipped n hn] at hnew
            omega
      have hall := RaftLog.firstConflict_eq_none.mp hnone
      have hpast : l.lastIndex < m.index := by
        by_contra hle
        have := h.le_lastIndex (Nat.le_of_not_lt hle) hes hterm
          (fun i _ e he => hall e (List.mem_of_getElem? he)) (Nat.le_refl _)
        omega
      rw [BasedLog.termAt_eq_zero (by omega)] at hmatch
      have hnil : m.entries = [] := by
        cases hentries : m.entries with
        | nil => rfl
        | cons e rest =>
          have he : e ∈ m.entries := hentries ▸ List.mem_cons_self
          have hindex : e.index = m.index + 1 := hes 0 e (by rw [hentries]; rfl)
          have hmatch' := hall e he
          rw [BasedLog.termAt_eq_zero (by omega)] at hmatch'
          exact absurd (hterm e he) (by omega)
      exact ⟨hpast, hmatch.symm, hnil, hcommit⟩
    · have := hes _ e hget
      omega
  · rintro ⟨hpast, hzero, hnil, hcommit⟩
    rw [Message.Overclaims, hnil]
    refine ⟨by omega, h.matchTerm_iff.mpr ?_, by omega, Or.inl ⟨Or.inl rfl, by omega, hcommit⟩⟩
    rw [hzero, BasedLog.termAt_eq_zero (by omega)]

namespace Raft

/-! ## What a node acknowledges -/

variable {r r' : Raft} {m a : Message}

/-- A node that acknowledges an append message up to an index above its commit index holds an entry at
every index up to there, and held the entry that the message's ones follow. -/
def AcknowledgesHeld (r : Raft) (m : Message) : Prop :=
  ∀ r' a, r.handleAppendEntries m = .ok r' → r'.msgs = r.msgs ++ [a] → a.type = .msgAppResp →
    a.reject = false → r.raftLog.committed < a.index →
      (∀ i, r'.raftLog.firstIndex ≤ i → i ≤ a.index → (r'.raftLog.plain.get? i).isSome) ∧
        r'.raftLog.plain.termAt Entry.term m.index = m.logTerm ∧ m.index ≤ r.raftLog.lastIndex

/-- What a node does that acknowledges an append message. -/
structure Acknowledges (r : Raft) (m : Message) (r' : Raft) (a : Message) : Prop where
  /-- The message is not below the commit index. -/
  committed_le : r.raftLog.committed ≤ m.index
  /-- The log has the message's term at its index. -/
  matches_ : r.raftLog.matchTerm m.index m.logTerm = true
  /-- It acknowledges all of the message's entries. -/
  index : a.index = m.index + m.entries.length
  /-- It writes them, and commits. -/
  log : ∃ l, r.raftLog.appendFrom m.index m.entries = .ok l ∧
    l.commitTo (min m.commit (m.index + m.entries.length)) = .ok r'.raftLog

/-- An answer that is no refusal, of an index above the commit index, is an acknowledgement. -/
theorem acknowledges_of_answer (h : r.handleAppendEntries m = .ok r') (ha : r'.msgs = r.msgs ++ [a])
    (hreject : a.reject = false) (hindex : r.raftLog.committed < a.index) :
    r.Acknowledges m r' a := by
  unfold handleAppendEntries at h
  split_ifs at h with hlow
  · -- The node answers with its commit index.
    obtain ⟨rfl, -⟩ := send_eq h
    obtain rfl := List.singleton_inj.mp (List.append_cancel_left ha)
    rw [(fillIn_frame _ _).1] at hindex
    exact absurd hindex (Nat.lt_irrefl _)
  obtain ⟨⟨last, l⟩, happ, h⟩ := bind_eq_ok.mp h
  unfold RaftLog.maybeAppend at happ
  split_ifs at happ with hmatch
  · obtain ⟨l₁, hwrite, happ⟩ := bind_eq_ok.mp happ
    obtain ⟨l₂, hcommit, happ⟩ := bind_eq_ok.mp happ
    cases happ
    dsimp only at h
    obtain ⟨rfl, -⟩ := send_eq h
    obtain rfl := List.singleton_inj.mp (List.append_cancel_left ha)
    exact ⟨Nat.le_of_not_lt hlow, hmatch, (fillIn_frame _ _).1, l₁, hwrite, hcommit⟩
  · cases happ
    dsimp only at h
    obtain ⟨rfl, -⟩ := send_eq h
    obtain rfl := List.singleton_inj.mp (List.append_cancel_left ha)
    rw [(fillIn_frame _ _).2] at hreject
    cases hreject

/-- A node acknowledges a message whose entries its log takes. -/
theorem exists_answer {l l' : RaftLog} (hlow : r.raftLog.committed ≤ m.index)
    (hmatch : r.raftLog.matchTerm m.index m.logTerm = true)
    (hwrite : r.raftLog.appendFrom m.index m.entries = .ok l)
    (hcommit : l.commitTo (min m.commit (m.index + m.entries.length)) = .ok l') :
    ∃ r' a, r.handleAppendEntries m = .ok r' ∧ r'.msgs = r.msgs ++ [a] ∧ a.type = .msgAppResp ∧
      a.reject = false ∧ a.index = m.index + m.entries.length ∧ r'.raftLog = l' := by
  refine ⟨{ r with
    raftLog := l'
    msgs := r.msgs ++ [{ toId := m.fromId, fromId := r.id, type := .msgAppResp, term := r.term
                         index := m.index + m.entries.length }] }, _, ?_, rfl, rfl, rfl, rfl, rfl⟩
  unfold handleAppendEntries RaftLog.maybeAppend
  rw [if_neg (Nat.not_lt.mpr hlow), if_pos hmatch, hwrite]
  simp only [bind, Except.bind]
  rw [hcommit]
  rfl

/-- An empty append message that matches nothing, past the end of an empty log. -/
def probe : Message := { type := .msgApp, fromId := 2, term := 1, index := 7 }

/-- The node of a voter that has just started. -/
def startedVoter : Raft := (Host.started voterConfig).node.raft

/-- Its log is empty. -/
theorem startedVoter_log : startedVoter.raftLog.Layered ∧ startedVoter.raftLog.firstIndex = 1 ∧
    startedVoter.raftLog.committed = 0 ∧ startedVoter.raftLog.lastIndex = 0 := by
  constructor
  · constructor
    · decide +kernel
    · decide +kernel
    · decide +kernel
  · decide +kernel

end Raft

end RaftCpp
