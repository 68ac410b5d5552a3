import RaftCpp.Raft.Entries
import RaftCpp.Raft.Host
import RaftCpp.Raft.SoundLog

/-!
# What holds of the entries of a node

The entries that a node holds or sends come from the proposals and the append messages that it was given. They
get a term and an index on their way, and a leader makes empty entries of its own. Whatever does not depend on
the term and the index of an entry, and is true of the empty one, stays true of all of them.
-/

namespace RaftCpp

open Outcome

/-- A condition on entries that does not depend on their terms and indices, and that the empty entry meets. -/
structure Placeless (P : Entry → Prop) : Prop where
  /-- The empty entry. -/
  blank : P {}
  /-- Another place. -/
  move : ∀ e term index, P e → P { e with term := term, index := index }

variable {P : Entry → Prop}

/-- An empty entry anywhere. -/
theorem Placeless.blankAt (hP : Placeless P) (term index : ℕ) : P { term := term, index := index } :=
  hP.move {} term index hP.blank

/-- The condition holds throughout a log. -/
structure RaftLog.Only (P : Entry → Prop) (l : RaftLog) : Prop where
  /-- What is not persisted. -/
  unstable : ∀ e ∈ l.unstable.entries, P e
  /-- What is persisted. -/
  storage : ∀ e ∈ l.storage.entries, P e

/-- The entries that a node takes from a message of this type. -/
def Message.carried (m : Message) : List Entry :=
  if m.type = .msgApp ∨ m.type = .msgProp then m.entries else []

/-- The condition holds of what a node holds, and of what it sends. -/
structure Raft.Only (P : Entry → Prop) (r : Raft) : Prop where
  /-- The log. -/
  log : r.raftLog.Only P
  /-- The messages. -/
  msgs : ∀ m ∈ r.msgs, ∀ e ∈ m.carried, P e

/-! ## The log -/

namespace RaftLog

variable {l : RaftLog} {es : List Entry}

/-- What `slice` returns comes from the log. -/
theorem Only.slice (h : l.Only P) (low high maxSize : ℕ) :
    Ensures (l.slice low high maxSize) fun p => p.1 = .ok → ∀ e ∈ p.2, P e := by
  refine (l.slice_prefix low high maxSize).mono fun p hp hok e he => ?_
  have hrange := (hp hok).1.1.subset he
  obtain hstorage | hunstable := List.mem_append.mp hrange
  · exact h.storage e (List.mem_of_mem_drop (List.mem_of_mem_take hstorage))
  · exact h.unstable e (List.mem_of_mem_drop (List.mem_of_mem_take hunstable))

/-- So does what `entries` returns. -/
theorem Only.entries (h : l.Only P) (index maxSize : ℕ) :
    Ensures (l.entries index maxSize) fun p => p.1 = .ok → ∀ e ∈ p.2, P e := by
  unfold RaftLog.entries
  exact Ensures.ite (fun _ => Ensures.ok fun _ => nofun) fun _ => h.slice _ _ _

/-- So does what is handed out for application. -/
theorem Only.nextEntries (h : l.Only P) :
    Ensures l.nextEntries fun es => ∀ e ∈ es, P e := by
  unfold RaftLog.nextEntries
  refine Ensures.ite (fun _ => ?_) fun _ => Ensures.pure nofun
  refine Ensures.bind (h.slice _ _ _) ?_
  rintro ⟨status, es⟩ hes
  exact Ensures.ite (fun hok => Ensures.pure (hes (Status.isOk_iff.mp hok))) fun _ => Ensures.error

/-- `commit_to` changes no entry. -/
theorem Only.commitTo (h : l.Only P) (k : ℕ) : Ensures (l.commitTo k) (Only P) := by
  unfold RaftLog.commitTo
  refine Ensures.ite (fun _ => ?_) fun _ => Ensures.ok h
  exact Ensures.ite (fun _ => Ensures.error) fun _ => Ensures.ok ⟨h.unstable, h.storage⟩

/-- `append` adds the entries. -/
theorem Only.append (h : l.Only P) (hes : ∀ e ∈ es, P e) :
    Ensures (l.append es) (Only P) := by
  have hwritten : Ensures (l.unstable.truncateAndAppend es) fun u => ∀ e ∈ u.entries, P e := by
    unfold Unstable.truncateAndAppend
    cases es with
    | nil => exact Ensures.pure h.unstable
    | cons e es =>
      refine Ensures.ite (fun _ => Ensures.pure ?_) fun _ => ?_
      · exact fun e' he' => (List.mem_append.mp he').elim (h.unstable e') (hes e')
      refine Ensures.ite (fun _ => Ensures.pure hes) fun _ => ?_
      refine Ensures.bind (l.unstable.slice_spec _ _) ?_
      rintro kept ⟨rfl, -⟩
      refine Ensures.pure fun e' he' => (List.mem_append.mp he').elim (fun hk => ?_) (hes e')
      exact h.unstable e' (List.mem_of_mem_drop (List.mem_of_mem_take hk))
  unfold RaftLog.append
  cases es with
  | nil => exact Ensures.pure h
  | cons e es =>
    refine Ensures.ite (fun _ => Ensures.error) fun _ => ?_
    exact Ensures.bind hwritten fun u hu => Ensures.pure ⟨hu, h.storage⟩

/-- `maybe_append` adds entries of the message. -/
theorem Only.maybeAppend (h : l.Only P) (hes : ∀ e ∈ es, P e) (index logTerm committed : ℕ) :
    Ensures (l.maybeAppend index logTerm committed es) fun p => p.2.Only P := by
  unfold RaftLog.maybeAppend
  refine Ensures.ite (fun _ => ?_) fun _ => Ensures.pure h
  have hwritten : Ensures (l.appendFrom index es) (Only P) := by
    unfold appendFrom
    refine Ensures.ite (fun _ => Ensures.ok h) fun _ => ?_
    refine Ensures.ite (fun _ => Ensures.error) fun _ => ?_
    refine Ensures.ite (fun _ => Ensures.error) fun _ => h.append fun e he => ?_
    exact hes e (List.mem_of_mem_drop he)
  refine Ensures.bind hwritten fun l₁ h₁ => ?_
  exact Ensures.bind (h₁.commitTo _) fun l₂ h₂ => Ensures.pure h₂

end RaftLog

/-- The leader's term and the positions do not matter. -/
theorem Raft.stampEntries_only (hP : Placeless P) (term : ℕ) :
    ∀ (index : ℕ) {es : List Entry}, (∀ e ∈ es, P e) →
      ∀ e ∈ Raft.stampEntries term index es, P e
  | _, [], _ => nofun
  | index, e :: es, h => by
    intro e' he'
    obtain rfl | he' := List.mem_cons.mp he'
    · exact hP.move e term index (h e List.mem_cons_self)
    · exact stampEntries_only hP term (index + 1) (fun e he => h e (List.mem_cons_of_mem _ he)) e' he'

/-! ## The node -/

section Moves

variable {c : Cause} {r r' : Raft}

/-- A change of the log adds entries that the cause brings. -/
theorem LogMove.only (hP : Placeless P) {l : RaftLog} (h : LogMove c r l) (hl : r.raftLog.Only P)
    (hc : ∀ m, c = .step m → ∀ e ∈ m.carried, P e) : l.Only P := by
  cases h with
  | commit k h => exact hl.commitTo k l h
  | propose m es hm htype hlead hes h =>
    refine hl.append (Raft.stampEntries_only hP _ _ fun e he => ?_) l h
    obtain hmem | rfl := hes e he
    · refine hc m hm e ?_
      rwa [Message.carried, if_pos (Or.inr htype)]
    · exact hP.blank
  | elected hlead h =>
    refine hl.append (Raft.stampEntries_only hP _ _ fun e he => ?_) l h
    obtain rfl := List.mem_singleton.mp he
    exact hP.blank
  | write m last hm htype hindex h =>
    refine hl.maybeAppend (fun e he => hc m hm e ?_) _ _ _ (last, l) h
    rwa [Message.carried, if_pos (Or.inl htype)]
  | restore m hm htype hindex hterm => exact ⟨nofun, hl.storage⟩

/-- What a node sends is of its log, or the cause brings it. -/
theorem SendOK.only {x : Message} (h : SendOK c r x) (hl : r.raftLog.Only P)
    (hc : ∀ m, c = .step m → ∀ e ∈ m.carried, P e) : ∀ e ∈ x.carried, P e := by
  intro e he
  unfold Message.carried at he
  split_ifs at he with htype
  · obtain happ | hprop := htype
    · unfold SendOK at h
      rw [happ] at h
      obtain ⟨-, next, maxSize, hentries, -⟩ := h
      exact hl.entries next maxSize _ hentries rfl e he
    · unfold SendOK at h
      rw [hprop] at h
      obtain ⟨m, hm, hmtype, hentries⟩ := h
      refine hc m hm e ?_
      rw [Message.carried, if_pos (Or.inr hmtype), ← hentries]
      exact he
  · cases he

/-- What holds of a node after a number of moves. -/
theorem Course.only (hP : Placeless P) (h : Course c r r') (hr : r.Only P)
    (hc : ∀ m, c = .step m → ∀ e ∈ m.carried, P e) : r'.Only P := by
  induction h with
  | refl => exact hr
  | @tail r₁ r₂ _ hmove ih =>
    have hsame : ∀ {r₂ : Raft}, r₂.raftLog = r₁.raftLog → r₂.msgs = r₁.msgs → r₂.Only P := by
      intro r₂ hlog hmsgs
      exact ⟨by rw [hlog]; exact ih.log, by rw [hmsgs]; exact ih.msgs⟩
    cases hmove with
    | other h => exact hsame (congrArg Outline.raftLog h) (congrArg Outline.msgs h)
    | send x hx h =>
      obtain ⟨rfl, -⟩ := Raft.send_eq h
      refine ⟨ih.log, fun m hm e he => ?_⟩
      obtain hm | hm := List.mem_append.mp hm
      · exact ih.msgs m hm e he
      · obtain rfl := List.mem_singleton.mp hm
        have hfill : (r₁.fillIn x).carried = x.carried := by
          unfold Raft.fillIn
          split_ifs <;> rfl
        rw [hfill] at he
        exact hx.only ih.log hc e he
    | read rs => exact hsame rfl rfl
    | follow t lead h => exact hsame (r₁.reset_raftLog t) (r₁.reset_msgs t)
    | heard m hm htype hstate => exact hsame rfl rfl
    | poll hm hstate h hpre => exact hsame rfl rfl
    | campaign hstate h => exact hsame (r₁.reset_raftLog _) (r₁.reset_msgs _)
    | voteSelf hstate => exact hsame rfl rfl
    | answer m hm htype hterm hstate => exact hsame rfl rfl
    | lead hstate hcount => exact hsame (r₁.reset_raftLog _) (r₁.reset_msgs _)
    | grant m hm htype hvote => exact hsame rfl rfl
    | log h => exact ⟨h.only hP ih.log hc, ih.msgs⟩
    | members hm h => exact hsame (congrArg Outline.raftLog h) (congrArg Outline.msgs h)

end Moves

/-! ## The storage -/

namespace MemoryStorage

variable {s : MemoryStorage}

/-- `append` adds the entries. -/
theorem append_only {es : List Entry} (hs : ∀ e ∈ s.entries, P e) (hes : ∀ e ∈ es, P e) :
    Ensures (s.append es) fun s' => ∀ e ∈ s'.entries, P e := by
  unfold append
  cases es with
  | nil => exact Ensures.ok hs
  | cons e es =>
    refine Ensures.ite (fun _ => Ensures.ok hs) fun _ => ?_
    have hdrop : ∀ e' ∈ (e :: es).drop (s.firstIndex - e.index), P e' :=
      fun e' he' => hes e' (List.mem_of_mem_drop he')
    cases h : (e :: es).drop (s.firstIndex - e.index) with
    | nil => exact Ensures.error
    | cons e' es' =>
      rw [h] at hdrop
      dsimp only
      unfold overwrite
      refine Ensures.ite (fun _ => Ensures.ok fun x hx => ?_) fun _ => ?_
      · exact (List.mem_append.mp hx).elim (fun hx => hs x (List.mem_of_mem_take hx)) (hdrop x)
      · refine Ensures.ite (fun _ => Ensures.ok fun x hx => ?_) fun _ => Ensures.error
        exact (List.mem_append.mp hx).elim (hs x) (hdrop x)

/-- `apply_snapshot` leaves nothing but the placeholder. -/
theorem applySnapshot_only (hP : Placeless P) (hs : ∀ e ∈ s.entries, P e) (snapshot : Snapshot) :
    ∀ e ∈ (s.applySnapshot snapshot).2.entries, P e := by
  unfold applySnapshot
  split_ifs
  · exact hs
  · intro e he
    obtain rfl := List.mem_singleton.mp he
    exact hP.blankAt _ _

/-- `create_snapshot` changes no entry. -/
theorem createSnapshot_only (hs : ∀ e ∈ s.entries, P e) (index : ℕ) (cs : Option ConfState)
    (data : Bytes) :
    Ensures (s.createSnapshot index cs data) fun p => ∀ e ∈ p.2.2.entries, P e := by
  unfold createSnapshot
  refine Ensures.ite (fun _ => Ensures.pure hs) fun _ => ?_
  refine Ensures.ite (fun _ => Ensures.error) fun _ => ?_
  exact Ensures.bind Ensures.any fun e _ => Ensures.pure hs

/-- `compact` drops entries. -/
theorem compact_only (hP : Placeless P) (hs : ∀ e ∈ s.entries, P e) (index : ℕ) :
    Ensures (s.compact index) fun p => ∀ e ∈ p.2.entries, P e := by
  unfold compact
  refine Ensures.ite (fun _ => Ensures.pure hs) fun _ => ?_
  refine Ensures.ite (fun _ => Ensures.error) fun _ => ?_
  refine Ensures.bind Ensures.any fun e _ => Ensures.pure fun x hx => ?_
  obtain rfl | hx := List.mem_cons.mp hx
  · exact hP.move s.dummy _ _ (hs s.dummy (List.head_mem s.entries_ne_nil))
  · exact hs x (List.mem_of_mem_drop hx)

end MemoryStorage

/-! ## The interface -/

namespace RawNode

variable {n n' : RawNode} {rd : Ready}

/-- The node with another storage. -/
theorem setStorage_only (h : n.raft.Only P) {s : MemoryStorage} (hs : ∀ e ∈ s.entries, P e) :
    (n.setStorage s).raft.Only P := ⟨⟨h.log.unstable, hs⟩, h.msgs⟩

/-- What is taken comes from the log and from the messages. -/
theorem ready_only (h : n.raft.Only P) (hrd : n.ready = .ok (rd, n')) :
    n'.raft.Only P ∧ (∀ e ∈ rd.entries, P e) ∧ (∀ e ∈ rd.committedEntries, P e) ∧
      ∀ m ∈ rd.messages, ∀ e ∈ m.carried, P e := by
  obtain ⟨hmessages, -, hentries, -, hnext, size, rfl⟩ := ready_eq hrd
  refine ⟨⟨h.log, nofun⟩, ?_, h.log.nextEntries _ hnext, ?_⟩
  · rw [hentries]
    exact h.log.unstable
  · rw [hmessages]
    exact h.msgs

/-- `advance` drops entries that are persisted. -/
theorem advance_only (h : n.raft.Only P) (rd : Ready) : (n.advance rd).raft.Only P := by
  have hstable : ∀ l : RaftLog, l.Only P → ∀ index term, (l.stableTo index term).Only P := by
    intro l hl index term
    refine ⟨fun e he => ?_, hl.storage⟩
    change e ∈ (l.unstable.stableTo index term).entries at he
    unfold Unstable.stableTo at he
    split_ifs at he
    · exact hl.unstable e (List.mem_of_mem_drop he)
    · exact hl.unstable e he
  have hsnap : ∀ l : RaftLog, l.Only P → ∀ index, (l.stableSnapTo index).Only P := by
    intro l hl index
    refine ⟨fun e he => ?_, hl.storage⟩
    change e ∈ (l.unstable.stableSnapTo index).entries at he
    unfold Unstable.stableSnapTo at he
    split_ifs at he
    · exact hl.unstable e he
    · exact hl.unstable e he
  have happlied : (n.raft.raftLog.appliedTo rd.appliedCursor).Only P := by
    unfold RaftLog.appliedTo
    split_ifs
    · exact h.log
    · exact ⟨h.log.unstable, h.log.storage⟩
  refine ⟨?_, h.msgs⟩
  unfold advance
  dsimp only
  cases rd.entries.getLast? with
  | none =>
    split_ifs
    · exact happlied
    · exact hsnap _ happlied _
  | some e =>
    split_ifs
    · exact hstable _ happlied _ _
    · exact hsnap _ (hstable _ happlied _ _) _

/-- A change of the membership brings no entries. -/
theorem applyConfChange_only (hP : Placeless P) (h : n.raft.Only P) (cc : ConfChange) :
    Ensures (n.applyConfChange cc) fun p => p.2.raft.Only P :=
  (n.steady_applyConfChange cc).mono fun _ hp => hp.1.moves.only hP h nofun

end RawNode

end RaftCpp
