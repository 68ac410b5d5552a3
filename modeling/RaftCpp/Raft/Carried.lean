import RaftCpp.Raft.Provenance

/-!
# Where the data of entries come from

The data of the entries that a node holds or sends come from the proposals and the append messages that it
was given: whatever is true of the data in these is true of the data in its log and in its messages.
-/

namespace RaftCpp

open Outcome

variable {Q : Bytes → Prop}

/-- A condition holds of the data of an entry, if the entry has any. Configuration changes have data of
another kind. -/
def Entry.Carries (Q : Bytes → Prop) (e : Entry) : Prop := e.type = .entryNormal → e.data ≠ [] → Q e.data

instance [DecidablePred Q] (e : Entry) : Decidable (e.Carries Q) :=
  inferInstanceAs (Decidable (e.type = .entryNormal → e.data ≠ [] → Q e.data))

/-- An empty entry has no data. -/
@[simp] theorem Entry.carries_blank (term index : ℕ) : ({ term := term, index := index } : Entry).Carries Q :=
  fun _ hne => absurd rfl hne

/-- The place of an entry does not matter. -/
theorem Entry.placeless_carries : Placeless (Entry.Carries Q) where
  blank := carries_blank 0 0
  move _ _ _ h := h

/-- A weaker condition holds as well. -/
theorem Entry.Carries.mono {Q' : Bytes → Prop} {e : Entry} (h : e.Carries Q) (hQ : ∀ data, Q data → Q' data) :
    e.Carries Q' := fun ht hne => hQ _ (h ht hne)

/-- The condition holds throughout a log. -/
structure RaftLog.Carries (Q : Bytes → Prop) (l : RaftLog) : Prop where
  /-- What is not persisted. -/
  unstable : ∀ e ∈ l.unstable.entries, e.Carries Q
  /-- What is persisted. -/
  storage : ∀ e ∈ l.storage.entries, e.Carries Q

instance [DecidablePred Q] (l : RaftLog) : Decidable (l.Carries Q) :=
  decidable_of_iff ((∀ e ∈ l.unstable.entries, e.Carries Q) ∧ ∀ e ∈ l.storage.entries, e.Carries Q)
    ⟨fun h => ⟨h.1, h.2⟩, fun h => ⟨h.unstable, h.storage⟩⟩

/-- The condition holds of what a node holds, and of what it sends. -/
structure Raft.Carries (Q : Bytes → Prop) (r : Raft) : Prop where
  /-- The log. -/
  log : r.raftLog.Carries Q
  /-- The messages. -/
  msgs : ∀ m ∈ r.msgs, ∀ e ∈ m.carried, e.Carries Q

/-- A weaker condition holds as well. -/
theorem Raft.Carries.mono {Q' : Bytes → Prop} {r : Raft} (h : r.Carries Q) (hQ : ∀ data, Q data → Q' data) :
    r.Carries Q' where
  log := ⟨fun e he => (h.log.unstable e he).mono hQ, fun e he => (h.log.storage e he).mono hQ⟩
  msgs m hm e he := (h.msgs m hm e he).mono hQ

/-- It is a condition on the entries. -/
theorem Raft.carries_iff {r : Raft} : r.Carries Q ↔ r.Only (Entry.Carries Q) :=
  ⟨fun h => ⟨⟨h.log.unstable, h.log.storage⟩, h.msgs⟩, fun h => ⟨⟨h.log.unstable, h.log.storage⟩, h.msgs⟩⟩

/-- What a node carries after a number of moves. -/
theorem Course.carries {c : Cause} {r r' : Raft} (h : Course c r r') (hr : r.Carries Q)
    (hc : ∀ m, c = .step m → ∀ e ∈ m.carried, e.Carries Q) : r'.Carries Q :=
  Raft.carries_iff.mpr (h.only Entry.placeless_carries (Raft.carries_iff.mp hr) hc)

/-! ## The storage -/

namespace MemoryStorage

variable {s : MemoryStorage}

/-- `append` adds the entries. -/
theorem append_carries {es : List Entry} (hs : ∀ e ∈ s.entries, e.Carries Q) (hes : ∀ e ∈ es, e.Carries Q) :
    Ensures (s.append es) fun s' => ∀ e ∈ s'.entries, e.Carries Q := append_only hs hes

/-- `apply_snapshot` leaves nothing but the placeholder. -/
theorem applySnapshot_carries (hs : ∀ e ∈ s.entries, e.Carries Q) (snapshot : Snapshot) :
    ∀ e ∈ (s.applySnapshot snapshot).2.entries, e.Carries Q :=
  applySnapshot_only Entry.placeless_carries hs snapshot

/-- `create_snapshot` changes no entry. -/
theorem createSnapshot_carries (hs : ∀ e ∈ s.entries, e.Carries Q) (index : ℕ) (cs : Option ConfState)
    (data : Bytes) :
    Ensures (s.createSnapshot index cs data) fun p => ∀ e ∈ p.2.2.entries, e.Carries Q :=
  createSnapshot_only hs index cs data

/-- `compact` drops entries, and keeps the placeholder's data. -/
theorem compact_carries (hs : ∀ e ∈ s.entries, e.Carries Q) (index : ℕ) :
    Ensures (s.compact index) fun p => ∀ e ∈ p.2.entries, e.Carries Q :=
  compact_only Entry.placeless_carries hs index

end MemoryStorage

/-! ## The interface -/

namespace RawNode

variable {n n' : RawNode} {rd : Ready}

/-- The node with another storage. -/
theorem setStorage_carries (h : n.raft.Carries Q) {s : MemoryStorage} (hs : ∀ e ∈ s.entries, e.Carries Q) :
    (n.setStorage s).raft.Carries Q := ⟨⟨h.log.unstable, hs⟩, h.msgs⟩

/-- What is taken comes from the log and from the messages. -/
theorem ready_carries (h : n.raft.Carries Q) (hrd : n.ready = .ok (rd, n')) :
    n'.raft.Carries Q ∧ (∀ e ∈ rd.entries, e.Carries Q) ∧ (∀ e ∈ rd.committedEntries, e.Carries Q) ∧
      ∀ m ∈ rd.messages, ∀ e ∈ m.carried, e.Carries Q := by
  obtain ⟨hn', htaken⟩ := ready_only (Raft.carries_iff.mp h) hrd
  exact ⟨Raft.carries_iff.mpr hn', htaken⟩

/-- `advance` drops entries that are persisted. -/
theorem advance_carries (h : n.raft.Carries Q) (rd : Ready) : (n.advance rd).raft.Carries Q :=
  Raft.carries_iff.mpr (advance_only (Raft.carries_iff.mp h) rd)

/-- A change of the membership brings no data. -/
theorem applyConfChange_carries (h : n.raft.Carries Q) (cc : ConfChange) :
    Ensures (n.applyConfChange cc) fun p => p.2.raft.Carries Q :=
  (n.steady_applyConfChange cc).mono fun _ hp => hp.1.moves.carries h nofun

/-- A proposal that is refused leaves neither an entry nor a message. -/
theorem propose_refused {data : Bytes} {status : Status} (h : n.propose data = .ok (status, n'))
    (hrefused : status ≠ .ok) : n'.raft.raftLog = n.raft.raftLog ∧ n'.raft.msgs = n.raft.msgs := by
  have hstep : Ensures (n.raft.step { type := .msgProp, fromId := n.raft.id, entries := [{ data := data }] })
      fun p => p.1 ≠ .ok → p.2.raftLog = n.raft.raftLog ∧ p.2.msgs = n.raft.msgs := by
    unfold Raft.step
    refine Ensures.ite (fun _ => ?_) fun hterm => absurd rfl hterm
    unfold Raft.stepBody Raft.stepRole
    dsimp only
    cases n.raft.state with
    | leader =>
      unfold Raft.stepLeader
      dsimp only
      unfold Raft.stepLeaderProp
      refine Ensures.ite (fun _ => Ensures.error) fun _ => ?_
      refine Ensures.ite (fun _ => Ensures.pure fun _ => ⟨rfl, rfl⟩) fun _ => ?_
      refine Ensures.ite (fun _ => Ensures.pure fun _ => ⟨rfl, rfl⟩) fun _ => ?_
      dsimp only
      -- The entry is refused before anything is written.
      refine Ensures.bind (P := fun p => p.1 = false → p.2.raftLog = n.raft.raftLog ∧
        p.2.msgs = n.raft.msgs) ?_ ?_
      · unfold Raft.appendEntry
        dsimp only
        split
        · exact Ensures.pure fun _ => ⟨rfl, rfl⟩
        · refine Ensures.bind Ensures.any fun l _ => ?_
          refine Ensures.bind Ensures.any fun pr _ => ?_
          exact Ensures.bind Ensures.any fun p _ => Ensures.pure nofun
      · rintro ⟨appended, r⟩ hr
        refine Ensures.ite (fun hnot => Ensures.pure fun _ => hr (Bool.eq_false_iff.mpr hnot)) fun _ => ?_
        exact Ensures.bind Ensures.any fun r _ => Ensures.pure fun hne => absurd rfl hne
    | candidate | preCandidate => exact Ensures.pure fun _ => ⟨rfl, rfl⟩
    | follower =>
      unfold Raft.stepFollower
      dsimp only
      refine Ensures.ite (fun _ => Ensures.pure fun _ => ⟨rfl, rfl⟩) fun _ => ?_
      refine Ensures.ite (fun _ => Ensures.pure fun _ => ⟨rfl, rfl⟩) fun _ => ?_
      exact Ensures.bind Ensures.any fun r _ => Ensures.pure fun hne => absurd rfl hne
  obtain ⟨⟨status', r⟩, hr, heq⟩ := bind_eq_ok.mp h
  cases heq
  exact hstep _ hr hrefused

end RawNode

end RaftCpp
