import RaftCpp.Raft.Booting
import RaftCpp.Raft.Handout
import RaftCpp.Raft.HardState

/-!
# The cursors of a node, and the delivery of committed entries

Through the rounds of an application `applied`, `committed`, and the last index stay in this order and do
not decrease, and the committed entries are handed out in order, without a gap and once, unless the node
advances past entries above a newer snapshot.
-/

namespace RaftCpp

open Outcome

/-! ## The contract of the peers -/

/-- A message as a correct peer sends it: the entries of an append message follow its index, and a
leader's message carries the leader's term. -/
def Message.Proper (m : Message) : Prop :=
  m.Consecutive ∧
    (m.type = .msgApp ∨ m.type = .msgHeartbeat ∨ m.type = .msgSnap → m.term ≠ 0)

instance (m : Message) : Decidable m.Proper :=
  inferInstanceAs (Decidable (m.Consecutive ∧ (_ → m.term ≠ 0)))

namespace HostEvent

/-- The application is orderly, and hands over messages of correct peers. -/
def Proper (h : Host) : HostEvent → Prop
  | .step m | .call m => m.Proper
  | e => e.Orderly h

instance (h : Host) (e : HostEvent) : Decidable (e.Proper h) :=
  match e with
  | .step m | .call m => inferInstanceAs (Decidable m.Proper)
  | .tick => inferInstanceAs (Decidable (HostEvent.tick.Orderly h))
  | .applyConfChange cc => inferInstanceAs (Decidable ((HostEvent.applyConfChange cc).Orderly h))
  | .ready => inferInstanceAs (Decidable (HostEvent.ready.Orderly h))
  | .persist => inferInstanceAs (Decidable (HostEvent.persist.Orderly h))
  | .advance => inferInstanceAs (Decidable (HostEvent.advance.Orderly h))
  | .createSnapshot i cs d =>
    inferInstanceAs (Decidable ((HostEvent.createSnapshot i cs d).Orderly h))
  | .compact i => inferInstanceAs (Decidable ((HostEvent.compact i).Orderly h))

variable {h : Host} {e : HostEvent}

/-- Such an application is orderly. -/
theorem Proper.orderly (hp : e.Proper h) : e.Orderly h := by
  cases e with
  | step m | call m => exact hp.1
  | _ => exact hp

/-- No message of a correct peer is one without a term that a candidate trusts. -/
theorem Proper.not_takesTermZero (hp : e.Proper h) : ¬e.TakesTermZero h := by
  cases e with
  | step m | call m =>
    rintro ⟨htrust, -⟩
    simp only [Raft.trusts, Bool.and_eq_true, Bool.or_eq_true, beq_iff_eq, or_assoc] at htrust
    exact hp.2 htrust.2 htrust.1.2
  | _ => exact fun hf => hf

end HostEvent

namespace Host

variable {h h' h₀ : Host} {e : HostEvent}

/-- A run of an orderly application, in which the node does not advance past entries above a newer
snapshot, keeps everything together. -/
theorem Sound.run {ts : List (Turn Host HostEvent)} (hs : h₀.Sound) (hrun : Host.Run h₀ ts h)
    (horder : ∀ t ∈ ts, t.event.Orderly t.before)
    (hdrop : ∀ t ∈ ts, ¬t.event.DropsAbove t.before) : (∀ t ∈ ts, t.before.Sound) ∧ h.Sound :=
  hrun.invariant (P := Host.Sound)
    (Q := fun t => t.event.Orderly t.before ∧ ¬t.event.DropsAbove t.before)
    (fun _ ht hq hsound => hsound.handle ht hq.1 hq.2)
    (fun t ht => ⟨horder t ht, hdrop t ht⟩) hs

/-! ## The cursors -/

/-- The cursors of the log are in order. -/
def Ordered (h : Host) : Prop :=
  h.log.applied ≤ h.log.committed ∧ h.log.committed ≤ h.log.lastIndex

/-- A step lowers neither the cursors nor the term. -/
structure CursorsKept (t : Turn Host HostEvent) : Prop where
  /-- What is applied. -/
  applied_le : t.before.log.applied ≤ t.after.log.applied
  /-- What is committed. -/
  committed_le : t.before.log.committed ≤ t.after.log.committed
  /-- The term. -/
  term_le : t.before.node.raft.term ≤ t.after.node.raft.term

/-- The log between the steps of an orderly application. -/
theorem Sound.ordered (hs : h.Sound) : h.Ordered := ⟨hs.log.applied_le, hs.log.committed_le⟩

/-- What a step does to the storage's side of the log and to the cursors: only `advance` moves what is
applied, and nothing lowers what is committed. -/
theorem Sound.handle_cursors (hs : h.Sound) (hh : h.handle e = .ok h') (hp : e.Orderly h) :
    (h'.log.applied = h.log.applied ∨ ∃ rd, e = .advance ∧ h.ready = some rd ∧
      h'.log.applied = h.log.appliedAfter rd) ∧ h.log.committed ≤ h'.log.committed := by
  cases handled hh with
  | moved hc hmoves =>
    rename_i c n
    have hcons : ∀ m, c = .step m → m.Consecutive := fun m hm => by
      subst hm
      cases e <;> cases hc
      · exact hp
      · exact hp
    obtain ⟨-, happlied, -, hcommitted⟩ := (hmoves.edits hs.log hcons).frame
    exact ⟨Or.inl happlied, hcommitted⟩
  | ready hnone hn =>
    obtain ⟨-, -, -, -, -, size, rfl⟩ := RawNode.ready_eq hn
    exact ⟨Or.inl rfl, Nat.le_refl _⟩
  | advance hsome =>
    rename_i rd
    have heq : ({ node := h.node.advance rd } : Host).log = h.log.advance rd := by
      unfold Host.log RawNode.advance RaftLog.advance
      rfl
    rw [heq, RaftLog.advance_eq]
    exact ⟨Or.inr ⟨rd, rfl, hsome, rfl⟩, Nat.le_refl _⟩
  | _ => exact ⟨Or.inl rfl, Nat.le_refl _⟩

/-- A step of a correct application lowers neither the cursors nor the term. -/
theorem Sound.cursorsKept (hs : h.Sound) (hh : h.handle e = .ok h') (hp : e.Proper h) :
    CursorsKept ⟨h, e, h'⟩ := by
  obtain ⟨happlied, hcommitted⟩ := hs.handle_cursors hh hp.orderly
  refine ⟨?_, hcommitted, ((hardKept_handle_iff hh).mpr hp.not_takesTermZero).term_le⟩
  rcases happlied with heq | ⟨rd, -, hsome, heq⟩
  · exact Nat.le_of_eq heq.symm
  · obtain ⟨a, hr⟩ := hs.round rd hsome
    show h.log.applied ≤ h'.log.applied
    rw [heq]
    exact (hr.appliedAfter_bounds hs.log).1

/-! ## The delivery of entries -/

/-- How far the committed entries were handed out. -/
def position (h : Host) : ℕ :=
  match h.ready with
  | none => h.log.applied
  | some rd => h.log.appliedAfter rd

end Host

/-- The index that the entries handed out with a `Ready` follow: that of its snapshot, if it has one, or how
far they were handed out before. -/
def Ready.base (rd : Ready) (pos : ℕ) : ℕ :=
  if rd.snapshot.isEmpty then pos else rd.snapshot.metadata.index

/-- The committed entries are handed out from a position on without a gap and once: those of a `Ready`
continue those before it, or a snapshot that is ahead of them. -/
def Delivers : ℕ → List Ready → Prop
  | _, [] => True
  | pos, rd :: rds =>
    pos ≤ rd.base pos ∧ IndexedFrom (rd.base pos + 1) rd.committedEntries ∧
      Delivers (rd.base pos + rd.committedEntries.length) rds

/-- Between snapshots, the entries that are handed out form one run of entries, each at the index after the
one before it. -/
theorem Delivers.concat {rds : List Ready} (hsnap : ∀ rd ∈ rds, rd.snapshot.isEmpty = true) {pos : ℕ}
    (h : Delivers pos rds) : IndexedFrom (pos + 1) (rds.flatMap (·.committedEntries)) := by
  induction rds generalizing pos with
  | nil => exact nofun
  | cons rd rds ih =>
    obtain ⟨-, hidx, hrest⟩ := h
    have hbase : rd.base pos = pos := if_pos (hsnap rd List.mem_cons_self)
    rw [hbase] at hidx hrest
    rw [List.flatMap_cons]
    refine hidx.append ?_
    rw [Nat.add_right_comm]
    exact ih (fun rd' h' => hsnap rd' (List.mem_cons_of_mem _ h')) hrest

namespace Host

variable {h h' h₀ : Host} {e : HostEvent}

/-- The next index follows what is applied, or the snapshot to install. -/
theorem Sound.ready_base (hs : h.Sound) {rd : Ready}
    (hsnap : rd.snapshot = h.log.unstable.snapshot.getD {}) :
    rd.base h.log.applied + 1 = h.log.nextIndex ∧ h.log.applied ≤ rd.base h.log.applied ∧
      (rd.snapshot.isEmpty = true → rd.base h.log.applied = h.log.applied ∧
        rd.snapshot.metadata.index = 0) ∧
      (rd.snapshot.isEmpty = false → rd.base h.log.applied = rd.snapshot.metadata.index ∧
        0 < rd.snapshot.metadata.index) := by
  unfold Ready.base RaftLog.nextIndex
  cases hs' : h.log.unstable.snapshot with
  | none =>
    have hcompacted := hs.log.compacted hs'
    rw [hs'] at hsnap
    rw [RaftLog.Sound.firstIndex_of_none hs', hsnap]
    refine ⟨?_, Nat.le_refl _, fun _ => ⟨rfl, rfl⟩, nofun⟩
    show h.log.applied + 1 = _
    omega
  | some s =>
    have happlied := hs.log.pending_applied s hs'
    have hne : s.isEmpty = false := by
      unfold Snapshot.isEmpty
      rw [beq_eq_false_iff_ne]
      omega
    rw [hs', Option.getD_some] at hsnap
    rw [RaftLog.Sound.firstIndex_of_some hs', hsnap, hne]
    refine ⟨?_, ?_, nofun, fun _ => ⟨rfl, by omega⟩⟩
    · show s.metadata.index + 1 = _
      omega
    · show h.log.applied ≤ s.metadata.index
      omega

/-- What is taken continues what was handed out before. -/
theorem Sound.ready_follows (hs : h.Sound) {rd : Ready} {n : RawNode}
    (hn : h.node.ready = .ok (rd, n)) :
    h.log.applied ≤ rd.base h.log.applied ∧
      IndexedFrom (rd.base h.log.applied + 1) rd.committedEntries ∧
      h.log.appliedAfter rd = rd.base h.log.applied + rd.committedEntries.length ∧
      (∀ e ∈ rd.committedEntries, h.log.entryAt e.index = some e ∧ e.index ≤ h.log.committed) := by
  obtain ⟨-, -, -, hsnap, hnext, -⟩ := RawNode.ready_eq hn
  obtain ⟨es, hes, hentry, hlen, -⟩ := hs.log.nextEntries_ok
  rw [show h.log.nextEntries = .ok rd.committedEntries from hnext] at hes
  cases hes
  obtain ⟨hnextIndex, hle, hempty, hfull⟩ := hs.ready_base hsnap
  have hmem : ∀ e ∈ rd.committedEntries, h.log.entryAt e.index = some e ∧ e.index ≤ h.log.committed := by
    intro e he
    obtain ⟨i, hi, rfl⟩ := List.getElem_of_mem he
    have hat := hentry i _ (List.getElem?_eq_getElem hi)
    have hidx := hs.log.entryAt_index hat
    rw [hidx]
    exact ⟨hat, by omega⟩
  refine ⟨hle, fun i e he => ?_, ?_, hmem⟩
  · rw [hnextIndex]
    exact hs.log.entryAt_index (hentry i e he)
  · unfold RaftLog.appliedAfter
    by_cases hnil : rd.committedEntries = []
    · rw [RaftLog.appliedCursor_of_nil hnil, hnil]
      cases hse : rd.snapshot.isEmpty with
      | true =>
        rw [if_pos (hempty hse).2, (hempty hse).1]
        rfl
      | false =>
        rw [if_neg (Nat.ne_of_gt (hfull hse).2), (hfull hse).1]
        rfl
    · have hcursor := RaftLog.appliedCursor_of_ne_nil hs.log hnext hnil
      have hpos := List.length_pos_iff.mpr hnil
      rw [if_neg (by omega)]
      omega

/-- A step either hands out a `Ready` that continues what was handed out, or leaves the position as it
is. -/
theorem Sound.handle_position (hs : h.Sound) (hh : h.handle e = .ok h') (hp : e.Orderly h) :
    handedOut ⟨h, e, h'⟩ = none ∧ h'.position = h.position ∨
      ∃ rd, handedOut ⟨h, e, h'⟩ = some rd ∧ h.position ≤ rd.base h.position ∧
        IndexedFrom (rd.base h.position + 1) rd.committedEntries ∧
        h'.position = rd.base h.position + rd.committedEntries.length ∧
        ∀ e ∈ rd.committedEntries, h.log.entryAt e.index = some e ∧ e.index ≤ h.log.committed := by
  have hkept : h'.ready = h.ready → h'.log.applied = h.log.applied → h'.position = h.position :=
    fun hready happlied => by
      unfold position RaftLog.appliedAfter
      rw [hready, happlied]
  have hcursors := (hs.handle_cursors hh hp).1
  cases handled hh with
  | moved hc hmoves =>
    refine Or.inl ⟨?_, hkept rfl ?_⟩
    · unfold handedOut
      cases e <;> cases hc <;> rfl
    · refine hcursors.resolve_right ?_
      rintro ⟨rd, rfl, -⟩
      cases hc
  | nothing he =>
    refine Or.inl ⟨?_, rfl⟩
    unfold handedOut
    rcases he with ⟨rfl, hne⟩ | ⟨rfl | rfl, -⟩
    · cases hr : h.ready with
      | none => exact absurd hr hne
      | some rd => rfl
    · rfl
    · rfl
  | ready hnone hn =>
    rename_i rd n
    obtain ⟨hle, hidx, happlied, hmem⟩ := hs.ready_follows hn
    have hpos : h.position = h.log.applied := by
      unfold position
      rw [hnone]
    obtain ⟨-, -, -, -, -, size, rfl⟩ := RawNode.ready_eq hn
    refine Or.inr ⟨rd, ?_, ?_, ?_, ?_, hmem⟩
    · unfold handedOut
      rw [hnone]
    · rwa [hpos]
    · rwa [hpos]
    · rw [hpos]
      exact happlied
  | advance hsome =>
    rename_i rd
    refine Or.inl ⟨rfl, ?_⟩
    have heq : ({ node := h.node.advance rd } : Host).log = h.log.advance rd := rfl
    unfold position
    rw [hsome]
    dsimp only
    rw [heq, RaftLog.advance_eq]
  | _ => exact Or.inl ⟨rfl, rfl⟩

/-- What a run hands out continues what was handed out before it. -/
theorem delivers_of_run {ts : List (Turn Host HostEvent)} (hrun : Host.Run h₀ ts h)
    (hsound : ∀ t ∈ ts, t.before.Sound) (horder : ∀ t ∈ ts, t.event.Orderly t.before) :
    Delivers h₀.position (ts.filterMap handedOut) := by
  induction hrun with
  | nil s => exact trivial
  | @cons s s' s'' e ts hstep _ ih =>
    have ih := ih (fun t ht => hsound t (List.mem_cons_of_mem _ ht))
      fun t ht => horder t (List.mem_cons_of_mem _ ht)
    have hs := hsound ⟨s, e, s'⟩ List.mem_cons_self
    rcases hs.handle_position hstep (horder ⟨s, e, s'⟩ List.mem_cons_self) with
      ⟨hnone, hpos⟩ | ⟨rd, hsome, hle, hidx, hpos, -⟩
    · rw [List.filterMap_cons_none hnone, ← hpos]
      exact ih
    · rw [List.filterMap_cons_some hsome]
      refine ⟨hle, hidx, ?_⟩
      rw [← hpos]
      exact ih

/-- Where entries are to be handed out, the next `Ready` has some. -/
theorem Sound.ready_ok (hs : h.Sound) (hhas : h.log.hasNextEntries = true) :
    ∃ rd n, h.node.ready = .ok (rd, n) ∧ rd.committedEntries ≠ [] := by
  obtain ⟨es, hes, -, -, hne⟩ := hs.log.nextEntries_ok
  unfold RawNode.ready Ready.new
  rw [show h.node.raft.raftLog.nextEntries = .ok es from hes]
  exact ⟨_, _, rfl, hne hhas⟩

/-- What a run hands out: the committed entries, in order, without a gap and once. -/
structure DeliversCommitted (h₀ : Host) (ts : List (Turn Host HostEvent)) (h : Host) : Prop where
  /-- Each `Ready` continues the one before it, or follows its snapshot. -/
  delivers : Delivers h₀.log.applied (ts.filterMap handedOut)
  /-- Between snapshots, the entries form one run. -/
  concat : ∀ before rds after, ts.filterMap handedOut = before ++ rds ++ after →
    (∀ rd ∈ rds, rd.snapshot.isEmpty = true) →
    ∃ pos, IndexedFrom (pos + 1) (rds.flatMap (·.committedEntries))
  /-- The entries are those of the log, and committed. -/
  committed : ∀ t ∈ ts, ∀ rd ∈ handedOut t, ∀ e ∈ rd.committedEntries,
    t.before.log.entryAt e.index = some e ∧ e.index ≤ t.before.log.committed
  /-- Where entries are to be handed out, the next `Ready` has some. -/
  next : h.ready = none → h.log.hasNextEntries = true →
    ∃ rd n, h.node.ready = .ok (rd, n) ∧ rd.committedEntries ≠ []

end Host

/-- What is handed out after some of it continues that. -/
theorem Delivers.of_append {rds' : List Ready} :
    ∀ (rds : List Ready) {pos : ℕ}, Delivers pos (rds ++ rds') → ∃ pos', Delivers pos' rds'
  | [], pos, h => ⟨pos, h⟩
  | _ :: rds, _, h => of_append rds h.2.2

/-- What is handed out before the rest of it is handed out as well. -/
theorem Delivers.append_left {rds' : List Ready} :
    ∀ (rds : List Ready) {pos : ℕ}, Delivers pos (rds ++ rds') → Delivers pos rds
  | [], _, _ => trivial
  | _ :: rds, _, h => ⟨h.1, h.2.1, append_left rds h.2.2⟩

/-! ## Runs -/

section Runs

variable {c : Config} {h₀ h : Host} {ts : List (Turn Host HostEvent)}

end Runs

/-! ## An overtaken round -/

/-- The parameters of one of five voters. -/
def quintetConfig : Config :=
  { id := 1, peers := [1, 2, 3, 4, 5], electionTick := 2, heartbeatTick := 1, maxSizePerMsg := 1024
    maxInflightMsgs := 8 }

/-- Entries at two indices, of the first term. -/
def firstEntries : List Entry := [{ term := 1, index := 2 }, { term := 1, index := 3 }]

/-- A voter takes two entries of the first leader as ready. -/
def takesTwo : List HostEvent :=
  [.step { type := .msgApp, fromId := 2, toId := 1, term := 1, commit := 1
           entries := [{ term := 1, index := 1 }] },
    .ready, .persist, .advance,
    .step { type := .msgApp, fromId := 2, toId := 1, term := 1, index := 1, logTerm := 1, commit := 1
            entries := firstEntries },
    .ready]

/-- The voter commits the entries. -/
def undisturbed : List (Turn Host HostEvent) × Host :=
  Trace.run Host.handle (Host.started quintetConfig)
    (takesTwo ++ [.step { type := .msgHeartbeat, fromId := 2, toId := 1, term := 1, commit := 3 },
      .persist, .advance, .ready])

/-- Before the voter writes the entries to the storage, a second leader overrides them, and the first one,
elected again, installs a snapshot that covers the first of them and sends the second one again. -/
def overtaken : List (Turn Host HostEvent) × Host :=
  Trace.run Host.handle (Host.started quintetConfig)
    (takesTwo ++
      [.step { type := .msgApp, fromId := 3, toId := 1, term := 2, index := 1, logTerm := 1, commit := 1
               entries := [{ term := 2, index := 2 }] },
        .step { type := .msgSnap, fromId := 2, toId := 1, term := 3
                snapshot := { metadata :=
                  { index := 2, term := 1, confState := { nodes := [1, 2, 3, 4, 5] } } } },
        .step { type := .msgApp, fromId := 2, toId := 1, term := 3, index := 2, logTerm := 1, commit := 3
                entries := [{ term := 1, index := 3 }] },
        .persist, .advance])

end RaftCpp
