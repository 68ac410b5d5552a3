import RaftCpp.Raft.Bounds
import RaftCpp.Raft.PlainLog

/-!
# The messages that replicate the log

A leader sends to a peer the entries that follow the last one that it takes the peer to hold, with the term of
that one. Where they are compacted, it sends its snapshot instead. While it replicates, each message with entries
goes on where the last one ended.
-/

namespace RaftCpp

open Outcome

namespace RaftLog

variable {l : RaftLog} {i : ℕ}

/-- The entries of the log from an index on. -/
def tailFrom (l : RaftLog) (i : ℕ) : List Entry := l.plain.slice i (l.lastIndex + 1)

/-- There is one for every index up to the last one. -/
theorem Layered.length_tailFrom (h : l.Layered) (hi : l.firstIndex ≤ i) :
    (l.tailFrom i).length = l.lastIndex + 1 - i := by
  refine BasedLog.length_slice ?_ ?_
  · rwa [plain_firstIndex]
  · rw [h.plain_lastIndex]

/-- They carry these indices. -/
theorem Sound.tailFrom_indexed (h : l.Sound) (hi : l.firstIndex ≤ i) : IndexedFrom i (l.tailFrom i) := by
  intro k e he
  have hlt : k < (l.tailFrom i).length := (List.getElem?_eq_some_iff.mp he).1
  rw [h.layered.length_tailFrom hi] at hlt
  rw [tailFrom, BasedLog.getElem?_slice (by rwa [plain_firstIndex]) (by omega)] at he
  obtain hoff | hoff := Nat.lt_or_ge (i + k) l.unstable.offset
  · rw [h.layered.plain_get?_of_lt (by omega) hoff] at he
    have hidx := h.storage_indexed _ e he
    have hdummy := h.dummy_lt_firstIndex
    omega
  · rw [h.layered.plain_get?_of_le (by omega) hoff] at he
    have hidx := h.unstable_indexed _ e he
    omega

/-- `entries` returns them, up to the limit on the size. -/
theorem Layered.entries_eq (h : l.Layered) (hlow : l.firstIndex ≤ i) (hi : i ≤ l.lastIndex + 1) (maxSize : ℕ) :
    l.entries i maxSize = .ok (.ok, entryLimitSize maxSize (l.tailFrom i)) := by
  unfold entries
  by_cases hlast : i > l.lastIndex
  · have hnil : l.tailFrom i = [] := by
      rw [← List.length_eq_zero_iff, h.length_tailFrom hlow]
      omega
    rw [if_pos hlast, hnil]
    rfl
  · rw [if_neg hlast]
    exact h.slice_eq hlow hi (le_refl _) maxSize

/-- Below the first index, it returns that they are compacted. -/
theorem Layered.entries_compacted (h : l.Layered) (hlow : i < l.firstIndex) (maxSize : ℕ) :
    l.entries i maxSize = .ok (MemoryStorage.errCompacted, []) ∨ i > l.lastIndex := by
  unfold entries
  by_cases hlast : i > l.lastIndex
  · exact Or.inr hlast
  · rw [if_neg hlast]
    exact Or.inl ((h.slice_outside i (l.lastIndex + 1) maxSize).1 hlow (by omega))

end RaftLog

namespace Raft

variable {r r' : Raft} {peer : ℕ} {p p' : Progress} {x : Message}

/-- What is to be sent to the peer is no longer in the log: the term of the entry before the next one, or the
next one. -/
def Lags (r : Raft) (p : Progress) : Prop :=
  p.next - 1 < r.raftLog.firstIndex - 1 ∨ p.next < r.raftLog.firstIndex

instance (r : Raft) (p : Progress) : Decidable (r.Lags p) := inferInstanceAs (Decidable (_ ∨ _))

/-- An append for a peer, and the progress of the peer after it. -/
structure AppendFor (r : Raft) (p : Progress) (x : Message) (p' : Progress) : Prop where
  /-- It is an append. -/
  type : x.type = .msgApp
  /-- It goes on from the entry before the next one. -/
  index : x.index + 1 = p.next
  /-- The log knows the term of that entry. -/
  known : r.raftLog.firstIndex ≤ x.index + 1 ∧ x.index ≤ r.raftLog.lastIndex
  /-- The message carries it. -/
  logTerm : r.raftLog.term x.index = .ok x.logTerm
  /-- The entries are those that follow in the log. -/
  entries : x.entries <+: r.raftLog.tailFrom p.next
  /-- They carry their indices. -/
  indexed : IndexedFrom p.next x.entries
  /-- There is one if the log has one. -/
  nonempty : p.next ≤ r.raftLog.lastIndex → x.entries ≠ []
  /-- There are as many as fit into a message, as long as their sizes can be added up in 64 bits. -/
  limit : ((r.raftLog.tailFrom p.next).map Entry.serializeSize).sum < 2^64 →
    (r.raftLog.tailFrom p.next).LongestWithin Entry.serializeSize r.maxMsgSize x.entries
  /-- It carries the commit index. -/
  commit : x.commit = r.raftLog.committed
  /-- While the node replicates, what is next are the entries after these. -/
  next : p.state = .replicate → p'.state = .replicate ∧ p'.next = p.next + x.entries.length

/-- A snapshot for a peer, and the progress of the peer after it. -/
structure SnapshotFor (r : Raft) (p : Progress) (x : Message) (p' : Progress) : Prop where
  /-- It is a snapshot. -/
  type : x.type = .msgSnap
  /-- It carries that of the log. -/
  snapshot : x.snapshot = r.raftLog.snapshot
  /-- It is not empty. -/
  nonempty : x.snapshot.isEmpty = false
  /-- The peer is active. -/
  active : p.recentActive = true
  /-- Then it is waiting for the snapshot. -/
  state : p'.state = .snapshot

/-- The one that follows an append while the node replicates. -/
theorem AppendFor.consecutive {r₂ : Raft} {x₂ : Message} {p₂ : Progress} (h : r.AppendFor p x p')
    (hstate : p.state = .replicate) (h₂ : r₂.AppendFor p' x₂ p₂) : x₂.index = x.index + x.entries.length := by
  have hindex := h.index
  have hindex₂ := h₂.index
  have hnext := (h.next hstate).2
  omega

/-- `maybe_send_append` fills in the append. -/
theorem appendFor_prepareAppend (hlog : r.raftLog.Sound) (hlags : ¬r.Lags p)
    (hwithin : p.matched < p.next ∧ p.next ≤ r.raftLog.lastIndex + 1) {t : ℕ}
    (hterm : r.raftLog.term (sub64 p.next 1) = .ok t) :
    Ensures (r.prepareAppend peer p t (entryLimitSize r.maxMsgSize (r.raftLog.tailFrom p.next))) fun q =>
      q.1.toId = peer ∧ r.AppendFor p q.1 q.2 := by
  obtain ⟨-, hfirst⟩ := not_or.mp hlags
  have hlow : r.raftLog.firstIndex ≤ p.next := not_lt.mp hfirst
  have hsub : sub64 p.next 1 = p.next - 1 := sub64_of_le (by omega)
  have hindexed : IndexedFrom p.next (entryLimitSize r.maxMsgSize (r.raftLog.tailFrom p.next)) :=
    (hlog.tailFrom_indexed hlow).of_isPrefix (entryLimitSize_isPrefix _ _)
  -- All but the progress after it is the same in every state of the progress.
  have happ : ∀ p' : Progress, (p.state = .replicate → p'.state = .replicate ∧
      p'.next = p.next + (entryLimitSize r.maxMsgSize (r.raftLog.tailFrom p.next)).length) →
      r.AppendFor p
        { toId := peer, type := .msgApp, index := sub64 p.next 1, logTerm := t,
          entries := entryLimitSize r.maxMsgSize (r.raftLog.tailFrom p.next),
          commit := r.raftLog.committed } p' := by
    intro p' hnext
    have hindex : sub64 p.next 1 + 1 = p.next := by omega
    exact
      { type := rfl
        index := hindex
        known := ⟨by dsimp only; omega, by dsimp only; omega⟩
        logTerm := hterm
        entries := entryLimitSize_isPrefix _ _
        indexed := hindexed
        nonempty := fun hle hnil => by
          have hlen := hlog.layered.length_tailFrom hlow
          rw [entryLimitSize_eq_nil.mp hnil, List.length_nil] at hlen
          omega
        limit := fun hfit => entryLimitSize_longest r.maxMsgSize hfit
        commit := rfl
        next := hnext }
  unfold prepareAppend
  dsimp only
  cases hlast : (entryLimitSize r.maxMsgSize (r.raftLog.tailFrom p.next)).getLast? with
  | none =>
    rw [List.getLast?_eq_none_iff] at hlast
    refine Ensures.pure ⟨rfl, happ p fun hstate => ⟨hstate, ?_⟩⟩
    rw [hlast]
    rfl
  | some e =>
    cases hstate : p.state with
    | replicate =>
      refine Ensures.bind Ensures.any fun f _ => Ensures.pure ⟨rfl, happ _ fun _ => ⟨hstate, ?_⟩⟩
      exact hindexed.getLast? hlast
    | probe => exact Ensures.pure ⟨rfl, happ _ fun h => by rw [hstate] at h; cases h⟩
    | snapshot => exact Ensures.error

/-- A message of the leader that replicates the log to the peer: an append, or where that is not possible and
the peer is active, a snapshot. -/
def ReplicatesTo (r : Raft) (peer : ℕ) (p : Progress) (r' : Raft) (x : Message) (p' : Progress) : Prop :=
  r'.msgs = r.msgs ++ [x] ∧ x.toId = peer ∧ r'.getProgress peer = some p' ∧
    (¬r.Lags p ∧ r.AppendFor p x p' ∨ r.Lags p ∧ r.SnapshotFor p x p')

/-- The message is sent. -/
theorem replicatesTo_send (hget : r.getProgress peer = some p) (hpeer : x.toId = peer)
    (hx : ¬r.Lags p ∧ r.AppendFor p x p' ∨ r.Lags p ∧ r.SnapshotFor p x p') :
    Ensures ((r.putProgress peer p').send x) fun r' => ∃ x, r.ReplicatesTo peer p r' x p' := by
  intro r' hsend
  obtain ⟨rfl, -⟩ := send_eq hsend
  have hmsgs : (r.putProgress peer p').msgs = r.msgs :=
    congrArg Outline.msgs (r.putProgress_outline peer p')
  have hfill : (r.putProgress peer p').fillIn x = { x with
      fromId := (r.putProgress peer p').id, term := (r.putProgress peer p').term } := by
    have htype : x.type = .msgApp ∨ x.type = .msgSnap := hx.imp (fun h => h.2.type) fun h => h.2.type
    unfold fillIn
    rw [if_neg]
    obtain htype | htype := htype <;> simp [htype, isVoteType]
  refine ⟨_, by rw [hmsgs], ?_, getProgress_putProgress_self hget, ?_⟩
  · rw [hfill]
    exact hpeer
  · rw [hfill]
    obtain ⟨hlags, h⟩ | ⟨hlags, h⟩ := hx
    · exact Or.inl ⟨hlags, h.type, h.index, h.known, h.logTerm, h.entries, h.indexed, h.nonempty, h.limit,
        h.commit, h.next⟩
    · exact Or.inr ⟨hlags, h.type, h.snapshot, h.nonempty, h.active, h.state⟩

/-- `maybe_send_append` sends nothing, or such a message. -/
theorem maybeSendAppend_replicates (hlog : r.raftLog.Sound) (hget : r.getProgress peer = some p)
    (hwithin : p.matched < p.next ∧ p.next ≤ r.raftLog.lastIndex + 1) (sendIfEmpty : Bool) :
    Ensures (r.maybeSendAppend peer sendIfEmpty) fun q => q = (false, r) ∨
      q.1 = true ∧ ∃ x p', r.ReplicatesTo peer p q.2 x p' := by
  unfold maybeSendAppend
  refine Ensures.bind peerProgress_eq fun pr hpr => ?_
  obtain rfl := Option.some.inj (hget.symm.trans hpr)
  refine Ensures.ite (fun _ => Ensures.pure (Or.inl rfl)) fun _ => ?_
  have hterm := hlog.layered.term_eq (sub64 p.next 1)
  by_cases hlow : r.raftLog.firstIndex ≤ p.next
  · have hlags : ¬r.Lags p := by
      unfold Lags
      omega
    rw [hlog.layered.entries_eq hlow hwithin.2]
    refine Ensures.bind (Ensures.ok rfl) fun q hq => ?_
    subst hq
    refine Ensures.ite (fun _ => Ensures.pure (Or.inl rfl)) fun _ => ?_
    rw [hterm]
    refine Ensures.bind (appendFor_prepareAppend hlog hlags hwithin hterm) fun q hq => ?_
    refine Ensures.bind (replicatesTo_send hget hq.1 (Or.inl ⟨hlags, hq.2⟩)) fun r' hr' => ?_
    obtain ⟨x, hx⟩ := hr'
    exact Ensures.pure (Or.inr ⟨rfl, x, _, hx⟩)
  · have hlags : r.Lags p := Or.inr (not_le.mp hlow)
    have hfirst := hlog.layered.firstIndex_le
    rw [(hlog.layered.entries_compacted (not_le.mp hlow) r.maxMsgSize).resolve_right (by omega)]
    refine Ensures.bind (Ensures.ok rfl) fun q hq => ?_
    subst hq
    refine Ensures.ite (fun _ => Ensures.pure (Or.inl rfl)) fun _ => ?_
    rw [hterm]
    refine Ensures.ite (fun _ => Ensures.pure (Or.inl rfl)) fun hactive => ?_
    refine Ensures.bind (P := fun q => q.1.toId = peer ∧ r.SnapshotFor p q.1 q.2) ?_ fun q hq => ?_
    · unfold prepareSnapshot
      refine Ensures.ite (fun _ => Ensures.error) fun hempty => Ensures.ok ⟨rfl, rfl, rfl, ?_, ?_, rfl⟩
      · simpa using hempty
      · simpa using hactive
    refine Ensures.bind (replicatesTo_send hget hq.1 (Or.inr ⟨hlags, hq.2⟩)) fun r' hr' => ?_
    obtain ⟨x, hx⟩ := hr'
    exact Ensures.pure (Or.inr ⟨rfl, x, _, hx⟩)

end Raft

/-- The messages that replicate the log: a leader with a log that fits together, which is to send to a peer the
entry after what the peer is known to hold, or one further on, sends nothing or one message to it. Unless what
is to be sent is compacted, the message is an append. It carries the index and the term of the entry before the
next one, the entries of the log from the next one on, as many as fit into a message but at least one if there
is one, and the commit index. Otherwise the peer is active, and the message is a snapshot, which is not empty;
after that the peer is waiting for it. While the peer replicates, the next append to it goes on where the last
one ended. -/
theorem messages_replicate {r : Raft} {peer : ℕ} {p : Progress} (hlog : r.raftLog.Sound)
    (hget : r.getProgress peer = some p)
    (hwithin : p.matched < p.next ∧ p.next ≤ r.raftLog.lastIndex + 1) (sendIfEmpty : Bool) :
    Ensures (r.maybeSendAppend peer sendIfEmpty) fun q => q = (false, r) ∨
      q.1 = true ∧ ∃ x p', r.ReplicatesTo peer p q.2 x p' ∧
        (p.state = .replicate → x.type = .msgApp → ∀ (r₂ : Raft) (sendIfEmpty₂ : Bool), r₂.raftLog.Sound →
          r₂.getProgress peer = some p' → p'.matched < p'.next ∧ p'.next ≤ r₂.raftLog.lastIndex + 1 →
            Ensures (r₂.maybeSendAppend peer sendIfEmpty₂) fun q₂ => ∀ x₂ : Message,
              q₂.2.msgs = r₂.msgs ++ [x₂] → x₂.type = .msgApp → x₂.index = x.index + x.entries.length) := by
  refine (r.maybeSendAppend_replicates hlog hget hwithin sendIfEmpty).mono fun q hq => ?_
  refine hq.imp_right fun ⟨hsent, x, p', hx⟩ => ⟨hsent, x, p', hx, ?_⟩
  intro hstate htype r₂ sendIfEmpty₂ hlog₂ hget₂ hwithin₂
  have happ : r.AppendFor p x p' := by
    obtain ⟨-, h⟩ | ⟨-, h⟩ := hx.2.2.2
    · exact h
    · rw [h.type] at htype
      cases htype
  refine (r₂.maybeSendAppend_replicates hlog₂ hget₂ hwithin₂ sendIfEmpty₂).mono fun q₂ hq₂ => ?_
  intro x₂ hmsgs htype₂
  obtain rfl | ⟨-, x₃, p₃, hmsgs₃, -, -, hx₃⟩ := hq₂
  · -- Nothing was sent.
    have hlen : r₂.msgs.length = (r₂.msgs ++ [x₂]).length := congrArg List.length hmsgs
    rw [List.length_append, List.length_singleton] at hlen
    omega
  · have heq : x₂ = x₃ := by
      rw [hmsgs₃] at hmsgs
      exact (List.singleton_injective (List.append_cancel_left hmsgs)).symm
    subst heq
    obtain ⟨-, h⟩ | ⟨-, h⟩ := hx₃
    · exact happ.consecutive hstate h
    · rw [h.type] at htype₂
      cases htype₂

/-- A leader of three whose peer has acknowledged the first entry of its term, and gets out of reach after two
more were sent to it. -/
def outOfReach : List (Turn Host HostEvent) × Host :=
  Trace.run Host.handle (Host.started voterConfig)
    [.call { type := .msgHup }, .step { type := .msgVoteResp, fromId := 3, toId := 1, term := 1 },
      .step { type := .msgAppResp, fromId := 3, toId := 1, term := 1, index := 1 },
      .call { type := .msgProp, fromId := 1, entries := [{}] },
      .call { type := .msgProp, fromId := 1, entries := [{}] },
      .call { type := .msgUnreachable, fromId := 3, toId := 1 }]

/-- The progress of the peer. -/
def peerOutOfReach : Progress := (outOfReach.2.node.raft.getProgress 3).getD (Progress.new 8)

/-- Both entries are sent again. -/
theorem messages_replicate_again :
    (∃ q, outOfReach.2.node.raft.maybeSendAppend 3 true = .ok q ∧
      q.2.msgs.getLast?.map (fun x => (x.index, x.entries.map (·.index))) = some (1, [2, 3])) ∧
      Ensures (outOfReach.2.node.raft.maybeSendAppend 3 true) fun q =>
        q = (false, outOfReach.2.node.raft) ∨ q.1 = true ∧ ∃ x p',
          outOfReach.2.node.raft.ReplicatesTo 3 peerOutOfReach q.2 x p' ∧
            (peerOutOfReach.state = .replicate → x.type = .msgApp →
              ∀ (r₂ : Raft) (sendIfEmpty₂ : Bool), r₂.raftLog.Sound → r₂.getProgress 3 = some p' →
                p'.matched < p'.next ∧ p'.next ≤ r₂.raftLog.lastIndex + 1 →
                  Ensures (r₂.maybeSendAppend 3 sendIfEmpty₂) fun q₂ => ∀ x₂ : Message,
                    q₂.2.msgs = r₂.msgs ++ [x₂] → x₂.type = .msgApp →
                      x₂.index = x.index + x.entries.length) := by
  have hbuilt : Host.Built voterConfig (Host.started voterConfig) :=
    Host.boot_built (Host.boot_started (by decide +kernel))
  have hsound := (hbuilt.sound MemoryStorage.empty_consistent (Or.inl rfl)).run
    (Trace.of_run _ _ _ : Host.Run (Host.started voterConfig) outOfReach.1 outOfReach.2) (by decide +kernel)
    (by decide +kernel)
  have hsent : ((outOfReach.2.node.raft.maybeSendAppend 3 true).toOption.map fun q =>
      q.2.msgs.getLast?.map fun x => (x.index, x.entries.map (·.index))) = some (some (1, [2, 3])) := by
    decide +kernel
  constructor
  · cases hq : outOfReach.2.node.raft.maybeSendAppend 3 true with
    | error _ =>
      rw [hq] at hsent
      cases hsent
    | ok q =>
      rw [hq] at hsent
      exact ⟨q, rfl, Option.some.inj hsent⟩
  · exact messages_replicate hsound.2.log (by decide +kernel) (by decide +kernel) true

end RaftCpp
