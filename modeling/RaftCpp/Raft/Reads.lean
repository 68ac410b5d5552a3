import RaftCpp.Library.AssocMap
import RaftCpp.Raft.Leadership

/-!
# The reads of a leader

What a leader does to the reads that wait for a quorum, and when it releases one: it tells its own
application the index, or sends it to the node that asked.
-/

namespace RaftCpp

open Outcome

variable {c : Cause} {s r r' r'' : Raft}

/-! ## Pending reads -/

namespace ReadOnly

variable {ro ro' : ReadOnly} {m : Message} {k : ℕ} {ctx : Bytes}

/-- A read of the context waits. -/
def Waits (ro : ReadOnly) (ctx : Bytes) : Prop := (ro.pendingReadIndex.lookup ctx).isSome = true

instance (ro : ReadOnly) (ctx : Bytes) : Decidable (ro.Waits ctx) :=
  inferInstanceAs (Decidable (_ = true))

/-- No read waits. -/
structure Idle (ro : ReadOnly) : Prop where
  /-- None is queued. -/
  queue : ro.readIndexQueue = []
  /-- None has a status. -/
  keys : ro.pendingReadIndex.keys = []

/-- Where no read waits, no context has a status. -/
theorem Idle.lookup (h : ro.Idle) (ctx : Bytes) : ro.pendingReadIndex.lookup ctx = none := by
  rw [AList.lookup_eq_none, AList.mem_keys, h.keys]
  exact List.not_mem_nil

/-- A read that waits has a status. -/
theorem Waits.status (h : ro.Waits ctx) : ∃ st, ro.pendingReadIndex.lookup ctx = some st :=
  Option.isSome_iff_exists.mp h

/-- A read that has a status waits. -/
theorem waits_of_lookup {st : ReadIndexStatus} (h : ro.pendingReadIndex.lookup ctx = some st) :
    ro.Waits ctx := Option.isSome_iff_exists.mpr ⟨st, h⟩

/-- What `add_request` does: it puts a read off, unless one of its context is put off. -/
theorem addRequest_spec : Ensures (ro.addRequest k m) fun ro' => ∃ ctx, m.readCtx = .ok ctx ∧
    (ro.Waits ctx ∧ ro' = ro ∨ ro.pendingReadIndex.lookup ctx = none ∧ ro' = { ro with
      pendingReadIndex := ro.pendingReadIndex.insert ctx { req := m, index := k }
      readIndexQueue := ro.readIndexQueue ++ [ctx] }) := by
  unfold addRequest
  refine Ensures.bindEq fun ctx hctx => ?_
  cases hlook : ro.pendingReadIndex.lookup ctx with
  | some st => exact Ensures.pure ⟨ctx, hctx, Or.inl ⟨waits_of_lookup hlook, rfl⟩⟩
  | none => exact Ensures.pure ⟨ctx, hctx, Or.inr ⟨hlook, rfl⟩⟩

/-- The loop of `advance` finds the context where it is, and takes the reads up to it. -/
theorem advanceLoop_spec (ro : ReadOnly) (ctx : Bytes) : ∀ q : List Bytes,
    Ensures (ro.advanceLoop ctx q) fun p =>
      (p.1 = true → ∃ q₁ q₂, q = q₁ ++ ctx :: q₂ ∧
        List.Forall₂ (fun k st => ro.pendingReadIndex.lookup k = some st) (q₁ ++ [ctx]) p.2) ∧
      (p.1 = false → ctx ∉ q)
  | [] => Ensures.ok ⟨nofun, fun _ => List.not_mem_nil⟩
  | k :: q => by
    unfold advanceLoop
    cases hlook : ro.pendingReadIndex.lookup k with
    | none => exact Ensures.error
    | some st =>
      refine Ensures.ite (fun heq => ?_) fun hne => ?_
      · subst heq
        exact Ensures.ok ⟨fun _ => ⟨[], q, rfl, .cons hlook .nil⟩, nofun⟩
      · refine Ensures.bind (advanceLoop_spec ro ctx q) fun p hp => ?_
        refine Ensures.pure ⟨fun hfound => ?_, fun hnot => ?_⟩
        · obtain ⟨q₁, q₂, hq, hall⟩ := hp.1 hfound
          exact ⟨k :: q₁, q₂, by rw [hq]; rfl, .cons hlook hall⟩
        · rw [List.mem_cons, not_or]
          exact ⟨Ne.symm hne, hp.2 hnot⟩

/-- The loop of `advance` over the reads that leave the map. -/
theorem erase_spec : ∀ {ks : List Bytes} {rss : List ReadIndexStatus}
    (pending : AList fun _ : Bytes => ReadIndexStatus),
    List.Forall₂ (fun k (st : ReadIndexStatus) => st.req.readCtx = .ok k) ks rss →
      Ensures (rss.foldlM (fun pending rs => do
        let ctx ← rs.req.readCtx
        return pending.erase ctx) pending) fun pending' =>
          ∀ k, pending'.lookup k = if k ∈ ks then none else pending.lookup k
  | [], _, pending, .nil => Ensures.pure fun k => (if_neg List.not_mem_nil).symm
  | k₀ :: ks, _ :: _, pending, .cons hctx hall => by
    rw [List.foldlM_cons, hctx]
    refine (erase_spec (pending.erase k₀) hall).mono fun pending' h k => ?_
    rw [h k]
    by_cases hk : k = k₀
    · subst hk
      rw [if_pos List.mem_cons_self, AList.lookup_erase, ite_self]
    · rw [AList.lookup_erase_ne hk]
      simp only [List.mem_cons, hk, false_or]

/-- What `advance` does on a context that is in the queue: the reads up to it leave the queue and the
map. -/
theorem advance_spec (hctx : ∀ k st, ro.pendingReadIndex.lookup k = some st → st.req.readCtx = .ok k)
    (hmem : m.context ∈ ro.readIndexQueue) :
    Ensures (ro.advance m) fun p => ∃ q₁ q₂,
      ro.readIndexQueue = q₁ ++ m.context :: q₂ ∧ p.2.readIndexQueue = q₂ ∧ p.2.option = ro.option ∧
        (q₁ ++ [m.context]).map ro.pendingReadIndex.lookup = p.1.map some ∧
        ∀ k, p.2.pendingReadIndex.lookup k =
          if k ∈ q₁ ++ [m.context] then none else ro.pendingReadIndex.lookup k := by
  unfold advance
  refine Ensures.bind (advanceLoop_spec ro m.context ro.readIndexQueue) fun p hp => ?_
  obtain ⟨found, rss⟩ := p
  cases found with
  | false => exact absurd hmem (hp.2 rfl)
  | true =>
    obtain ⟨q₁, q₂, hq, hall⟩ := hp.1 rfl
    have hlen : rss.length = q₁.length + 1 := by
      rw [← hall.length_eq, List.length_append, List.length_singleton]
    dsimp only
    rw [if_pos rfl]
    have hmap : (q₁ ++ [m.context]).map ro.pendingReadIndex.lookup = rss.map some := by
      rw [← List.forall₂_eq_eq_eq, List.forall₂_map_left_iff, List.forall₂_map_right_iff]
      exact hall
    refine Ensures.bind (erase_spec ro.pendingReadIndex (hall.imp fun k st => hctx k st))
      fun pending hpending => Ensures.pure ⟨q₁, q₂, hq, ?_, rfl, hmap, hpending⟩
    dsimp only
    rw [hlen, hq, List.append_cons]
    exact List.drop_left' (by rw [List.length_append, List.length_singleton])

end ReadOnly

/-! ## Released reads -/

/-- What an answer to the node that asked for a read says. -/
def Message.answeredRead (m : Message) : Option ReadState :=
  if m.type = .msgReadIndexResp then m.entries.head?.map fun e => { index := m.index, requestCtx := e.data }
  else none

/-- Such an answer carries the index, and the context where a request has it. -/
theorem Message.answeredRead_spec {m : Message} {x : ReadState} (h : x ∈ m.answeredRead) :
    m.type = .msgReadIndexResp ∧ x.index = m.index ∧ m.readCtx = .ok x.requestCtx := by
  unfold Message.answeredRead at h
  split_ifs at h with htype
  · obtain ⟨e, he, rfl⟩ := Option.map_eq_some_iff.mp h
    have hctx : m.readCtx = .ok e.data := by
      unfold Message.readCtx elemAt
      rw [← List.head?_eq_getElem?, he]
      rfl
    exact ⟨htype, rfl, hctx⟩
  · cases h

namespace Raft

/-- Filling in the sender and the term does not change what an answer says. -/
theorem answeredRead_fillIn (r : Raft) (x : Message) : (r.fillIn x).answeredRead = x.answeredRead := by
  unfold fillIn
  split_ifs <;> rfl

/-- The reads that are released on the way from one state to another, to the application of the node and
to the nodes that asked. -/
def released (r r' : Raft) : List ReadState :=
  r'.readStates.drop r.readStates.length ++
    (r'.msgs.drop r.msgs.length).filterMap Message.answeredRead

/-- All that is released meets a condition. -/
structure Releases (P : ReadState → Prop) (r r' : Raft) : Prop where
  /-- What the application is told. -/
  readStates : ∃ xs, r'.readStates = r.readStates ++ xs ∧ ∀ x ∈ xs, P x
  /-- What is sent. -/
  msgs : ∃ ms, r'.msgs = r.msgs ++ ms ∧ ∀ m ∈ ms, ∀ x ∈ m.answeredRead, P x

namespace Releases

variable {P Q : ReadState → Prop}

/-- Neither the reads nor the messages change. -/
theorem of_eq (hrs : r'.readStates = r.readStates) (hmsgs : r'.msgs = r.msgs) : Releases P r r' :=
  ⟨⟨[], by rw [hrs, List.append_nil], nofun⟩, ⟨[], by rw [hmsgs, List.append_nil], nofun⟩⟩

/-- One change after another. -/
theorem trans (h : Releases P r r') (h' : Releases P r' r'') : Releases P r r'' := by
  obtain ⟨⟨xs, hxs, hPx⟩, ⟨ms, hms, hPm⟩⟩ := h
  obtain ⟨⟨xs', hxs', hPx'⟩, ⟨ms', hms', hPm'⟩⟩ := h'
  constructor
  · refine ⟨xs ++ xs', by rw [hxs', hxs, List.append_assoc], fun x hx => ?_⟩
    exact (List.mem_append.mp hx).elim (hPx x) (hPx' x)
  · refine ⟨ms ++ ms', by rw [hms', hms, List.append_assoc], fun m hm => ?_⟩
    exact (List.mem_append.mp hm).elim (hPm m) (hPm' m)

/-- A message that is no answer is sent. -/
theorem send {x : Message} (h : r.send x = .ok r') (hne : x.type ≠ .msgReadIndexResp) :
    Releases P r r' := by
  obtain ⟨rfl, -⟩ := send_eq h
  refine ⟨⟨[], (List.append_nil _).symm, nofun⟩, ⟨_, rfl, fun m hm y hy => ?_⟩⟩
  rw [List.mem_singleton] at hm
  subst hm
  rw [answeredRead_fillIn] at hy
  exact absurd (Message.answeredRead_spec hy).1 hne

/-- What is released meets the condition. -/
theorem of_mem (h : Releases P r r') {x : ReadState} (hx : x ∈ r.released r') : P x := by
  obtain ⟨⟨xs, hxs, hPx⟩, ⟨ms, hms, hPm⟩⟩ := h
  unfold released at hx
  rw [hxs, hms, List.drop_left, List.drop_left, List.mem_append, List.mem_filterMap] at hx
  obtain hx | ⟨m, hm, hx⟩ := hx
  · exact hPx x hx
  · exact hPm m hm x hx

/-- More is allowed. -/
theorem mono (h : Releases P r r') (hPQ : ∀ x, P x → Q x) : Releases Q r r' := by
  obtain ⟨⟨xs, hxs, hPx⟩, ⟨ms, hms, hPm⟩⟩ := h
  exact ⟨⟨xs, hxs, fun x hx => hPQ x (hPx x hx)⟩, ⟨ms, hms, fun m hm x hx => hPQ x (hPm m hm x hx)⟩⟩

/-- Where nothing meets the condition, nothing is released. -/
theorem released_eq_nil (h : Releases (fun _ => False) r r') : r.released r' = [] :=
  List.eq_nil_iff_forall_not_mem.mpr fun _ hx => h.of_mem hx

end Releases

/-- Nothing is released where the reads and the messages stay or are taken. -/
theorem released_eq_nil (hrs : r'.readStates = r.readStates ∨ r'.readStates = [])
    (hmsgs : r'.msgs = r.msgs ∨ r'.msgs = []) : r.released r' = [] := by
  unfold released
  obtain hrs | hrs := hrs <;> obtain hmsgs | hmsgs := hmsgs <;> simp [hrs, hmsgs]

/-- Answering a read releases it. -/
theorem releases_answerRead (req : Message) (index : ℕ) : Ensures (r.answerRead req index) fun r' =>
    Releases (fun x => x.index = index ∧ req.readCtx = .ok x.requestCtx) r r' ∧
      r'.readOnly = r.readOnly := by
  unfold answerRead
  refine Ensures.ite (fun _ => ?_) fun _ r' h => ?_
  · refine Ensures.bindEq fun ctx hctx => Ensures.pure ⟨⟨⟨_, rfl, fun x hx => ?_⟩, ?_⟩, rfl⟩
    · rw [List.mem_singleton] at hx
      subst hx
      exact ⟨rfl, hctx⟩
    · exact ⟨[], (List.append_nil _).symm, nofun⟩
  · obtain ⟨rfl, -⟩ := send_eq h
    refine ⟨⟨⟨[], (List.append_nil _).symm, nofun⟩, ⟨_, rfl, fun m hm x hx => ?_⟩⟩, rfl⟩
    rw [List.mem_singleton] at hm
    subst hm
    rw [answeredRead_fillIn] at hx
    -- What is sent carries the entries of the request, the first of which is the context.
    exact (Message.answeredRead_spec hx).2

/-- A read that is served at once is released at the commit index. -/
theorem releases_serve {m : Message} (hquorum : r.quorum ≤ 1) :
    Ensures (r.stepLeaderReadIndex m) fun r' =>
      Releases (fun x => x.index = r.raftLog.committed ∧ m.readCtx = .ok x.requestCtx) r r' ∧
        r'.readOnly = r.readOnly := by
  unfold stepLeaderReadIndex
  rw [if_neg (not_lt.mpr hquorum)]
  refine Ensures.bindEq fun ctx hctx => Ensures.pure ⟨⟨⟨_, rfl, fun x hx => ?_⟩, ?_⟩, rfl⟩
  · rw [List.mem_singleton] at hx
    subst hx
    exact ⟨rfl, hctx⟩
  · exact ⟨[], (List.append_nil _).symm, nofun⟩

end Raft

/-- The status of a read that one more node has acknowledged. -/
def ReadIndexStatus.ackedBy (st : ReadIndexStatus) (y : ℕ) : ReadIndexStatus :=
  { st with acks := insert y st.acks }

/-- The pending reads, with another status of one of them. -/
def ReadOnly.put (ro : ReadOnly) (ctx : Bytes) (st : ReadIndexStatus) : ReadOnly :=
  { ro with pendingReadIndex := ro.pendingReadIndex.insert ctx st }

/-- What an acknowledgement does to the reads of a leader. -/
inductive Raft.AckRead (r : Raft) (m : Message) : Raft → Prop
  /-- No read waits for it. -/
  | stray (h : r.readOnly.option ≠ .safe ∨ m.context = [] ∨ ¬r.readOnly.Waits m.context) :
      AckRead r m r
  /-- It is counted. -/
  | counted (st : ReadIndexStatus) (hne : m.context ≠ [])
      (hst : r.readOnly.pendingReadIndex.lookup m.context = some st) :
      AckRead r m { r with readOnly := r.readOnly.put m.context (st.ackedBy m.fromId) }
  /-- A quorum has acknowledged the read, which is released with all that were put off before it. -/
  | released {r' : Raft} (st : ReadIndexStatus) (rss : List ReadIndexStatus) (hne : m.context ≠ [])
      (hst : r.readOnly.pendingReadIndex.lookup m.context = some st)
      (hquorum : r.quorum ≤ (st.ackedBy m.fromId).acks.card + 1)
      (hadv : (r.readOnly.put m.context (st.ackedBy m.fromId)).advance m = .ok (rss, r'.readOnly))
      (hrel : Releases (fun x => ∃ rs ∈ rss, x.index = rs.index ∧ rs.req.readCtx = .ok x.requestCtx) r r') :
      AckRead r m r'

namespace Raft

/-- An acknowledgement does nothing else. -/
theorem ackRead_spec (m : Message) : Ensures (r.ackRead m) (AckRead r m) := by
  unfold ackRead
  refine Ensures.ite (fun h => Ensures.pure (.stray (h.imp_right Or.inl))) fun h => ?_
  rw [not_or, not_not] at h
  have hpos : ¬ 0 ≥ r.quorum := by
    unfold quorum
    omega
  unfold ReadOnly.recvAck
  cases hst : r.readOnly.pendingReadIndex.lookup m.context with
  | none =>
    have hnot : ¬r.readOnly.Waits m.context := fun hw => by
      obtain ⟨st, hst'⟩ := hw.status
      rw [hst] at hst'
      cases hst'
    dsimp only
    rw [if_pos (not_le.mp hpos)]
    exact Ensures.pure (.stray (Or.inr (Or.inr hnot)))
  | some st =>
    dsimp only
    refine Ensures.ite (fun _ => Ensures.pure (.counted st h.2 hst)) fun hquorum => ?_
    refine Ensures.bindEq fun p hp => ?_
    have hfold := Ensures.foldlM (P := fun r' : Raft => r'.readOnly = p.2 ∧
      Releases (fun x => ∃ rs ∈ p.1, x.index = rs.index ∧ rs.req.readCtx = .ok x.requestCtx) r r') p.1
      (f := fun r rs => r.answerRead rs.req rs.index)
      (fun r₁ rs hrs h₁ => (releases_answerRead rs.req rs.index).mono fun r₂ h₂ =>
        ⟨h₂.2.trans h₁.1, h₁.2.trans (h₂.1.mono fun x hx => ⟨rs, hrs, hx⟩)⟩)
      { r with readOnly := p.2 } ⟨rfl, .of_eq rfl rfl⟩
    refine hfold.mono fun r' hr' => ?_
    exact .released st p.1 h.2 hst (not_lt.mp hquorum) (by rw [hr'.1]; exact hp) hr'.2

end Raft

/-! ## The moves of a leader -/

/-- What a move of a leader does to its reads. -/
inductive ReadMove (c : Cause) (r : Raft) : Raft → Prop
  /-- Nothing. -/
  | quiet {r' : Raft} (hreads : r'.readOnly = r.readOnly) (hrel : Raft.Releases (fun _ => False) r r') :
      ReadMove c r r'
  /-- A read is served at once. -/
  | serve {r' : Raft} (m : Message) (hc : c = .step m) (htype : m.type = .msgReadIndex)
      (hnow : r.quorum ≤ 1 ∨ r.readOnly.option = .leaseBased) (h : r.stepLeaderReadIndex m = .ok r') :
      ReadMove c r r'
  /-- A read is put off. -/
  | ask (m : Message) (ro : ReadOnly) (hc : c = .step m) (htype : m.type = .msgReadIndex)
      (h : r.readOnly.addRequest r.raftLog.committed m = .ok ro) : ReadMove c r { r with readOnly := ro }
  /-- A read is acknowledged. -/
  | confirm {r' : Raft} (m : Message) (hc : c = .step m) (htype : m.type = .msgHeartbeatResp)
      (h : Raft.AckRead r m r') : ReadMove c r r'

/-- Every move of a leader does one of these things to its reads. -/
theorem LeaderMove.reads (h : LeaderMove c s r r') : ReadMove c r r' := by
  cases h with
  | send x hx hne hsend =>
    refine .quiet ?_ (.send hsend hne)
    obtain ⟨rfl, -⟩ := Raft.send_eq hsend
    rfl
  | peer y p p' hget hp =>
    have ho := r.putProgress_outline y p'
    refine .quiet ?_ (.of_eq (congrArg Outline.readStates ho) (congrArg Outline.msgs ho))
    unfold Raft.putProgress
    split_ifs <;> rfl
  | serve m hc htype hnow hserve => exact .serve m hc htype hnow hserve
  | ask m ro hc htype hquorum hoption hterm hadd => exact .ask m ro hc htype hadd
  | confirm m hc htype hknown hack => exact .confirm m hc htype (Raft.ackRead_spec m r' hack)
  | _ => exact .quiet rfl (.of_eq rfl rfl)

/-- The voters that a node knows. -/
def Raft.voters (r : Raft) : Finset ℕ := r.prs.keys.toFinset

/-- The number of voters that decide is a majority of them. -/
theorem Raft.quorum_eq (r : Raft) : r.quorum = r.voters.card / 2 + 1 := by
  unfold quorum voters
  rw [List.toFinset_card_of_nodup (AList.keys_nodup _)]

/-- A leader keeps its identity and the voters. -/
theorem LeaderMove.members (h : LeaderMove c s r r') : r'.id = r.id ∧ r'.voters = r.voters := by
  have hreads : r.OnlyReads r' → r'.id = r.id ∧ r'.voters = r.voters := by
    rintro ⟨_, _, _, rfl⟩
    exact ⟨rfl, rfl⟩
  cases h with
  | send x hx hne hsend =>
    obtain ⟨rfl, -⟩ := Raft.send_eq hsend
    exact ⟨rfl, rfl⟩
  | peer y p p' hget hp =>
    have ho := r.putProgress_outline y p'
    exact ⟨congrArg Outline.id ho, congrArg Outline.voters ho⟩
  | serve m hc htype hnow hserve => exact hreads (Raft.onlyReads_serve m hnow _ hserve)
  | confirm m hc htype hknown hack => exact hreads (Raft.onlyReads_ackRead m _ hack)
  | _ => exact ⟨rfl, rfl⟩

/-- A cause that neither brings a read nor acknowledges one. -/
def Cause.Quiet (c : Cause) : Prop :=
  ∀ m, c = .step m → m.type ≠ .msgReadIndex ∧ m.type ≠ .msgHeartbeatResp

/-- On such a cause a leader leaves its reads alone. -/
theorem LeaderCourse.quiet (h : LeaderCourse c s r r') (hc : c.Quiet) :
    r'.readOnly = r.readOnly ∧ Raft.Releases (fun _ => False) r r' := by
  induction h with
  | refl => exact ⟨rfl, .of_eq rfl rfl⟩
  | tail _ hm ih =>
    cases hm.reads with
    | quiet hreads hrel => exact ⟨hreads.trans ih.1, ih.2.trans hrel⟩
    | serve m hcm htype _ _ => exact absurd htype (hc m hcm).1
    | ask m _ hcm htype _ => exact absurd htype (hc m hcm).1
    | confirm m hcm htype _ => exact absurd htype (hc m hcm).2

/-- Where no read waits, none does before one arrives. -/
theorem LeaderCourse.idle (h : LeaderCourse c s r r') (hc : ∀ m, c = .step m → m.type ≠ .msgReadIndex)
    (hidle : r.readOnly.Idle) : r'.readOnly.Idle := by
  induction h with
  | refl => exact hidle
  | tail _ hm ih =>
    cases hm.reads with
    | quiet hreads _ => exact hreads ▸ ih
    | serve m hcm htype _ _ => exact absurd htype (hc m hcm)
    | ask m _ hcm htype _ => exact absurd htype (hc m hcm)
    | confirm m _ _ hack =>
      cases hack with
      | stray _ => exact ih
      | counted st _ hst =>
        rw [ih.lookup] at hst
        cases hst
      | released st _ _ hst _ _ _ =>
        rw [ih.lookup] at hst
        cases hst

/-- A leader keeps its identity and the voters. -/
theorem LeaderCourse.members (h : LeaderCourse c s r r') : r'.id = r.id ∧ r'.voters = r.voters := by
  induction h with
  | refl => exact ⟨rfl, rfl⟩
  | tail _ hm ih => exact ⟨hm.members.1.trans ih.1, hm.members.2.trans ih.2⟩

namespace Host

variable {h h' : Host} {e : HostEvent}

/-- What the application does for itself leaves the reads alone that wait, and releases none. -/
theorem Handled.reads (hd : Handled h e h') (hc : e.cause = none) :
    h'.node.raft.readOnly = h.node.raft.readOnly ∧ h'.node.raft.id = h.node.raft.id ∧
      h'.node.raft.voters = h.node.raft.voters ∧ h.node.raft.released h'.node.raft = [] := by
  obtain ⟨l, msgs, readStates, size, heq, -, hmsgs, hrs⟩ := hd.frame hc
  rw [heq]
  exact ⟨rfl, rfl, rfl, Raft.released_eq_nil hrs hmsgs⟩

/-- So does a change of the membership. -/
theorem reads_confChange (hc : e.cause = some .confChange) (hh : h.handle e = .ok h') :
    h'.node.raft.readOnly = h.node.raft.readOnly ∧ h.node.raft.released h'.node.raft = [] := by
  cases e with
  | applyConfChange cc =>
    obtain ⟨p, hp, hh⟩ := bind_eq_ok.mp hh
    cases hh
    obtain ⟨⟨r₁, ⟨⟨prs, learnerPrs, isLearner, rfl⟩, -⟩, hleads⟩, -⟩ :=
      h.node.leads_applyConfChange (s := h.node.raft) cc p hp
    obtain ⟨hreads, hrel⟩ := hleads.quiet nofun
    have hreshape : Raft.Releases (fun _ => False) h.node.raft
        { h.node.raft with prs := prs, learnerPrs := learnerPrs, isLearner := isLearner } := .of_eq rfl rfl
    exact ⟨hreads, (hreshape.trans hrel).released_eq_nil⟩
  | _ => cases hc

/-- No read waits at the start of a leadership. -/
theorem idle_elect (hh : h.handle e = .ok h') (ht : TakesLead ⟨h, e, h'⟩) :
    h'.node.raft.readOnly.Idle := by
  obtain ⟨c, -, hwork, r₁, p, -, -, -, -, hleads⟩ := elects hh ht
  exact hleads.idle (fun m hm htype => hwork m hm (Or.inr (Or.inl htype))) ⟨rfl, rfl⟩

end Host

end RaftCpp
