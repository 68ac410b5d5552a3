import RaftCpp.Raft.Reads

/-!
# Reads that a quorum has confirmed

A leader in the safe mode puts a read off until a quorum has answered a heartbeat that carries the context of
the read, or of a later one. It counts the answers of all nodes that it knows, those of learners as well, but
compares their number with what the voters need. As long as only other voters answer, a read is not released
before a majority has confirmed the leader since the read arrived.
-/

namespace RaftCpp

open Outcome

/-- A node, and the answers to heartbeats that the other nodes have sent. -/
structure Reading where
  /-- The node and its application. -/
  host : Host
  /-- The answers sent so far. -/
  answers : List Message := []

/-- What can happen. -/
inductive ReadingEvent
  /-- Another node answers a heartbeat. -/
  | answer (m : Message)
  /-- The application of the node does something. -/
  | act (e : HostEvent)
deriving DecidableEq

namespace Reading

/-- What happens on an event. An answer stays, so that it can be delivered late, or more than once. -/
def handle (s : Reading) : ReadingEvent → Result Reading
  | .answer m => return { s with answers := s.answers ++ [m] }
  | .act e => do
    let h ← s.host.handle e
    return { s with host := h }

/-- The runs. -/
abbrev Run : Reading → List (Turn Reading ReadingEvent) → Reading → Prop := Trace handle

/-- The node. -/
def raft (s : Reading) : Raft := s.host.node.raft

/-- The message that is handed to the node in a step. -/
def message (t : Turn Reading ReadingEvent) : Option Message :=
  match t.event with
  | .answer _ => none
  | .act e => e.message

/-- In the step a read of the context arrives. -/
def Asks (t : Turn Reading ReadingEvent) (ctx : Bytes) : Prop :=
  ∃ m, message t = some m ∧ m.type = .msgReadIndex ∧ m.readCtx = .ok ctx

/-- In the step a node answers a heartbeat that carried the context. -/
def Answers (t : Turn Reading ReadingEvent) (y : ℕ) (ctx : Bytes) : Prop :=
  ∃ m, t.event = .answer m ∧ m.type = .msgHeartbeatResp ∧ m.fromId = y ∧ m.context = ctx

/-- The reads that are released in a step. -/
def released (t : Turn Reading ReadingEvent) : List ReadState := t.before.raft.released t.after.raft

/-- What makes the node act in a step. -/
def cause (t : Turn Reading ReadingEvent) : Option Cause :=
  match t.event with
  | .answer _ => none
  | .act e => e.cause

/-- The answers to heartbeats that are delivered were sent, and the membership does not change while a read
waits. -/
def Genuine (t : Turn Reading ReadingEvent) : Prop :=
  (∀ m ∈ message t, m.type = .msgHeartbeatResp → m ∈ t.before.answers) ∧
    (cause t = some .confChange → t.before.raft.readOnly.pendingReadIndex.keys = [])

instance (t : Turn Reading ReadingEvent) : Decidable (Genuine t) :=
  inferInstanceAs (Decidable (_ ∧ (_ → _)))

/-- The node is a voter, an answer that a read waits for comes from another voter, and no answer that was
sent before a read arrived carries its context. -/
def ByVoters (t : Turn Reading ReadingEvent) : Prop :=
  t.before.raft.id ∈ t.before.raft.voters ∧
    ∀ m ∈ message t,
      (m.type = .msgHeartbeatResp → t.before.raft.readOnly.Waits m.context →
        m.fromId ∈ t.before.raft.voters ∧ m.fromId ≠ t.before.raft.id) ∧
      (m.type = .msgReadIndex → ∀ a ∈ t.before.answers, a.type = .msgHeartbeatResp →
        m.readCtx = .ok a.context → t.before.raft.readOnly.Waits a.context)

instance (t : Turn Reading ReadingEvent) : Decidable (ByVoters t) :=
  inferInstanceAs (Decidable (_ ∧ ∀ m ∈ message t, _))

/-- Between two steps a node has answered a heartbeat with the context, or with that of a read that arrived
after the first step and before the answer. -/
def AnsweredSince (ts : List (Turn Reading ReadingEvent)) (i n y : ℕ) (ctx : Bytes) : Prop :=
  ∃ j t ctx', i < j ∧ j < n ∧ ts[j]? = some t ∧ Answers t y ctx' ∧
    (ctx' = ctx ∨ ∃ k u, i < k ∧ k < j ∧ ts[k]? = some u ∧ Asks u ctx')

/-- The read that is released in the step arrived in an earlier one, or in the same, has waited since, and
gets an index that is no lower than the commit index at that time. And the node and those that have answered
since form a majority of the voters. -/
def Confirmed (ts : List (Turn Reading ReadingEvent)) (n : ℕ) (t : Turn Reading ReadingEvent)
    (x : ReadState) : Prop :=
  ∃ i u, i ≤ n ∧ ts[i]? = some u ∧ Asks u x.requestCtx ∧ u.before.raft.raftLog.committed ≤ x.index ∧
    (∀ j w, i < j → j ≤ n → ts[j]? = some w → w.before.raft.readOnly.Waits x.requestCtx) ∧
    (Consensus.majority t.before.raft.voters).IsQuorum
      {y | y = t.before.raft.id ∨ AnsweredSince ts i n y x.requestCtx}

/-! ## What is recorded of a read that waits -/

variable {ts : List (Turn Reading ReadingEvent)} {t : Turn Reading ReadingEvent} {answers : List Message}
  {V : Finset ℕ} {id i : ℕ} {ctx : Bytes} {st : ReadIndexStatus} {ro : ReadOnly} {since : Bytes → ℕ}

/-- What is recorded of a read that arrived in the step with the number `i`. -/
structure Recorded (ts : List (Turn Reading ReadingEvent)) (answers : List Message) (V : Finset ℕ)
    (id i : ℕ) (ctx : Bytes) (st : ReadIndexStatus) : Prop where
  /-- The context is that of the request. -/
  readCtx : st.req.readCtx = .ok ctx
  /-- The request arrived, and the index is no lower than the commit index at that time. -/
  asked : ∃ t, ts[i]? = some t ∧ Asks t ctx ∧ t.before.raft.raftLog.committed ≤ st.index
  /-- It has waited since. -/
  waits : ∀ j t, i < j → ts[j]? = some t → t.before.raft.readOnly.Waits ctx
  /-- What is counted are answers of other voters. -/
  acks : ∀ y ∈ st.acks, (y ∈ V ∧ y ≠ id) ∧
    ∃ m ∈ answers, m.type = .msgHeartbeatResp ∧ m.fromId = y ∧ m.context = ctx
  /-- No answer with the context is older. -/
  fresh : ∀ m ∈ answers, m.type = .msgHeartbeatResp → m.context = ctx →
    ∃ j t, i < j ∧ ts[j]? = some t ∧ t.event = .answer m

/-- The reads that wait are recorded, and queue in the order in which they arrived. -/
structure Kept (ts : List (Turn Reading ReadingEvent)) (answers : List Message) (V : Finset ℕ) (id : ℕ)
    (since : Bytes → ℕ) (ro : ReadOnly) : Prop where
  /-- The order of the queue. -/
  order : ro.readIndexQueue.Pairwise fun k k' => since k < since k'
  /-- What is in the queue waits. -/
  queued : ∀ k ∈ ro.readIndexQueue, ro.Waits k
  /-- What waits is in the queue, and recorded. -/
  recorded : ∀ k st, ro.pendingReadIndex.lookup k = some st →
    k ∈ ro.readIndexQueue ∧ Recorded ts answers V id (since k) k st

/-- A step is found where it was after more steps. -/
theorem getElem?_snoc {j : ℕ} {u t : Turn Reading ReadingEvent} (h : ts[j]? = some u) :
    (ts ++ [t])[j]? = some u := by
  rw [List.getElem?_append_left (List.getElem?_eq_some_iff.mp h).1, h]

/-- After one more step, a step is one of those before, or the last. -/
theorem getElem?_snoc_cases {j : ℕ} {u t : Turn Reading ReadingEvent} (h : (ts ++ [t])[j]? = some u) :
    ts[j]? = some u ∨ j = ts.length ∧ u = t := by
  rw [List.getElem?_append] at h
  split_ifs at h with hlt
  · exact Or.inl h
  · obtain ⟨hj, rfl⟩ := List.getElem?_eq_some_iff.mp h
    rw [List.length_singleton] at hj
    exact Or.inr ⟨by omega, List.getElem_singleton hj⟩

/-- After one more step, in which the read waits, it is recorded as before. -/
theorem Recorded.snoc (h : Recorded ts answers V id i ctx st)
    (hwaits : t.before.raft.readOnly.Waits ctx) : Recorded (ts ++ [t]) answers V id i ctx st := by
  constructor
  · exact h.readCtx
  · obtain ⟨u, hu, hasks⟩ := h.asked
    exact ⟨u, getElem?_snoc hu, hasks⟩
  · intro j u hij hu
    obtain hu | ⟨-, rfl⟩ := getElem?_snoc_cases hu
    · exact h.waits j u hij hu
    · exact hwaits
  · exact h.acks
  · intro m hm htype hctx
    obtain ⟨j, u, hij, hu, hev⟩ := h.fresh m hm htype hctx
    exact ⟨j, u, hij, getElem?_snoc hu, hev⟩

namespace Kept

/-- After one more step. -/
theorem snoc (h : Kept ts answers V id since ro) (hro : t.before.raft.readOnly = ro) :
    Kept (ts ++ [t]) answers V id since ro := by
  constructor
  · exact h.order
  · exact h.queued
  · intro k st hst
    obtain ⟨hmem, hrec⟩ := h.recorded k st hst
    exact ⟨hmem, hrec.snoc (hro ▸ ReadOnly.waits_of_lookup hst)⟩

/-- Nothing is queued where nothing waits. -/
theorem queue_eq_nil (h : Kept ts answers V id since ro) (hnone : ro.pendingReadIndex.keys = []) :
    ro.readIndexQueue = [] := by
  rw [List.eq_nil_iff_forall_not_mem]
  intro k hk
  have hmem : k ∈ ro.pendingReadIndex.keys := AList.mem_keys.mp (AList.lookup_isSome.mp (h.queued k hk))
  rw [hnone] at hmem
  exact List.not_mem_nil hmem

/-- The reads before another one in the queue arrived before it. -/
theorem lt (h : Kept ts answers V id since ro) {q₁ q₂ : List Bytes} {k : Bytes}
    (hq : ro.readIndexQueue = q₁ ++ ctx :: q₂) (hk : k ∈ q₁ ++ [ctx]) : k = ctx ∨ since k < since ctx := by
  have horder := h.order
  rw [hq, List.pairwise_append] at horder
  obtain hk | hk := List.mem_append.mp hk
  · exact Or.inr (horder.2.2 k hk ctx List.mem_cons_self)
  · exact Or.inl (List.mem_singleton.mp hk)

/-- The status of a read that waits is replaced. -/
theorem put (h : Kept ts answers V id since ro) (hmem : ctx ∈ ro.readIndexQueue)
    (hrec : Recorded ts answers V id (since ctx) ctx st) :
    Kept ts answers V id since (ro.put ctx st) := by
  have hlook : ∀ k, (ro.put ctx st).pendingReadIndex.lookup k =
      if k = ctx then some st else ro.pendingReadIndex.lookup k := fun k =>
    AList.lookup_insert_eq _ _ _ _
  constructor
  · exact h.order
  · intro k hk
    unfold ReadOnly.Waits
    rw [hlook]
    split_ifs
    · rfl
    · exact h.queued k hk
  · intro k st' hst'
    rw [hlook] at hst'
    split_ifs at hst' with hk
    · cases hst'
      rw [hk]
      exact ⟨hmem, hrec⟩
    · exact h.recorded k st' hst'

/-- A read is put off in the last step. -/
theorem ask (h : Kept (ts ++ [t]) answers V id since ro) {m : Message} {k : ℕ} (hm : message t = some m)
    (htype : m.type = .msgReadIndex) (hctx : m.readCtx = .ok ctx)
    (hnone : ro.pendingReadIndex.lookup ctx = none) (hk : t.before.raft.raftLog.committed ≤ k)
    (hfresh : ∀ a ∈ answers, a.type = .msgHeartbeatResp → a.context ≠ ctx) :
    Kept (ts ++ [t]) answers V id (Function.update since ctx ts.length) { ro with
      pendingReadIndex := ro.pendingReadIndex.insert ctx { req := m, index := k }
      readIndexQueue := ro.readIndexQueue ++ [ctx] } := by
  have hnew : ∀ k, ro.Waits k → k ≠ ctx := by
    rintro k hw rfl
    obtain ⟨st, hst⟩ := hw.status
    rw [hnone] at hst
    cases hst
  have hlook : ∀ k', (ro.pendingReadIndex.insert ctx ({ req := m, index := k } : ReadIndexStatus)).lookup k' =
      if k' = ctx then some { req := m, index := k } else ro.pendingReadIndex.lookup k' := fun k' =>
    AList.lookup_insert_eq _ _ _ _
  have hsince : ∀ k, ro.Waits k → Function.update since ctx ts.length k = since k := fun k hw =>
    Function.update_of_ne (hnew k hw) _ _
  -- The step in which another read arrived is an earlier one.
  have hearlier : ∀ k, ro.Waits k → since k < ts.length := by
    intro k hw
    obtain ⟨st, hst⟩ := hw.status
    obtain ⟨u, hu, ⟨m', hm', -, hctx'⟩, -⟩ := (h.recorded k st hst).2.asked
    obtain hu | ⟨-, rfl⟩ := getElem?_snoc_cases hu
    · exact (List.getElem?_eq_some_iff.mp hu).1
    · rw [hm] at hm'
      cases hm'
      rw [hctx] at hctx'
      cases hctx'
      exact absurd rfl (hnew ctx hw)
  constructor
  · rw [List.pairwise_append]
    refine ⟨h.order.imp_of_mem fun hk hk' hlt => ?_, List.pairwise_singleton _ _, fun k hk k' hk' => ?_⟩
    · rwa [hsince _ (h.queued _ hk), hsince _ (h.queued _ hk')]
    · rw [List.mem_singleton] at hk'
      rw [hk', Function.update_self, hsince k (h.queued k hk)]
      exact hearlier k (h.queued k hk)
  · intro k' hk'
    unfold ReadOnly.Waits
    rw [hlook]
    split_ifs with heq
    · rfl
    · obtain hk' | hk' := List.mem_append.mp hk'
      · exact h.queued k' hk'
      · exact absurd (List.mem_singleton.mp hk') heq
  · intro k' st hst
    rw [hlook] at hst
    split_ifs at hst with heq
    · cases hst
      subst heq
      refine ⟨List.mem_append_right _ List.mem_cons_self, ?_⟩
      rw [Function.update_self]
      constructor
      · exact hctx
      · exact ⟨t, List.getElem?_concat_length, ⟨m, hm, htype, hctx⟩, hk⟩
      · intro j u hlt hu
        have hj := (List.getElem?_eq_some_iff.mp hu).1
        rw [List.length_append, List.length_singleton] at hj
        omega
      · exact nofun
      · exact fun a ha htype' hctx' => absurd hctx' (hfresh a ha htype')
    · obtain ⟨hmem, hrec⟩ := h.recorded k' st hst
      rw [hsince k' (ReadOnly.waits_of_lookup hst)]
      exact ⟨List.mem_append_left _ hmem, hrec⟩

/-- The reads up to one of them leave. -/
theorem advance (h : Kept ts answers V id since ro) {ro' : ReadOnly} {q₁ q₂ : List Bytes}
    (hq : ro.readIndexQueue = q₁ ++ ctx :: q₂) (hq' : ro'.readIndexQueue = q₂)
    (hlook : ∀ k, ro'.pendingReadIndex.lookup k =
      if k ∈ q₁ ++ [ctx] then none else ro.pendingReadIndex.lookup k) :
    Kept ts answers V id since ro' := by
  have horder := h.order
  rw [hq, List.append_cons, List.pairwise_append] at horder
  constructor
  · rw [hq']
    exact horder.2.1
  · intro k hk
    rw [hq'] at hk
    have hnot : k ∉ q₁ ++ [ctx] := fun hmem => lt_irrefl _ (horder.2.2 k hmem k hk)
    unfold ReadOnly.Waits
    rw [hlook, if_neg hnot]
    refine h.queued k ?_
    rw [hq]
    exact List.mem_append_right _ (List.mem_cons_of_mem _ hk)
  · intro k st hst
    rw [hlook] at hst
    split_ifs at hst with hnot
    obtain ⟨hmem, hrec⟩ := h.recorded k st hst
    rw [hq, List.append_cons] at hmem
    rw [hq']
    exact ⟨(List.mem_append.mp hmem).resolve_left hnot, hrec⟩

end Kept

/-! ## A step of the leader -/

/-- A read that is recorded, and was put off no later than one that a majority has acknowledged, is
confirmed. -/
theorem Recorded.confirmed {x : ReadState} {ctx' : Bytes} {st' : ReadIndexStatus}
    (h : Recorded (ts ++ [t]) answers t.before.raft.voters t.before.raft.id (since ctx) ctx st)
    (hlt : ctx = ctx' ∨ since ctx < since ctx')
    (h' : Recorded (ts ++ [t]) answers t.before.raft.voters t.before.raft.id (since ctx') ctx' st')
    (hvoter : t.before.raft.id ∈ t.before.raft.voters)
    (hquorum : t.before.raft.quorum ≤ st'.acks.card + 1) (hanswer : ∀ m, t.event ≠ .answer m)
    (hx : x.requestCtx = ctx) (hindex : x.index = st.index) :
    Confirmed (ts ++ [t]) ts.length t x := by
  subst hx
  obtain ⟨u, hu, hasks, hcommitted⟩ := h.asked
  have hi : since x.requestCtx ≤ ts.length := by
    have hlast := (List.getElem?_eq_some_iff.mp hu).1
    rw [List.length_append, List.length_singleton] at hlast
    omega
  refine ⟨_, u, hi, hu, hasks, hindex ▸ hcommitted, fun j w hij _ hw => h.waits j w hij hw, ?_⟩
  have hnot : t.before.raft.id ∉ st'.acks := fun hmem => (h'.acks _ hmem).1.2 rfl
  refine Consensus.majority_isQuorum (S := insert t.before.raft.id st'.acks) ?_ ?_ ?_
  · refine Finset.insert_subset hvoter fun y hy => (h'.acks y hy).1.1
  · rw [Finset.card_insert_of_notMem hnot]
    have hq := t.before.raft.quorum_eq
    omega
  · intro y hy
    obtain rfl | hy := Finset.mem_insert.mp hy
    · exact Or.inl rfl
    · obtain ⟨m, hm, htype, hfrom, hctx⟩ := (h'.acks y hy).2
      obtain ⟨j, w, hj, hw, hev⟩ := h'.fresh m hm htype hctx
      obtain ⟨v, hv, hasks', -⟩ := h'.asked
      have hw' : ts[j]? = some w := (getElem?_snoc_cases hw).resolve_right fun hlast =>
        hanswer m (hlast.2 ▸ hev)
      have hjn := (List.getElem?_eq_some_iff.mp hw').1
      obtain rfl | hlt := hlt
      · exact Or.inr ⟨j, w, _, hj, hjn, hw, ⟨m, hev, htype, hfrom, hctx⟩, Or.inl rfl⟩
      · exact Or.inr ⟨j, w, ctx', hlt.trans hj, hjn, hw, ⟨m, hev, htype, hfrom, hctx⟩,
          Or.inr ⟨_, v, hlt, hj, hv, hasks'⟩⟩

/-- What holds while the leader acts. -/
structure During (ts : List (Turn Reading ReadingEvent)) (t : Turn Reading ReadingEvent) (r : Raft) :
    Prop where
  /-- The identity. -/
  id : r.id = t.before.raft.id
  /-- The voters. -/
  voters : r.voters = t.before.raft.voters
  /-- The mode. -/
  safe : r.readOnly.option = .safe
  /-- The commit index does not move back. -/
  committed : t.before.raft.raftLog.committed ≤ r.raftLog.committed
  /-- The reads that wait. -/
  kept : ∃ since, Kept (ts ++ [t]) t.before.answers t.before.raft.voters t.before.raft.id since r.readOnly
  /-- What was released is confirmed. -/
  released : Raft.Releases (Confirmed (ts ++ [t]) ts.length t) t.before.raft r
  /-- A read that arrives ends no waiting. -/
  asks : ∀ m, message t = some m → m.type = .msgReadIndex →
    ∀ k, t.before.raft.readOnly.Waits k → r.readOnly.Waits k
  /-- An answer lets no read wait. -/
  answers : ∀ m, message t = some m → m.type = .msgHeartbeatResp →
    ∀ k, r.readOnly.Waits k → t.before.raft.readOnly.Waits k

namespace During

variable {c : Cause} {r r' : Raft}

/-- A move of the leader. -/
theorem move (h : During ts t r) {e : HostEvent} (he : t.event = .act e) (hcause : e.cause = some c)
    (hgenuine : Genuine t) (hvoters : ByVoters t) (hm : LeaderMove c t.before.raft r r') :
    During ts t r' := by
  have hmessage : ∀ m, c = .step m → message t = some m := fun m hc => by
    unfold message
    rw [he]
    exact HostEvent.message_of_cause (hc ▸ hcause)
  have hid := hm.members.1.trans h.id
  have hV := hm.members.2.trans h.voters
  have hcommitted := h.committed.trans (LeaderMove.committed_le hm)
  obtain ⟨since, hkept⟩ := h.kept
  cases hm.reads with
  | quiet hreads hrel =>
    constructor
    · exact hid
    · exact hV
    · rw [hreads]
      exact h.safe
    · exact hcommitted
    · rw [hreads]
      exact ⟨since, hkept⟩
    · exact h.released.trans (hrel.mono fun x hx => hx.elim)
    · rw [hreads]
      exact h.asks
    · rw [hreads]
      exact h.answers
  | serve m hc htype hnow hserve =>
    have hsmall : r.quorum ≤ 1 := hnow.resolve_right fun hlease => by
      rw [h.safe] at hlease
      cases hlease
    obtain ⟨hrel, hreads⟩ := Raft.releases_serve hsmall r' hserve
    constructor
    · exact hid
    · exact hV
    · rw [hreads]
      exact h.safe
    · exact hcommitted
    · rw [hreads]
      exact ⟨since, hkept⟩
    · refine h.released.trans (hrel.mono fun x hx => ?_)
      -- The node alone is a majority.
      refine ⟨ts.length, t, le_refl _, List.getElem?_concat_length, ⟨m, hmessage m hc, htype, hx.2⟩, ?_,
        fun j w hlt hle _ => absurd hle (not_le.mpr hlt), ?_⟩
      · rw [hx.1]
        exact h.committed
      · refine Consensus.majority_isQuorum (S := {t.before.raft.id})
          (Finset.singleton_subset_iff.mpr hvoters.1) ?_ fun y hy => Or.inl (Finset.mem_singleton.mp hy)
        have hq := r.quorum_eq
        rw [h.voters] at hq
        rw [Finset.card_singleton]
        omega
    · rw [hreads]
      exact h.asks
    · rw [hreads]
      exact h.answers
  | ask m ro hc htype hadd =>
    obtain ⟨ctx, hctx, ⟨-, rfl⟩ | ⟨hnone, rfl⟩⟩ := ReadOnly.addRequest_spec ro hadd
    · exact h
    · have hlook : ∀ k, (r.readOnly.pendingReadIndex.insert ctx
          ({ req := m, index := r.raftLog.committed } : ReadIndexStatus)).lookup k =
          if k = ctx then some { req := m, index := r.raftLog.committed }
          else r.readOnly.pendingReadIndex.lookup k := fun k => AList.lookup_insert_eq _ _ _ _
      -- No answer that was sent before carries the context, since no read of it has waited.
      have hfresh : ∀ a ∈ t.before.answers, a.type = .msgHeartbeatResp → a.context ≠ ctx := by
        rintro a ha htype' rfl
        have hw := (hvoters.2 m (hmessage m hc)).2 htype a ha htype' hctx
        obtain ⟨st, hst⟩ := (h.asks m (hmessage m hc) htype _ hw).status
        rw [hnone] at hst
        cases hst
      constructor
      · exact hid
      · exact hV
      · exact h.safe
      · exact hcommitted
      · exact ⟨_, hkept.ask (hmessage m hc) htype hctx hnone h.committed hfresh⟩
      · exact h.released.trans (.of_eq rfl rfl)
      · intro m' hm' htype' k hk
        unfold ReadOnly.Waits
        rw [hlook]
        split_ifs
        · rfl
        · exact h.asks m' hm' htype' k hk
      · intro m' hm' htype'
        rw [hmessage m hc] at hm'
        cases hm'
        rw [htype] at htype'
        cases htype'
  | confirm m hc htype hack =>
    have hasks : ∀ m', message t = some m' → m'.type = .msgReadIndex → False := by
      intro m' hm' htype'
      rw [hmessage m hc] at hm'
      cases hm'
      rw [htype] at htype'
      cases htype'
    -- What the answer adds to what is recorded.
    have hacked : ∀ st, r.readOnly.pendingReadIndex.lookup m.context = some st →
        m.context ∈ r.readOnly.readIndexQueue ∧
        Kept (ts ++ [t]) t.before.answers t.before.raft.voters t.before.raft.id since
          (r.readOnly.put m.context (st.ackedBy m.fromId)) := by
      intro st hst
      obtain ⟨hmem, hrec⟩ := hkept.recorded _ st hst
      have hw := h.answers m (hmessage m hc) htype _ (ReadOnly.waits_of_lookup hst)
      have hvoter := (hvoters.2 m (hmessage m hc)).1 htype hw
      refine ⟨hmem, hkept.put hmem ⟨hrec.readCtx, hrec.asked, hrec.waits, fun y hy => ?_, hrec.fresh⟩⟩
      obtain rfl | hy := Finset.mem_insert.mp hy
      · exact ⟨hvoter, m, hgenuine.1 m (hmessage m hc) htype, htype, rfl, rfl⟩
      · exact hrec.acks y hy
    have hwaits : ∀ st, r.readOnly.pendingReadIndex.lookup m.context = some st →
        ∀ k, (r.readOnly.put m.context (st.ackedBy m.fromId)).Waits k → r.readOnly.Waits k := by
      intro st hst k hk
      unfold ReadOnly.Waits ReadOnly.put at hk
      rw [AList.lookup_insert_eq] at hk
      split_ifs at hk with heq
      · exact heq ▸ ReadOnly.waits_of_lookup hst
      · exact hk
    cases hack with
    | stray _ => exact h
    | counted st hne hst =>
      obtain ⟨hmem, hput⟩ := hacked st hst
      constructor
      · exact hid
      · exact hV
      · exact h.safe
      · exact hcommitted
      · exact ⟨since, hput⟩
      · exact h.released.trans (.of_eq rfl rfl)
      · exact fun m' hm' htype' => (hasks m' hm' htype').elim
      · exact fun m' hm' htype' k hk => h.answers m' hm' htype' k (hwaits st hst k hk)
    | released st rss hne hst hquorum hadv hrel =>
      obtain ⟨hmem, hput⟩ := hacked st hst
      have hself : (r.readOnly.put m.context (st.ackedBy m.fromId)).pendingReadIndex.lookup m.context =
          some (st.ackedBy m.fromId) := AList.lookup_insert _
      obtain ⟨q₁, q₂, hq, hq', hopt, hall, hlook⟩ := ReadOnly.advance_spec
        (fun k st' hst' => (hput.recorded k st' hst').2.readCtx) hmem _ hadv
      have hwaits' : ∀ k, r'.readOnly.Waits k → r.readOnly.Waits k := by
        intro k hk
        unfold ReadOnly.Waits at hk
        rw [hlook] at hk
        split_ifs at hk
        · cases hk
        · exact hwaits st hst k hk
      constructor
      · exact hid
      · exact hV
      · exact hopt.trans h.safe
      · exact hcommitted
      · exact ⟨since, hput.advance hq hq' hlook⟩
      · refine h.released.trans (hrel.mono fun x hx => ?_)
        obtain ⟨rs, hrs, hindex, hctx⟩ := hx
        have hsome := List.mem_map_of_mem (f := some) hrs
        rw [← hall] at hsome
        obtain ⟨k, hk, hkrs⟩ := List.mem_map.mp hsome
        have hrec := (hput.recorded k rs hkrs).2
        have hxk : x.requestCtx = k := by
          rw [hrec.readCtx] at hctx
          cases hctx
          rfl
        have hq₀ : t.before.raft.quorum = r.quorum := by
          rw [t.before.raft.quorum_eq, r.quorum_eq, h.voters]
        exact hrec.confirmed (hput.lt hq hk) (hput.recorded _ _ hself).2 hvoters.1 (hq₀ ▸ hquorum)
          (fun m' hm' => by rw [he] at hm'; cases hm') hxk hindex
      · exact fun m' hm' htype' => (hasks m' hm' htype').elim
      · exact fun m' hm' htype' k hk => h.answers m' hm' htype' k (hwaits' k hk)

/-- Moves of the leader. -/
theorem course (h : During ts t r) {e : HostEvent} (he : t.event = .act e) (hcause : e.cause = some c)
    (hgenuine : Genuine t) (hvoters : ByVoters t) (hm : LeaderCourse c t.before.raft r r') :
    During ts t r' := by
  induction hm with
  | refl => exact h
  | tail _ hmove ih => exact ih.move he hcause hgenuine hvoters hmove

end During

/-! ## Runs -/

/-- What holds in a run of a leader. -/
structure Standing (term : ℕ) (us : List (Turn Reading ReadingEvent)) (s : Reading) : Prop where
  /-- The node leads. -/
  leads : s.host.LeadsTerm term
  /-- The mode. -/
  safe : s.raft.readOnly.option = .safe
  /-- The reads that wait. -/
  kept : ∃ since, Kept us s.answers s.raft.voters s.raft.id since s.raft.readOnly
  /-- The reads that were released. -/
  confirmed : ∀ n t, us[n]? = some t → ∀ x ∈ released t, Confirmed us n t x

/-- A read that is confirmed stays so. -/
theorem Confirmed.snoc {n : ℕ} {u : Turn Reading ReadingEvent} {x : ReadState} (hn : n < ts.length)
    (h : Confirmed ts n u x) : Confirmed (ts ++ [t]) n u x := by
  obtain ⟨i, v, hi, hv, hasks, hindex, hwaits, S, hSV, hcard, hS⟩ := h
  refine ⟨i, v, hi, getElem?_snoc hv, hasks, hindex, fun j w hij hjn hw => ?_, S, hSV, hcard,
    fun y hy => ?_⟩
  · rw [List.getElem?_append_left (hjn.trans_lt hn)] at hw
    exact hwaits j w hij hjn hw
  · obtain rfl | ⟨j, w, ctx', hij, hjn, hw, hanswers, hlater⟩ := hS y hy
    · exact Or.inl rfl
    · refine Or.inr ⟨j, w, ctx', hij, hjn, getElem?_snoc hw, hanswers, hlater.imp_right ?_⟩
      rintro ⟨k, v', hik, hkj, hv', hasks'⟩
      exact ⟨k, v', hik, hkj, getElem?_snoc hv', hasks'⟩

/-- The node sends no answer itself, so that what is sent is a later step. -/
theorem Kept.answer (h : Kept ts answers V id since ro) {m : Message} (ht : t.event = .answer m)
    (hro : t.before.raft.readOnly = ro) : Kept (ts ++ [t]) (answers ++ [m]) V id since ro := by
  have hsnoc := h.snoc (t := t) hro
  constructor
  · exact hsnoc.order
  · exact hsnoc.queued
  · intro k st hst
    obtain ⟨hmem, hrec⟩ := hsnoc.recorded k st hst
    refine ⟨hmem, hrec.readCtx, hrec.asked, hrec.waits, fun y hy => ?_, fun m' hm' htype hctx => ?_⟩
    · obtain ⟨hvoter, m', hm', hack⟩ := hrec.acks y hy
      exact ⟨hvoter, m', List.mem_append_left _ hm', hack⟩
    · obtain hm' | hm' := List.mem_append.mp hm'
      · exact hrec.fresh m' hm' htype hctx
      · rw [List.mem_singleton] at hm'
        obtain ⟨u, hu, -⟩ := (h.recorded k st hst).2.asked
        exact ⟨ts.length, t, (List.getElem?_eq_some_iff.mp hu).1, List.getElem?_concat_length, hm' ▸ ht⟩

namespace Standing

variable {term : ℕ} {us : List (Turn Reading ReadingEvent)} {s s' : Reading}

/-- The state after one more step, whose reads are confirmed. -/
theorem snoc (h : Standing term us t.before) (hleads : t.after.host.LeadsTerm term)
    (hsafe : t.after.raft.readOnly.option = .safe)
    (hkept : ∃ since, Kept (us ++ [t]) t.after.answers t.after.raft.voters t.after.raft.id since
      t.after.raft.readOnly)
    (hconfirmed : ∀ x ∈ released t, Confirmed (us ++ [t]) us.length t x) :
    Standing term (us ++ [t]) t.after := by
  refine ⟨hleads, hsafe, hkept, fun n u hu x hx => ?_⟩
  obtain hu | ⟨rfl, rfl⟩ := getElem?_snoc_cases hu
  · exact (h.confirmed n u hu x hx).snoc (List.getElem?_eq_some_iff.mp hu).1
  · exact hconfirmed x hx

/-- A step of the leader. -/
theorem handle (h : Standing term us t.before) (hh : t.before.handle t.event = .ok t.after)
    (hleads : t.after.host.LeadsTerm term) (hgenuine : Genuine t) (hvoters : ByVoters t) :
    Standing term (us ++ [t]) t.after := by
  obtain ⟨since, hkept⟩ := h.kept
  cases he : t.event with
  | answer m =>
    rw [he] at hh
    have hafter : t.after = { t.before with answers := t.before.answers ++ [m] } :=
      (Except.ok.inj hh).symm
    have hraft : t.after.raft = t.before.raft := by rw [hafter]; rfl
    apply h.snoc hleads
    · rw [hraft]
      exact h.safe
    · rw [hraft, hafter]
      exact ⟨since, hkept.answer he rfl⟩
    · intro x hx
      unfold released at hx
      rw [hraft, Raft.released_eq_nil (Or.inl rfl) (Or.inl rfl)] at hx
      cases hx
  | act e =>
    rw [he] at hh
    obtain ⟨h', hh', hafter⟩ := bind_eq_ok.mp hh
    have hafter : t.after = { t.before with host := h' } := (Except.ok.inj hafter).symm
    have hanswers : t.after.answers = t.before.answers := by rw [hafter]
    have hnode : t.after.raft = h'.node.raft := by rw [hafter]; rfl
    have hl' : h'.LeadsTerm term := by
      rw [hafter] at hleads
      exact hleads
    -- Where the reads stay as they are, the next step finds them so.
    have hsame : h'.node.raft.readOnly = t.before.raft.readOnly →
        (∃ since, Kept (us ++ [t]) t.before.answers h'.node.raft.voters h'.node.raft.id since
          t.before.raft.readOnly) →
        t.before.raft.released h'.node.raft = [] → Standing term (us ++ [t]) t.after := by
      intro hreads hkept' hnone
      apply h.snoc hleads
      · rw [hnode, hreads]
        exact h.safe
      · rw [hanswers, hnode, hreads]
        exact hkept'
      · intro x hx
        unfold released at hx
        rw [hnode, hnone] at hx
        cases hx
    cases hc : e.cause with
    | none =>
      obtain ⟨hreads, hid, hV, hnone⟩ := (Host.handled hh').reads hc
      exact hsame hreads ⟨since, hid ▸ hV ▸ hkept.snoc rfl⟩ hnone
    | some c =>
      by_cases hconf : c = .confChange
      · -- No read waits while the membership changes.
        subst hconf
        obtain ⟨hreads, hnone⟩ := Host.reads_confChange hc hh'
        have hkeys := hgenuine.2 (by unfold cause; rw [he]; exact hc)
        refine hsame hreads ⟨since, ?_, ?_, fun k st hst => ?_⟩ hnone
        · exact hkept.order
        · exact hkept.queued
        · have hk : k ∈ t.before.raft.readOnly.pendingReadIndex.keys :=
            AList.mem_keys.mp (AList.lookup_isSome.mp (ReadOnly.waits_of_lookup hst))
          rw [hkeys] at hk
          cases hk
      · have hcourse := Host.leads_handle hc hconf hh' h.leads.1 hl'.1 (hl'.2.trans h.leads.2.symm)
        have hstart : During us t t.before.raft := by
          constructor
          · rfl
          · rfl
          · exact h.safe
          · exact le_refl _
          · exact ⟨since, hkept.snoc rfl⟩
          · exact .of_eq rfl rfl
          · exact fun _ _ _ _ hk => hk
          · exact fun _ _ _ _ hk => hk
        have hduring := hstart.course he hc hgenuine hvoters hcourse
        apply h.snoc hleads
        · rw [hnode]
          exact hduring.safe
        · rw [hanswers, hnode, hduring.voters, hduring.id]
          exact hduring.kept
        · intro x hx
          unfold released at hx
          rw [hnode] at hx
          exact hduring.released.of_mem hx

end Standing

/-- Where there is more than one voter, one of them has answered before a read is confirmed. -/
theorem Confirmed.exists_answer {n : ℕ} {x : ReadState} (h : Confirmed ts n t x)
    (hvoters : 1 < t.before.raft.voters.card) :
    ∃ u ∈ ts, ∃ y ∈ t.before.raft.voters, ∃ ctx, Answers u y ctx := by
  obtain ⟨i, -, -, -, -, -, -, S, hSV, hcard, hS⟩ := h
  have htwo : 1 < S.card := by omega
  obtain ⟨y, hy, hne⟩ := Finset.exists_mem_ne htwo t.before.raft.id
  obtain ⟨j, u, ctx, -, -, hu, hanswers, -⟩ := (hS y hy).resolve_left hne
  exact ⟨u, List.mem_of_getElem? hu, y, hSV hy, ctx, hanswers⟩

end Reading

/-- A read is released only after a majority has confirmed the leader: in every run of a leader in the safe
mode from its election, in which only other voters answer what a read waits for, and no context is used again
that an answer has carried, each read that is released was put off until a majority of the voters, the leader
among them, has answered a heartbeat since the read arrived, with its context or that of a later read. And its
index is no lower than the commit index at its arrival. -/
theorem reads_confirmed {h : Host} {e : HostEvent} {s₀ s : Reading} {ts : List (Turn Reading ReadingEvent)}
    (hh : h.handle e = .ok s₀.host) (helect : Host.TakesLead ⟨h, e, s₀.host⟩) (hrun : Reading.Run s₀ ts s)
    (hsafe : s₀.raft.readOnly.option = .safe)
    (hts : ∀ t ∈ ts, t.after.host.LeadsTerm s₀.raft.term ∧ Reading.Genuine t)
    (hvoters : ∀ t ∈ ts, Reading.ByVoters t) :
    ∀ n t, ts[n]? = some t → ∀ x ∈ Reading.released t, Reading.Confirmed ts n t x := by
  have hidle := Host.idle_elect hh helect
  have hstart : Reading.Standing s₀.raft.term [] s₀ := by
    refine ⟨⟨helect.1, rfl⟩, hsafe, ⟨fun _ => 0, ?_, ?_, fun k st hst => ?_⟩, fun n t ht => ?_⟩
    · rw [show s₀.raft.readOnly.readIndexQueue = [] from hidle.queue]
      exact List.Pairwise.nil
    · rw [show s₀.raft.readOnly.readIndexQueue = [] from hidle.queue]
      exact fun k hk => absurd hk List.not_mem_nil
    · rw [show s₀.raft.readOnly.pendingReadIndex.lookup k = none from hidle.lookup k] at hst
      cases hst
    · rw [List.getElem?_nil] at ht
      cases ht
  have hstep : ∀ (us : List (Turn Reading ReadingEvent)) (t : Turn Reading ReadingEvent),
      Reading.handle t.before t.event = .ok t.after →
      (t.after.host.LeadsTerm s₀.raft.term ∧ Reading.Genuine t) ∧ Reading.ByVoters t →
      Reading.Standing s₀.raft.term us t.before → Reading.Standing s₀.raft.term (us ++ [t]) t.after :=
    fun us t hh hq hus => hus.handle hh hq.1.1 hq.1.2 hq.2
  have hend : Reading.Standing s₀.raft.term ts s :=
    Trace.history hstep hrun (fun t ht => ⟨hts t ht, hvoters t ht⟩) hstart
  exact hend.confirmed

/-- Of three voters and a learner, the first voter campaigns. -/
def campaigner : Host :=
  (Host.started { voterConfig with learners := [4] }).next (.call { type := .msgHup })

/-- The second one votes for it. -/
def decidingVote : HostEvent := .step { type := .msgVoteResp, fromId := 2, toId := 1, term := 1 }

/-- The answer of a node to a heartbeat that carries the context of a read. -/
def readAnswer (y : ℕ) : Message :=
  { type := .msgHeartbeatResp, fromId := y, toId := 1, term := 1, context := [7] }

/-- The leader commits its first entry, its application asks for a read, and a node answers the heartbeat. -/
def answeredReadEvents (y : ℕ) : List ReadingEvent :=
  [.act (.step { type := .msgAppResp, fromId := 2, toId := 1, term := 1, index := 1 }),
    .act (.call { type := .msgReadIndex, fromId := 1, entries := [{ data := [7] }] }),
    .answer (readAnswer y), .act (.step (readAnswer y))]

/-- The run of the new leader through these events. -/
def answeredReadRun (y : ℕ) : List (Turn Reading ReadingEvent) × Reading :=
  Trace.run Reading.handle { host := campaigner.next decidingVote } (answeredReadEvents y)

/-- A voter has confirmed the read that is released. -/
theorem reads_confirmed_answeredReadRun :
    (answeredReadRun 2).1.flatMap Reading.released = [{ index := 1, requestCtx := [7] }] ∧
      ∀ n t, (answeredReadRun 2).1[n]? = some t →
        ∀ x ∈ Reading.released t, Reading.Confirmed (answeredReadRun 2).1 n t x := by
  have hrun : Reading.Run { host := campaigner.next decidingVote } (answeredReadRun 2).1
      (answeredReadRun 2).2 := Trace.of_run _ _ _
  have hvote : campaigner.handle decidingVote = .ok (campaigner.next decidingVote) :=
    Host.handle_next (by decide +kernel)
  exact ⟨by decide +kernel, reads_confirmed hvote (by decide +kernel) hrun (by decide +kernel)
    (by decide +kernel) (by decide +kernel)⟩

/-- The step in which the answer of the learner is delivered. -/
def learnerConfirms : Turn Reading ReadingEvent :=
  (answeredReadRun 4).1.get ⟨3, by decide +kernel⟩

/-- The answer of the learner releases the read as well, which no other voter has confirmed. -/
theorem learner_confirms :
    ¬ ∀ (c : Config) (h₀ h : Host) (us : List (Turn Host HostEvent)) (e : HostEvent) (s₀ s : Reading)
      (ts : List (Turn Reading ReadingEvent)), Host.boot c = .ok h₀ → Host.Run h₀ us h →
      h.handle e = .ok s₀.host → Host.TakesLead ⟨h, e, s₀.host⟩ → Reading.Run s₀ ts s →
      s₀.raft.readOnly.option = .safe →
      (∀ t ∈ ts, t.after.host.LeadsTerm s₀.raft.term ∧ Reading.Genuine t) →
      ∀ n t, ts[n]? = some t → ∀ x ∈ Reading.released t, Reading.Confirmed ts n t x := by
  intro hall
  have hcampaigner : Host.Run (Host.started { voterConfig with learners := [4] })
      [⟨Host.started { voterConfig with learners := [4] }, .call { type := .msgHup }, campaigner⟩]
      campaigner := .cons (Host.handle_next (by decide +kernel)) (.nil _)
  have hrun : Reading.Run { host := campaigner.next decidingVote } (answeredReadRun 4).1
      (answeredReadRun 4).2 := Trace.of_run _ _ _
  have ht : (answeredReadRun 4).1[3]? = some learnerConfirms :=
    List.getElem?_eq_getElem (by decide +kernel)
  have hconf := hall _ _ _ _ decidingVote _ _ _ (Host.boot_started (by decide +kernel)) hcampaigner
    (Host.handle_next (by decide +kernel)) (by decide +kernel) hrun (by decide +kernel)
    (by decide +kernel) 3 learnerConfirms ht { index := 1, requestCtx := [7] } (by decide +kernel)
  obtain ⟨u, hu, y, hy, ctx, m, hm, -, hfrom, -⟩ := hconf.exists_answer (by decide +kernel)
  -- The only answer is that of the learner.
  have hevents : (answeredReadRun 4).1.map Turn.event = answeredReadEvents 4 := by decide +kernel
  have hmem : .answer m ∈ answeredReadEvents 4 := by
    rw [← hevents, ← hm]
    exact List.mem_map_of_mem hu
  have hlearner : m = readAnswer 4 := by simpa [answeredReadEvents] using hmem
  have hno : (readAnswer 4).fromId ∉ learnerConfirms.before.raft.voters := by decide +kernel
  rw [← hfrom, hlearner] at hy
  exact hno hy

end RaftCpp
