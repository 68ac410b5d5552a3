import RaftCpp.Raft.Reads

/-!
# The queue of the pending reads

The contexts of the reads that wait are a queue, and a map holds the request of each. Reads enter at the
end, unless one of the same context waits, and leave from the front, up to the one that a quorum has
confirmed. When `advance` does not find the context, it returns all of the reads and leaves them where they
are.
-/

namespace RaftCpp

open Outcome

/-- A call of `ReadOnly`. -/
inductive ReadOnlyCall
  /-- `add_request`. -/
  | addRequest (index : ℕ) (m : Message)
  /-- `recv_ack`. -/
  | recvAck (m : Message)
  /-- `advance`. -/
  | advance (m : Message)
  /-- The clearing in `Raft::reset`. -/
  | clear
deriving DecidableEq

namespace ReadOnly

/-- What a call leaves. -/
def handle (ro : ReadOnly) : ReadOnlyCall → Result ReadOnly
  | .addRequest index m => ro.addRequest index m
  | .recvAck m => .ok (ro.recvAck m).2
  | .advance m => do
    let (_, ro) ← ro.advance m
    return ro
  | .clear => .ok ro.clear

/-- The sequences of calls. -/
abbrev Run : ReadOnly → List (Turn ReadOnly ReadOnlyCall) → ReadOnly → Prop := Trace handle

/-- The contexts that arrive in a call: that of a request, unless a read of the same context waits. -/
def arrived (t : Turn ReadOnly ReadOnlyCall) : List Bytes :=
  match t.event with
  | .addRequest _ m =>
    match m.readCtx with
    | .ok ctx => if t.before.Waits ctx then [] else [ctx]
    | .error _ => []
  | _ => []

/-- The contexts that leave in a call: those up to the confirmed one, or all. -/
def departed (t : Turn ReadOnly ReadOnlyCall) : List Bytes :=
  match t.event with
  | .advance m =>
    if m.context ∈ t.before.readIndexQueue then
      t.before.readIndexQueue.takeWhile (· ≠ m.context) ++ [m.context]
    else []
  | .clear => t.before.readIndexQueue
  | _ => []

variable {ro ro' : ReadOnly} {m : Message} {ctx : Bytes} {q : List Bytes}

/-- The queue lists the keys of the map, each with a request of its context. -/
structure Queued (ro : ReadOnly) : Prop where
  /-- No context is listed twice. -/
  nodup : ro.readIndexQueue.Nodup
  /-- The keys are listed, and nothing else. -/
  keys : ∀ k, k ∈ ro.readIndexQueue ↔ k ∈ ro.pendingReadIndex.keys
  /-- A request has its key as context. -/
  readCtx : ∀ k st, ro.pendingReadIndex.lookup k = some st → st.req.readCtx = .ok k

/-- Where no read waits, the queue is empty. -/
theorem Idle.queued (h : ro.Idle) : ro.Queued := by
  constructor
  · rw [h.queue]
    exact List.nodup_nil
  · intro k
    rw [h.queue, h.keys]
  · intro k st hst
    rw [h.lookup] at hst
    cases hst

/-- What is listed waits. -/
theorem Queued.waits (h : ro.Queued) (hk : ctx ∈ ro.readIndexQueue) : ro.Waits ctx :=
  AList.lookup_isSome.mpr (AList.mem_keys.mpr ((h.keys ctx).mp hk))

/-- What does not wait is not listed. -/
theorem Queued.not_mem (h : ro.Queued) (hnone : ro.pendingReadIndex.lookup ctx = none) :
    ctx ∉ ro.readIndexQueue := by
  rw [h.keys, ← AList.mem_keys]
  exact AList.lookup_eq_none.mp hnone

/-! ## Every call -/

/-- The loop of `advance` does not fail on reads that wait, and past them all it has not found the context. -/
theorem advanceLoop_ok (ctx : Bytes) (hq : ∀ k ∈ q, ro.Waits k) : ∃ found rss,
    ro.advanceLoop ctx q = .ok (found, rss) ∧ (∀ rs ∈ rss, ∃ k, ro.pendingReadIndex.lookup k = some rs) ∧
      (ctx ∈ q → found = true) ∧ (ctx ∉ q → found = false ∧ rss.length = q.length) := by
  induction q with
  | nil => exact ⟨false, [], rfl, nofun, fun h => absurd h List.not_mem_nil, fun _ => ⟨rfl, rfl⟩⟩
  | cons k q ih =>
    obtain ⟨found, rss, hloop, hlook, hmem, hnot⟩ := ih fun k' hk' => hq k' (List.mem_cons_of_mem _ hk')
    obtain ⟨st, hst⟩ := (hq k List.mem_cons_self).status
    have hlook' : ∀ rs ∈ st :: rss, ∃ k, ro.pendingReadIndex.lookup k = some rs := by
      intro rs hrs
      obtain rfl | hrs := List.mem_cons.mp hrs
      · exact ⟨k, hst⟩
      · exact hlook rs hrs
    unfold advanceLoop
    rw [hst]
    dsimp only
    by_cases heq : k = ctx
    · rw [if_pos heq]
      refine ⟨true, [st], rfl, fun rs hrs => ?_, fun _ => rfl, fun hno => absurd (heq ▸ List.mem_cons_self) hno⟩
      obtain rfl := List.mem_singleton.mp hrs
      exact ⟨k, hst⟩
    · rw [if_neg heq, hloop]
      refine ⟨found, st :: rss, rfl, hlook', fun h => hmem (List.mem_of_ne_of_mem (Ne.symm heq) h), fun h => ?_⟩
      obtain ⟨hfound, hlen⟩ := hnot fun h' => h (List.mem_cons_of_mem _ h')
      exact ⟨hfound, by rw [List.length_cons, List.length_cons, hlen]⟩

/-- The loop over the reads that leave the map does not fail. -/
theorem erase_ok {rss : List ReadIndexStatus} (h : ∀ rs ∈ rss, ∃ k, rs.req.readCtx = .ok k)
    (pending : AList fun _ : Bytes => ReadIndexStatus) : ∃ pending',
      rss.foldlM (fun pending rs => do
        let ctx ← rs.req.readCtx
        return pending.erase ctx) pending = (.ok pending' : Result _) := by
  induction rss generalizing pending with
  | nil => exact ⟨pending, rfl⟩
  | cons rs rss ih =>
    obtain ⟨k, hk⟩ := h rs List.mem_cons_self
    rw [List.foldlM_cons, hk]
    exact ih (fun rs' hrs' => h rs' (List.mem_cons_of_mem _ hrs')) (pending.erase k)

/-- `advance` on a context that is not listed returns as many reads as are listed, and changes nothing. -/
theorem Queued.advance_missing (h : ro.Queued) (hnot : m.context ∉ ro.readIndexQueue) : ∃ rss,
    ro.advance m = .ok (rss, ro) ∧ rss.length = ro.readIndexQueue.length := by
  obtain ⟨found, rss, hloop, -, -, hmissing⟩ := advanceLoop_ok m.context fun k hk => h.waits hk
  obtain ⟨rfl, hlen⟩ := hmissing hnot
  unfold ReadOnly.advance
  rw [hloop]
  exact ⟨rss, rfl, hlen⟩

/-- `advance` does not fail. -/
theorem Queued.advance_ok (h : ro.Queued) (m : Message) : ∃ p, ro.advance m = .ok p := by
  by_cases hmem : m.context ∈ ro.readIndexQueue
  · obtain ⟨found, rss, hloop, hlook, hfound, -⟩ :=
      advanceLoop_ok m.context fun k hk => h.waits hk
    obtain rfl := hfound hmem
    have hctx : ∀ rs ∈ rss, ∃ k, rs.req.readCtx = .ok k := by
      intro rs hrs
      obtain ⟨k, hk⟩ := hlook rs hrs
      exact ⟨k, h.readCtx k rs hk⟩
    obtain ⟨pending, hpending⟩ := erase_ok hctx ro.pendingReadIndex
    have hadv : ro.advance m = .ok (rss, { ro with
        readIndexQueue := ro.readIndexQueue.drop rss.length, pendingReadIndex := pending }) := by
      unfold ReadOnly.advance
      refine bind_eq_ok.mpr ⟨(true, rss), hloop, ?_⟩
      exact bind_eq_ok.mpr ⟨pending, hpending, rfl⟩
    exact ⟨_, hadv⟩
  · obtain ⟨rss, hadv, -⟩ := h.advance_missing hmem
    exact ⟨_, hadv⟩

/-- What `advance` does on a context that is listed: the reads up to it are returned in their order, and
leave. -/
structure Advanced (ro : ReadOnly) (ctx : Bytes) (rss : List ReadIndexStatus) (ro' : ReadOnly) : Prop where
  /-- The queue is cut behind the context. -/
  queue : ro.readIndexQueue.takeWhile (· ≠ ctx) ++ [ctx] ++ ro'.readIndexQueue = ro.readIndexQueue
  /-- The reads up to it are returned. -/
  returned : (ro.readIndexQueue.takeWhile (· ≠ ctx) ++ [ctx]).map ro.pendingReadIndex.lookup = rss.map some
  /-- They leave the map, and no other. -/
  lookup : ∀ k, ro'.pendingReadIndex.lookup k =
    if k ∈ ro.readIndexQueue.takeWhile (· ≠ ctx) ++ [ctx] then none else ro.pendingReadIndex.lookup k

/-- The part of a list before an element that is not in it. -/
theorem takeWhile_ne {q₁ q₂ : List Bytes} (hnot : ctx ∉ q₁) :
    (q₁ ++ ctx :: q₂).takeWhile (· ≠ ctx) = q₁ := by
  have hall : ∀ k ∈ q₁, decide (k ≠ ctx) = true := by
    intro k hk
    rw [decide_eq_true_eq]
    rintro rfl
    exact hnot hk
  rw [List.takeWhile_append_of_pos hall, List.takeWhile_cons_of_neg (by simp), List.append_nil]

/-- `advance` on a context that is listed. -/
theorem Queued.advanced (h : ro.Queued) (hmem : m.context ∈ ro.readIndexQueue) :
    Ensures (ro.advance m) fun p => ro.Advanced m.context p.1 p.2 := by
  refine (advance_spec h.readCtx hmem).mono ?_
  rintro ⟨rss, ro'⟩ ⟨q₁, q₂, hq, hq', -, hreturned, hlook⟩
  have hnodup := h.nodup
  rw [hq, List.nodup_append] at hnodup
  have htake : ro.readIndexQueue.takeWhile (· ≠ m.context) = q₁ := by
    rw [hq]
    exact takeWhile_ne fun hk => hnodup.2.2 _ hk _ List.mem_cons_self rfl
  constructor
  · dsimp only at hq' ⊢
    rw [htake, hq', hq, List.append_assoc]
    rfl
  · rw [htake]
    exact hreturned
  · rw [htake]
    exact hlook

/-- The queue stays in step with the map when its front leaves both. -/
theorem Queued.of_advanced (h : ro.Queued) {rss : List ReadIndexStatus} (ha : ro.Advanced ctx rss ro') :
    ro'.Queued := by
  have hnodup := h.nodup
  rw [← ha.queue, List.nodup_append] at hnodup
  have hleft : ∀ k st, ro'.pendingReadIndex.lookup k = some st →
      k ∉ ro.readIndexQueue.takeWhile (· ≠ ctx) ++ [ctx] ∧ ro.pendingReadIndex.lookup k = some st := by
    intro k st hst
    rw [ha.lookup] at hst
    split_ifs at hst with hk
    exact ⟨hk, hst⟩
  constructor
  · exact hnodup.2.1
  · intro k
    constructor
    · intro hk
      have hwaits := h.waits (by rw [← ha.queue]; exact List.mem_append_right _ hk)
      have hnot : k ∉ ro.readIndexQueue.takeWhile (· ≠ ctx) ++ [ctx] := fun hk' => hnodup.2.2 _ hk' _ hk rfl
      rw [← AList.mem_keys, ← AList.lookup_isSome, ha.lookup, if_neg hnot]
      exact hwaits
    · intro hk
      obtain ⟨st, hst⟩ := Option.isSome_iff_exists.mp (AList.lookup_isSome.mpr (AList.mem_keys.mpr hk))
      obtain ⟨hnot, hst⟩ := hleft k st hst
      have hmem := (h.keys k).mpr (AList.mem_keys.mp (AList.lookup_isSome.mp (waits_of_lookup hst)))
      rw [← ha.queue] at hmem
      exact (List.mem_append.mp hmem).resolve_left hnot
  · exact fun k st hst => h.readCtx k st (hleft k st hst).2

/-- Each call keeps the queue in step with the map, and moves contexts in their order. -/
theorem Queued.handle (h : ro.Queued) {e : ReadOnlyCall} (hh : ro.handle e = .ok ro') : ro'.Queued ∧
    ro.readIndexQueue ++ arrived ⟨ro, e, ro'⟩ = departed ⟨ro, e, ro'⟩ ++ ro'.readIndexQueue := by
  cases e with
  | addRequest index m =>
    obtain ⟨ctx, hctx, ⟨hwaits, rfl⟩ | ⟨hnone, rfl⟩⟩ := addRequest_spec _ hh
    · unfold arrived departed
      dsimp only
      rw [hctx]
      dsimp only
      rw [if_pos hwaits, List.append_nil]
      exact ⟨h, rfl⟩
    · have hnot : ¬ro.Waits ctx := by
        unfold Waits
        rw [hnone]
        exact nofun
      unfold arrived departed
      dsimp only
      rw [hctx]
      dsimp only
      rw [if_neg hnot]
      refine ⟨⟨?_, fun k => ?_, fun k st hst => ?_⟩, rfl⟩
      · dsimp only
        rw [List.nodup_append]
        refine ⟨h.nodup, List.nodup_singleton _, fun k hk k' hk' heq => ?_⟩
        obtain rfl := List.mem_singleton.mp hk'
        subst heq
        exact h.not_mem hnone hk
      · dsimp only
        rw [List.mem_append, List.mem_singleton, h.keys, ← AList.mem_keys, ← AList.mem_keys, AList.mem_insert]
        exact or_comm
      · dsimp only at hst
        by_cases heq : k = ctx
        · subst heq
          rw [AList.lookup_insert] at hst
          cases hst
          exact hctx
        · rw [AList.lookup_insert_ne heq] at hst
          exact h.readCtx k st hst
  | recvAck m =>
    cases hh
    unfold arrived departed recvAck
    dsimp only
    rw [List.append_nil, List.nil_append]
    cases hst : ro.pendingReadIndex.lookup m.context with
    | none => exact ⟨h, rfl⟩
    | some st =>
      refine ⟨⟨h.nodup, fun k => ?_, fun k st' hst' => ?_⟩, rfl⟩
      · dsimp only
        rw [h.keys, ← AList.mem_keys, ← AList.mem_keys, AList.mem_insert]
        constructor
        · exact Or.inr
        · rintro (rfl | hk)
          · exact AList.lookup_isSome.mp (waits_of_lookup hst)
          · exact hk
      · dsimp only at hst'
        by_cases heq : k = m.context
        · subst heq
          rw [AList.lookup_insert] at hst'
          cases hst'
          exact h.readCtx _ st hst
        · rw [AList.lookup_insert_ne heq] at hst'
          exact h.readCtx k st' hst'
  | advance m =>
    obtain ⟨⟨rss, ro₁⟩, hadv, heq⟩ := bind_eq_ok.mp hh
    cases heq
    unfold arrived departed
    dsimp only
    rw [List.append_nil]
    by_cases hmem : m.context ∈ ro.readIndexQueue
    · have ha := h.advanced hmem _ hadv
      rw [if_pos hmem]
      exact ⟨h.of_advanced ha, ha.queue.symm⟩
    · obtain ⟨rss', hadv', -⟩ := h.advance_missing hmem
      cases hadv.symm.trans hadv'
      rw [if_neg hmem]
      exact ⟨h, rfl⟩
  | clear =>
    cases hh
    exact ⟨Idle.queued ⟨rfl, rfl⟩, rfl⟩

/-! ## Sequences of calls -/

/-- What is asked of the pending reads after a sequence of calls. -/
structure QueueLaw (ts : List (Turn ReadOnly ReadOnlyCall)) (ro : ReadOnly) : Prop where
  /-- The queue lists the keys of the map, each with a request of its context. -/
  queued : ro.Queued
  /-- What arrived, in its order, is what left and what is listed. -/
  order : ts.flatMap arrived = ts.flatMap departed ++ ro.readIndexQueue
  /-- `advance` on a context that is listed. -/
  found : ∀ t ∈ ts, ∀ m rss, t.event = .advance m → t.before.advance m = .ok (rss, t.after) →
    m.context ∈ t.before.readIndexQueue → t.before.Advanced m.context rss t.after
  /-- `advance` on a context that is not listed. -/
  missing : ∀ t ∈ ts, ∀ m rss, t.event = .advance m → t.before.advance m = .ok (rss, t.after) →
    m.context ∉ t.before.readIndexQueue → rss = [] ∧ t.after = t.before
  /-- `advance` does not fail. -/
  succeeds : ∀ m, ∃ p, ro.advance m = .ok p

/-- Whether a call of `advance` finds its context, or nothing waits. -/
def Finds (t : Turn ReadOnly ReadOnlyCall) : Prop :=
  ∀ m, t.event = .advance m → m.context ∈ t.before.readIndexQueue ∨ t.before.readIndexQueue = []

end ReadOnly

/-- A read of the context. -/
def readRequest (ctx : Bytes) : Message := { type := .msgReadIndex, entries := [{ data := ctx }] }

/-- Two reads are put off, and the first is confirmed. -/
def confirmsFirst : List (Turn ReadOnly ReadOnlyCall) × ReadOnly :=
  Trace.run ReadOnly.handle { option := .safe }
    [.addRequest 1 (readRequest [1]), .addRequest 1 (readRequest [2]), .recvAck { fromId := 2, context := [1] },
      .advance { fromId := 2, context := [1] }]

/-- A read is put off, and another one is confirmed. -/
def confirmsStranger : List (Turn ReadOnly ReadOnlyCall) × ReadOnly :=
  Trace.run ReadOnly.handle { option := .safe } [.addRequest 1 (readRequest [1]), .advance { context := [2] }]

end RaftCpp
