import RaftCpp.Raft.Carried
import RaftCpp.Server.Applying
import RaftCpp.Server.Threads

/-!
# The answers to requests

A request of a client is a proposal with a number, under which the callback of the client waits. It is called
when the proposal is refused, and otherwise when the store comes to the entry of the request. A request to
delete keys does not wait that long: its callback is called as soon as the proposal is taken.
-/

namespace RaftCpp

open Outcome

/-! ## What the node passes on -/

/-- A condition holds of the data that a call passes on: in the messages, and to the store, which gets
commands among the given entries. -/
structure Call.Passes (Q : Bytes → Prop) (es : List Entry) (c : Call) : Prop where
  /-- The messages. -/
  sent : ∀ m ∈ c.sent, ∀ e ∈ m.carried, e.Carries Q
  /-- The commands. -/
  readCommit : ∀ e, c = .readCommit e → e ∈ es ∧ Q e.data

/-- A call that passes nothing on. -/
theorem Call.passes_of_silent {Q : Bytes → Prop} {es : List Entry} {c : Call} (hsent : c.sent = [])
    (hread : ∀ e, c ≠ .readCommit e) : c.Passes Q es where
  sent := by
    rw [hsent]
    exact nofun
  readCommit e he := absurd he (hread e)

namespace RaftNode

variable {F : Formats} {Q : Bytes → Prop} {n : RaftNode} {rd : Ready} {es : List Entry}

/-- A condition holds of the data that a node has, and of those that it passes on. -/
structure Passes (Q : Bytes → Prop) (es : List Entry) (n : RaftNode) : Prop where
  /-- What it has. -/
  carries : n.node.raft.Carries Q
  /-- What it passes on. -/
  calls : ∀ c ∈ n.calls, c.Passes Q es

/-- A weaker condition, and more entries. -/
theorem Passes.mono {Q' : Bytes → Prop} {es' : List Entry} (h : n.Passes Q es) (hQ : ∀ data, Q data → Q' data)
    (hes : es ⊆ es') : n.Passes Q' es' where
  carries := h.carries.mono hQ
  calls c hc := by
    obtain ⟨hsent, hread⟩ := h.calls c hc
    refine ⟨fun m hm e he => (hsent m hm e he).mono hQ, fun e he => ?_⟩
    obtain ⟨hmem, hdata⟩ := hread e he
    exact ⟨hes hmem, hQ _ hdata⟩

/-- One more call. -/
theorem Passes.of_call (h : n.Passes Q es) {n' : RaftNode} {c : Call} (hcarries : n'.node.raft.Carries Q)
    (hcalls : n'.calls = n.calls ++ [c]) (hc : c.Passes Q es) : n'.Passes Q es where
  carries := hcarries
  calls := by
    rw [hcalls]
    intro c' hc'
    obtain hc' | hc' := List.mem_append.mp hc'
    · exact h.calls c' hc'
    · obtain rfl := List.mem_singleton.mp hc'
      exact hc

/-- Another storage. -/
theorem Passes.setStorage (h : n.Passes Q es) {s : MemoryStorage} (hs : ∀ e ∈ s.entries, e.Carries Q) :
    (n.setStorage s).Passes Q es := ⟨RawNode.setStorage_carries h.carries hs, h.calls⟩

/-- A snapshot is saved. -/
theorem Passes.saveSnap (h : n.Passes Q es) (snapshot : Snapshot) : (n.saveSnap F snapshot).Passes Q es := by
  obtain ⟨snap, hsnap⟩ : ∃ snap : WALSnapshot, snap = { index := snapshot.metadata.index
                                                        term := snapshot.metadata.term } := ⟨_, rfl⟩
  have hlog : ({ n with wal := n.wal.saveSnapshot F.wal snap }.call (.saveSnapshot snap)).Passes Q es :=
    h.of_call h.carries rfl (Call.passes_of_silent rfl fun _ h => by cases h)
  refine hlog.of_call (c := .saveSnap snapshot) h.carries ?_ (Call.passes_of_silent rfl fun _ h => by cases h)
  rw [hsnap]
  rfl

/-- What is ready is persisted. -/
theorem Passes.persistReady (h : n.Passes Q es) (hentries : ∀ e ∈ rd.entries, e.Carries Q) :
    Ensures (n.persistReady F rd) (Passes Q es) := by
  have hsave : (n.save F rd.hardState rd.entries).Passes Q es :=
    h.of_call h.carries rfl (Call.passes_of_silent rfl fun _ h => by cases h)
  have happend : ∀ n' : RaftNode, n'.Passes Q es →
      Ensures (ofRaft (n'.node.storage.append rd.entries) >>= fun s => pure (n'.setStorage s))
        (Passes Q es) := by
    intro n' hn'
    refine Ensures.bind (P := fun s => ∀ e ∈ s.entries, e.Carries Q) ?_ fun s hs =>
      Ensures.pure (hn'.setStorage hs)
    exact fun s hs => MemoryStorage.append_carries hn'.carries.log.storage hentries s (ofRaft_eq_ok.mp hs)
  unfold RaftNode.persistReady
  dsimp only
  apply Ensures.ite
  · exact fun _ => happend _ hsave
  · intro _
    refine Ensures.bind (P := Passes Q es) ?_ happend
    have hsaved := hsave.saveSnap (F := F) rd.snapshot
    have hinstalled := hsaved.setStorage
      (MemoryStorage.applySnapshot_carries hsaved.carries.log.storage rd.snapshot)
    unfold publishSnapshot
    refine Ensures.ite (fun _ => Ensures.ok hinstalled) fun _ => ?_
    refine Ensures.ite (fun _ => Ensures.error) fun _ => Ensures.ok ?_
    exact hinstalled.of_call hinstalled.carries rfl (Call.passes_of_silent rfl fun _ h => by cases h)

/-- The commands of the entries are passed to the store. -/
theorem Passes.publishEntries {es' : List Entry} (h : n.Passes Q es) (hes : ∀ e ∈ es', e.Carries Q)
    (hsub : es' ⊆ es) : Ensures (n.publishEntries F es') fun p => p.2.Passes Q es := by
  induction es' generalizing n with
  | nil => exact Ensures.ok h
  | cons e es' ih =>
    have hrest : ∀ e' ∈ es', e'.Carries Q := fun e' he' => hes e' (List.mem_cons_of_mem _ he')
    have hsub' : es' ⊆ es := fun e' he' => hsub (List.mem_cons_of_mem _ he')
    have hmoved : ∀ {n : RaftNode}, n.Passes Q es → ∀ k,
        ({ n with appliedIndex := k } : RaftNode).Passes Q es :=
      fun h _ => ⟨h.carries, h.calls⟩
    unfold RaftNode.publishEntries
    cases ht : e.type with
    | entryNormal =>
      refine ih (hmoved ?_ e.index) hrest hsub'
      split_ifs with hdata
      · exact h
      · refine h.of_call h.carries rfl ⟨fun m hm => absurd hm List.not_mem_nil, ?_⟩
        rintro _ ⟨⟩
        exact ⟨hsub List.mem_cons_self, hes e List.mem_cons_self ht hdata⟩
    | entryConfChange =>
      dsimp only
      cases F.confChange.unpack e.data with
      | none => exact ih h hrest hsub'
      | some cc =>
        refine Ensures.bind (P := fun p => p.2.raft.Carries Q) ?_ ?_
        · exact fun p hp => RawNode.applyConfChange_carries h.carries cc p (ofRaft_eq_ok.mp hp)
        rintro ⟨cs, node⟩ hnode
        have hcall : ({ n with confState := cs, node := node }.call (.applyConfChange e)).Passes Q es :=
          h.of_call hnode rfl (Call.passes_of_silent rfl fun _ h => by cases h)
        exact Ensures.ite (fun _ => Ensures.ok hcall) fun _ => ih (hmoved hcall e.index) hrest hsub'
    | other code => exact Ensures.error

/-- The end of a turn. -/
theorem Passes.advance (h : n.Passes Q es) (rd : Ready) : (n.advance rd).Passes Q es :=
  ⟨RawNode.advance_carries h.carries rd, h.calls⟩

/-- A turn of the loop. -/
theorem Passes.handleReady (h : n.Passes Q rd.committedEntries) (hentries : ∀ e ∈ rd.entries, e.Carries Q)
    (hcommitted : ∀ e ∈ rd.committedEntries, e.Carries Q)
    (hmessages : ∀ m ∈ rd.messages, ∀ e ∈ m.carried, e.Carries Q) :
    Ensures (n.handleReady F rd) (Passes Q rd.committedEntries) := by
  unfold RaftNode.handleReady
  refine Ensures.bind (h.persistReady hentries) fun n₁ hn₁ => ?_
  have hsent : (if rd.messages = [] then n₁ else n₁.call (.send rd.messages)).Passes Q
      rd.committedEntries := by
    split_ifs
    · exact hn₁
    · exact hn₁.of_call hn₁.carries rfl ⟨hmessages, nofun⟩
  refine Ensures.bind (P := fun ents => ents ⊆ rd.committedEntries) ?_ fun ents hents => ?_
  · unfold entriesToApply
    split
    · exact Ensures.ok (List.nil_subset _)
    · next e es heq =>
      rw [heq]
      refine Ensures.ite (fun _ => Ensures.error) fun _ => ?_
      exact Ensures.ite (fun _ => Ensures.ok (List.drop_subset _ _)) fun _ => Ensures.ok (List.nil_subset _)
  refine Ensures.bind (hsent.publishEntries (fun e he => hcommitted e (hents he)) hents) ?_
  rintro ⟨done, n₂⟩ hn₂
  refine Ensures.pure ?_
  unfold maybeTriggerSnapshot
  split_ifs
  · exact hn₂.advance rd
  · exact hn₂.of_call hn₂.carries rfl (Call.passes_of_silent rfl fun _ h => by cases h)

/-- The node goes on with the data of the store. -/
theorem Passes.triggerSnapshot (h : n.Passes Q es) (data : Bytes) :
    Ensures (n.triggerSnapshot F data) (Passes Q es) := by
  unfold RaftNode.triggerSnapshot
  refine Ensures.bind (P := fun p => ∀ e ∈ p.2.2.entries, e.Carries Q) ?_ ?_
  · exact fun p hp => MemoryStorage.createSnapshot_carries h.carries.log.storage _ _ _ p (ofRaft_eq_ok.mp hp)
  rintro ⟨status, snap, s⟩ hs
  refine Ensures.ite (fun _ => Ensures.error) fun _ => ?_
  have hsaved := (h.setStorage hs).saveSnap (F := F) snap
  refine Ensures.bind (P := fun p => ∀ e ∈ p.2.entries, e.Carries Q) ?_ ?_
  · exact fun p hp => MemoryStorage.compact_carries hsaved.carries.log.storage _ p (ofRaft_eq_ok.mp hp)
  rintro ⟨status', s'⟩ hs'
  refine Ensures.ite (fun _ => Ensures.error) fun _ => Ensures.pure ?_
  have hcompacted := hsaved.setStorage hs'
  exact ⟨hcompacted.carries, hcompacted.calls⟩

/-- What is true of the data that a node has, and of those that it is given, is true of the data that it has
after a step, and of those that it passes on. -/
theorem handle_passes (h : n.node.raft.Carries Q) {e : RaftNodeEvent}
    (hprocess : ∀ m, e = .process m → ∀ x ∈ m.carried, x.Carries Q)
    (hpropose : ∀ data, e = .propose data →
      Ensures (ofRaft (n.node.propose data)) fun p => p.1 = .ok → Q data) :
    Ensures (n.handle F e) (Passes Q ((n.taken e).elim [] Ready.committedEntries)) := by
  have hidle : ∀ es ready, ({ n with ready := ready, calls := [] } : RaftNode).Passes Q es :=
    fun es ready => ⟨h, nofun⟩
  unfold handle
  dsimp only
  cases hr : n.ready with
  | some rd =>
    cases e with
    | snapshotData data =>
      have htaken : n.taken (.snapshotData data) = none := rfl
      rw [htaken]
      refine Ensures.bind ((hidle [] (some rd)).triggerSnapshot data) fun n' hn' => ?_
      exact Ensures.pure (hn'.advance rd)
    | tick | propose _ | process _ | pull => exact Ensures.ok (hidle _ _)
  | none =>
    cases e with
    | tick =>
      refine Ensures.bind (P := fun node => node.raft.Carries Q) ?_ fun node hnode => ?_
      · intro node hnode
        have hmoves := (RawNode.moves_tick n.node).mono fun _ h => h.1
        exact (hmoves node (ofRaft_eq_ok.mp hnode)).carries h nofun
      · exact Ensures.pure ⟨hnode, nofun⟩
    | propose data =>
      refine Ensures.bind (P := fun p => p.2.raft.Carries Q) ?_ ?_
      · rintro ⟨status, node⟩ hnode
        have hraft := ofRaft_eq_ok.mp hnode
        by_cases hok : status = .ok
        · -- The data are those of the proposal.
          have hdata := hpropose data rfl _ hnode hok
          obtain ⟨⟨status', r⟩, hstep, heq⟩ := bind_eq_ok.mp hraft
          cases heq
          refine (Raft.moves_step rfl _ hstep).carries h ?_
          rintro _ ⟨⟩ x hx
          obtain rfl := List.mem_singleton.mp hx
          exact fun _ _ => hdata
        · obtain ⟨hlog, hmsgs⟩ := RawNode.propose_refused hraft hok
          exact ⟨by rw [hlog]; exact h.log, by rw [hmsgs]; exact h.msgs⟩
      · rintro ⟨status, node⟩ hnode
        exact Ensures.pure ((hidle _ none).of_call hnode rfl (Call.passes_of_silent rfl fun _ h => by cases h))
    | process m =>
      refine Ensures.bind (P := fun p => p.2.raft.Carries Q) ?_ ?_
      · intro p hp
        have hmoves := (RawNode.moves_step n.node m).mono fun _ h => h.1
        refine (hmoves p (ofRaft_eq_ok.mp hp)).carries h ?_
        rintro _ ⟨⟩
        exact hprocess m rfl
      · rintro ⟨status, node⟩ hnode
        exact Ensures.pure ((hidle _ none).of_call hnode rfl (Call.passes_of_silent rfl fun _ h => by cases h))
    | pull =>
      unfold pullReadyEvents
      refine Ensures.ite (fun _ => Ensures.pure (hidle _ none)) fun hhas => ?_
      refine Ensures.bindEq ?_
      rintro ⟨rd, node⟩ hrd
      have hrd := ofRaft_eq_ok.mp hrd
      obtain ⟨hcarries, hentries, hcommitted, hmessages⟩ := RawNode.ready_carries h hrd
      refine Ensures.ite (fun _ => Ensures.pure ⟨hcarries, nofun⟩) fun hupdates => ?_
      have htaken : n.taken .pull = some rd := by
        unfold taken
        rw [hr, hrd]
        exact if_pos ⟨not_not.mp hhas, not_not.mp hupdates⟩
      rw [htaken]
      exact Passes.handleReady ⟨hcarries, nofun⟩ hentries hcommitted hmessages
    | snapshotData data => exact Ensures.ok ⟨h, nofun⟩

/-- What a node does with a proposal between the turns of the loop. -/
theorem handle_propose {n' : RaftNode} (hready : n.ready = none) {data : Bytes}
    (h : n.handle F (.propose data) = .ok n') : ∃ status node,
      ofRaft (n.node.propose data) = .ok (status, node) ∧ n'.calls = [.callback status] := by
  unfold handle at h
  dsimp only at h
  rw [hready] at h
  obtain ⟨⟨status, node⟩, hnode, h⟩ := bind_eq_ok.mp h
  cases h
  exact ⟨status, node, hnode, rfl⟩

end RaftNode

/-! ## The answers of the store -/

/-- The number under which a task answers a client, and the status. -/
def StoreTask.answering (F : Formats) (nodeId : ℕ) : StoreTask → Option (UInt32 × Status)
  | .readCommit e =>
    match F.commit.unpack e.data with
    | some commit => if commit.nodeId.toNat = nodeId then some (commit.commitId, .ok) else none
    | none => none
  | .setProposed commitId status => if status.isOk then none else some (commitId, status)
  | .delProposed commitId status => some (commitId, status)
  | .recoverFromSnapshot _ | .getSnapshot => none

namespace RedisStore

variable {F : Formats} {s : RedisStore} {t : StoreTask}

/-- What a task does to the callbacks that wait, and whom it answers. -/
structure Answered (s : RedisStore) (whom : Option (UInt32 × Status)) (replies : List Reply)
    (s' : RedisStore) : Prop where
  /-- The next number stays. -/
  nextRequestId : s'.nextRequestId = s.nextRequestId
  /-- Nobody else is answered. -/
  silent : ∀ commitId, (∀ p ∈ whom, p.1 ≠ commitId) →
    s'.pendingRequests.lookup commitId = s.pendingRequests.lookup commitId
  /-- Whoever is answered does not wait any longer. -/
  done : ∀ p ∈ whom, s'.pendingRequests.lookup p.1 = none
  /-- Whoever waits is answered. -/
  replies : replies = (whom.bind fun p => (s.pendingRequests.lookup p.1).map fun callback =>
    { callback := callback, status := p.2 }).toList

/-- Nobody is answered. -/
theorem Answered.none {s' : RedisStore} (hnext : s'.nextRequestId = s.nextRequestId)
    (hpending : s'.pendingRequests = s.pendingRequests) : Answered s none [] s' :=
  ⟨hnext, fun _ _ => by rw [hpending], nofun, rfl⟩

/-- `answer`. -/
theorem answered_answer (s : RedisStore) (commitId : UInt32) (status : Status) :
    Answered s (some (commitId, status)) (s.answer commitId status).1 (s.answer commitId status).2 := by
  unfold answer
  cases h : s.pendingRequests.lookup commitId with
  | none =>
    refine ⟨rfl, fun _ _ => rfl, ?_, ?_⟩
    · rintro _ ⟨⟩
      exact h
    · rw [Option.bind_some, h]
      rfl
  | some callback =>
    refine ⟨rfl, fun k hk => ?_, ?_, ?_⟩
    · exact AList.lookup_erase_ne (hk _ rfl).symm
    · rintro _ ⟨⟩
      exact AList.lookup_erase _ _
    · rw [Option.bind_some, h]
      rfl

/-- The task of a committed entry answers under the number of its command, if it is the node's own. -/
theorem readCommit_answers (nodeId : ℕ) (s : RedisStore) (e : Entry) :
    Ensures (s.readCommit F nodeId e) fun p =>
      Answered s ((StoreTask.readCommit e).answering F nodeId) p.1 p.2 := by
  unfold readCommit StoreTask.answering
  dsimp only
  cases F.commit.unpack e.data with
  | none => exact Ensures.ok (Answered.none rfl rfl)
  | some commit =>
    refine Ensures.bind Ensures.any fun kv _ => ?_
    dsimp only
    split_ifs
    · have h := answered_answer { s with keyValues := kv } commit.commitId .ok
      exact Ensures.pure ⟨h.nextRequestId, h.silent, h.done, h.replies⟩
    · exact Ensures.pure (Answered.none rfl rfl)

/-- What a store does in a task, for its clients. -/
theorem run_answers (nodeId : ℕ) (s : RedisStore) (t : StoreTask) :
    Ensures (s.run F nodeId t) fun p => Answered s (t.answering F nodeId) p.1 p.2.2 := by
  cases t with
  | readCommit e => exact Ensures.bind (readCommit_answers nodeId s e) fun p hp => Ensures.pure hp
  | recoverFromSnapshot data =>
    refine Ensures.bind (P := fun s' : RedisStore => s'.nextRequestId = s.nextRequestId ∧
      s'.pendingRequests = s.pendingRequests) ?_ fun s' hs' => Ensures.pure (Answered.none hs'.1 hs'.2)
    unfold recoverFromSnapshot
    refine Ensures.ite (fun _ => Ensures.error) fun _ => ?_
    cases F.keyValues.unpack data with
    | none => exact Ensures.error
    | some kv => exact Ensures.ok ⟨rfl, rfl⟩
  | getSnapshot => exact Ensures.ok (Answered.none rfl rfl)
  | setProposed commitId status =>
    unfold run setProposed StoreTask.answering
    dsimp only
    split_ifs
    · exact Ensures.ok (Answered.none rfl rfl)
    · exact Ensures.ok (answered_answer s commitId status)
  | delProposed commitId status => exact Ensures.ok (answered_answer s commitId status)

end RedisStore

/-! ## What was asked, taken, applied and answered -/

/-- A request of a client. -/
structure Request where
  /-- The kind. -/
  kind : RequestKind
  /-- The number. -/
  commitId : UInt32
  /-- The data of the entry. -/
  data : Bytes
  /-- The callback of the client. -/
  callback : ℕ

/-- The request as a proposal. -/
def Request.proposal (q : Request) : Proposal := { kind := q.kind, commitId := q.commitId, data := q.data }

/-- The data are a command under the number of the node. -/
def OwnCommand (F : Formats) (id : ℕ) (data : Bytes) : Prop :=
  ∃ commit ∈ F.commit.unpack data, commit.nodeId = UInt32.ofNat id

instance (F : Formats) (id : ℕ) (data : Bytes) : Decidable (OwnCommand F id data) :=
  inferInstanceAs (Decidable (∃ commit ∈ F.commit.unpack data, commit.nodeId = UInt32.ofNat id))

/-- The entry of a task, if the task is that of one. -/
def StoreTask.entry : StoreTask → Option Entry
  | .readCommit e => some e
  | _ => none

namespace Server

section Histories

variable (F : Formats) (t : Turn Server ServerEvent) (ts : List (Turn Server ServerEvent))

/-- The request that a client makes in a step. -/
def requested : Option Request :=
  match t.event with
  | .set key value callback =>
    let (commitId, data, _) := t.before.store.set F t.before.node.id key value callback
    some { kind := .set, commitId := commitId, data := data, callback := callback }
  | .del keys callback =>
    let (commitId, data, _) := t.before.store.del F t.before.node.id keys callback
    some { kind := .del, commitId := commitId, data := data, callback := callback }
  | _ => none

/-- The proposal that the node takes or refuses in a step, with its status. -/
def decided : Option (Proposal × Status) :=
  match t.event, t.before.node.ready, t.before.proposals, t.after.node.calls with
  | .propose, none, p :: _, [.callback status] => some (p, status)
  | _, _, _, _ => none

/-- The task that the store takes in a step. -/
def taskTaken : Option StoreTask :=
  match t.event with
  | .task => t.before.tasks.head?
  | _ => none

/-- The committed entry that the store comes to in a step. -/
def applied : Option Entry := (taskTaken t).bind StoreTask.entry

/-- The entries that the node hands out in a step, as committed. -/
def committed : List Entry :=
  match t.event with
  | .pull => (t.before.node.taken .pull).elim [] Ready.committedEntries
  | _ => []

/-- The entries in the messages that the node has handed to the transport last. -/
def sent : List Entry := (t.after.node.calls.flatMap Call.sent).flatMap Message.carried

/-- The entries in the message that the node receives in a step. -/
def received : List Entry :=
  match t.event with
  | .process m => m.carried
  | _ => []

/-- The callback that is called too early, if one is: that of a request to delete keys which waits for its
entry, when the store comes to the task of the accepted proposal. -/
def tooEarly : Option ℕ :=
  match taskTaken t with
  | some (.delProposed commitId .ok) => t.before.store.pendingRequests.lookup commitId
  | _ => none

/-- The requests of the clients. -/
def requests : List Request := ts.filterMap (requested F)

/-- The proposals that were taken or refused, with their status. -/
def decisions : List (Proposal × Status) := ts.filterMap decided

/-- The answers to the clients. -/
def answers : List Reply := ts.flatMap fun t => t.after.replies

/-- The entries that the store has come to. -/
def appliedEntries : List Entry := ts.filterMap applied

/-- The entries that the node has handed out. -/
def committedEntries : List Entry := ts.flatMap committed

/-- The entries that the node has sent. -/
def sentEntries : List Entry := ts.flatMap sent

/-- What was posted to the store since the start, in order. -/
def posted (s : Server) : List StoreTask := ts.filterMap taskTaken ++ s.tasks

end Histories

/-! ## The kinds of steps -/

section Kinds

variable {F : Formats} {t : Turn Server ServerEvent}

/-- A step in which no client asks, no proposal is taken or refused, and the store takes no task. -/
structure Quiet (F : Formats) (t : Turn Server ServerEvent) : Prop where
  /-- No client asks. -/
  requested : requested F t = none
  /-- No proposal is taken or refused. -/
  decided : decided t = none
  /-- No task is taken. -/
  taskTaken : taskTaken t = none
  /-- No client is answered. -/
  replies : t.after.replies = []
  /-- The store stays. -/
  store : t.after.store = t.before.store
  /-- The proposals stay. -/
  proposals : t.after.proposals = t.before.proposals

/-- A step of the node, on an event that is not a proposal. -/
structure Works (F : Formats) (t : Turn Server ServerEvent) (e : RaftNodeEvent) : Prop extends Quiet F t where
  /-- The step of the node. -/
  node : t.before.node.handle F e = .ok t.after.node
  /-- What is posted. -/
  tasks : t.after.tasks = t.before.tasks ++ t.after.node.calls.filterMap Call.task
  /-- It is not a proposal. -/
  proposes : ∀ data, e ≠ .propose data
  /-- A message comes from outside. -/
  process : ∀ m, e = .process m → received t = m.carried
  /-- What is handed out. -/
  committed : committed t = (t.before.node.taken e).elim [] Ready.committedEntries

/-- A step in which nothing happens. -/
structure Rests (F : Formats) (t : Turn Server ServerEvent) : Prop extends Quiet F t where
  /-- The node stays. -/
  node : t.after.node = t.before.node
  /-- The tasks stay. -/
  tasks : t.after.tasks = t.before.tasks

/-- A step in which a proposal is taken or refused. -/
structure Decides (F : Formats) (t : Turn Server ServerEvent) (p : Proposal) (status : Status) : Prop where
  /-- No client asks. -/
  requested : requested F t = none
  /-- The proposal is taken or refused. -/
  decided : decided t = some (p, status)
  /-- No task is taken. -/
  taskTaken : taskTaken t = none
  /-- No client is answered. -/
  replies : t.after.replies = []
  /-- The store stays. -/
  store : t.after.store = t.before.store
  /-- The proposal was the first one. -/
  proposals : t.before.proposals = p :: t.after.proposals
  /-- The store is told. -/
  tasks : t.after.tasks = t.before.tasks ++ [p.proposed status]
  /-- The step of the node. -/
  node : t.before.node.handle F (.propose p.data) = .ok t.after.node
  /-- Its status. -/
  status : Ensures (ofRaft (t.before.node.node.propose p.data)) fun r => r.1 = status

/-- A step in which a client asks. -/
structure Asks (F : Formats) (t : Turn Server ServerEvent) (q : Request) : Prop where
  /-- The client asks. -/
  requested : requested F t = some q
  /-- No proposal is taken or refused. -/
  decided : decided t = none
  /-- No task is taken. -/
  taskTaken : taskTaken t = none
  /-- No client is answered. -/
  replies : t.after.replies = []
  /-- The data of the request are a command under its number. -/
  data : ∃ data, q.data =
    F.commit.pack { nodeId := UInt32.ofNat t.before.node.id, commitId := q.commitId, redisData := data }
  /-- Its number is the next one. -/
  commitId : q.commitId = t.before.store.nextRequestId
  /-- The number after it. -/
  nextRequestId : t.after.store.nextRequestId = t.before.store.nextRequestId + 1
  /-- Its callback waits. -/
  pendingRequests : t.after.store.pendingRequests = t.before.store.pendingRequests.insert q.commitId q.callback
  /-- It is proposed. -/
  proposals : t.after.proposals = t.before.proposals ++ [q.proposal]
  /-- The node stays. -/
  node : t.after.node = t.before.node
  /-- The tasks stay. -/
  tasks : t.after.tasks = t.before.tasks

/-- A step in which the store takes a task. -/
structure Takes (F : Formats) (t : Turn Server ServerEvent) (x : StoreTask) : Prop where
  /-- No client asks. -/
  requested : requested F t = none
  /-- No proposal is taken or refused. -/
  decided : decided t = none
  /-- The task is taken. -/
  taskTaken : taskTaken t = some x
  /-- The task was the first one. -/
  tasks : t.before.tasks = x :: t.after.tasks
  /-- The node stays. -/
  node : t.after.node = t.before.node
  /-- The proposals stay. -/
  proposals : t.after.proposals = t.before.proposals
  /-- Who is answered. -/
  answered : RedisStore.Answered t.before.store (x.answering F t.before.node.id) t.after.replies t.after.store

/-- What happens in a step. -/
inductive Happens (F : Formats) (t : Turn Server ServerEvent) : Prop
  /-- The node works. -/
  | works {e : RaftNodeEvent} (h : Works F t e)
  /-- Nothing happens. -/
  | rests (h : Rests F t)
  /-- A proposal is taken or refused. -/
  | decides {p : Proposal} {status : Status} (h : Decides F t p status)
  /-- A client asks. -/
  | asks {q : Request} (h : Asks F t q)
  /-- The store takes a task. -/
  | takes {x : StoreTask} (h : Takes F t x)

/-- Every step is of one of these kinds. -/
theorem happens (h : t.before.handle F t.event = .ok t.after) : Happens F t := by
  obtain ⟨s, e, s'⟩ := t
  replace h : s.handle F e = .ok s' := h
  have hworks : ∀ {s₁ : Server} {e' : RaftNodeEvent}, s₁.onNode F e' Call.task = .ok s' →
      s₁.node = s.node → s₁.tasks = s.tasks → s₁.store = s.store → s₁.proposals = s.proposals →
      s₁.replies = [] → requested F ⟨s, e, s'⟩ = none → decided ⟨s, e, s'⟩ = none →
      taskTaken ⟨s, e, s'⟩ = none → (∀ data, e' ≠ .propose data) →
      (∀ m, e' = .process m → received ⟨s, e, s'⟩ = m.carried) →
      committed ⟨s, e, s'⟩ = (s.node.taken e').elim [] Ready.committedEntries → Happens F ⟨s, e, s'⟩ := by
    intro s₁ e' h hnode htasks hstore hproposals hreplies hr hd ht hnot hprocess hcommitted
    obtain ⟨n, hn, h⟩ := bind_eq_ok.mp h
    cases h
    rw [hnode] at hn
    exact Happens.works ⟨⟨hr, hd, ht, hreplies, hstore, hproposals⟩, hn,
      congrArg (· ++ n.calls.filterMap Call.task) htasks, hnot, hprocess, hcommitted⟩
  unfold Server.handle at h
  dsimp only at h
  cases e with
  | tick => exact hworks h rfl rfl rfl rfl rfl rfl rfl rfl nofun nofun rfl
  | process m =>
    refine hworks h rfl rfl rfl rfl rfl rfl rfl rfl nofun ?_ rfl
    rintro _ ⟨⟩
    rfl
  | pull => exact hworks h rfl rfl rfl rfl rfl rfl rfl rfl nofun nofun rfl
  | propose =>
    have hrests : s' = { s with replies := [] } → decided ⟨s, .propose, s'⟩ = none →
        Happens F ⟨s, .propose, s'⟩ := by
      rintro rfl hd
      exact Happens.rests ⟨⟨rfl, hd, rfl, rfl, rfl, rfl⟩, rfl, rfl⟩
    cases hr : s.node.ready with
    | some rd =>
      rw [hr] at h
      refine hrests (Except.ok.inj h).symm ?_
      unfold decided
      dsimp only
      rw [hr]
    | none =>
      cases hp : s.proposals with
      | nil =>
        rw [hr, hp] at h
        refine hrests ?_ ?_
        · rw [hp]
          exact (Except.ok.inj h).symm
        · unfold decided
          dsimp only
          rw [hr, hp]
      | cons p ps =>
        rw [hr, hp] at h
        obtain ⟨n, hn, h⟩ := bind_eq_ok.mp h
        obtain ⟨status, node, hnode, hcalls⟩ := RaftNode.handle_propose hr hn
        cases h
        refine @Happens.decides F _ p status ⟨rfl, ?_, rfl, rfl, rfl, hp, ?_, hn, ?_⟩
        · unfold decided
          dsimp only
          rw [hr, hp, hcalls]
        · show s.tasks ++ n.calls.filterMap p.task = _
          rw [hcalls]
          rfl
        · intro r hr
          cases hnode.symm.trans hr
          rfl
  | resume =>
    cases hp : s.promise with
    | none =>
      rw [hp] at h
      obtain rfl := Except.ok.inj h
      exact Happens.rests ⟨⟨rfl, rfl, rfl, rfl, rfl, rfl⟩, rfl, rfl⟩
    | some data =>
      rw [hp] at h
      exact hworks h rfl rfl rfl rfl rfl rfl rfl rfl nofun nofun rfl
  | set key value callback =>
    obtain rfl := Except.ok.inj h
    exact Happens.asks ⟨rfl, rfl, rfl, rfl, ⟨_, rfl⟩, rfl, rfl, rfl, rfl, rfl, rfl⟩
  | del keys callback =>
    obtain rfl := Except.ok.inj h
    exact Happens.asks ⟨rfl, rfl, rfl, rfl, ⟨_, rfl⟩, rfl, rfl, rfl, rfl, rfl, rfl⟩
  | task =>
    unfold runTask at h
    dsimp only at h
    cases htasks : s.tasks with
    | nil =>
      rw [htasks] at h
      obtain rfl := Except.ok.inj h
      refine Happens.rests ⟨⟨rfl, rfl, ?_, rfl, rfl, rfl⟩, rfl, htasks.symm⟩
      unfold taskTaken
      dsimp only
      rw [htasks]
      rfl
    | cons x xs =>
      rw [htasks] at h
      obtain ⟨⟨replies, data, store⟩, hrun, h⟩ := bind_eq_ok.mp h
      cases h
      have hanswered := RedisStore.run_answers s.node.id s.store x _ hrun
      refine Happens.takes (x := x) ⟨rfl, rfl, ?_, htasks, rfl, rfl, hanswered⟩
      unfold taskTaken
      dsimp only
      rw [htasks]
      rfl

end Kinds

end Server

end RaftCpp
