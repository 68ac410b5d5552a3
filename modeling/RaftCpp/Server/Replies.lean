import RaftCpp.Server.Formats
import RaftCpp.Server.Requests
import RaftCpp.Server.Restart

/-!
# Runs of a server with its clients

Over a run of both threads, a request that was refused is never applied, and no client is answered twice. A
client is told that its command was applied only after it was, unless it asked to delete keys.
-/

namespace RaftCpp

open Outcome

namespace Server

variable {F : Formats} {id : ℕ} {past : Bytes → Prop} {us vs : List (Turn Server ServerEvent)}
  {t : Turn Server ServerEvent}

/-! ## One more step -/

section Snoc

variable (us : List (Turn Server ServerEvent)) {t : Turn Server ServerEvent}

/-- The requests. -/
theorem requests_snoc (h : requested F t = none) : requests F (us ++ [t]) = requests F us := by
  unfold requests
  rw [List.filterMap_append, List.filterMap_cons_none h, List.filterMap_nil, List.append_nil]

/-- One more request. -/
theorem requests_snoc_some {q : Request} (h : requested F t = some q) :
    requests F (us ++ [t]) = requests F us ++ [q] := by
  unfold requests
  rw [List.filterMap_append, List.filterMap_cons_some h, List.filterMap_nil]

/-- The decisions. -/
theorem decisions_snoc (h : decided t = none) : decisions (us ++ [t]) = decisions us := by
  unfold decisions
  rw [List.filterMap_append, List.filterMap_cons_none h, List.filterMap_nil, List.append_nil]

/-- One more decision. -/
theorem decisions_snoc_some {d : Proposal × Status} (h : decided t = some d) :
    decisions (us ++ [t]) = decisions us ++ [d] := by
  unfold decisions
  rw [List.filterMap_append, List.filterMap_cons_some h, List.filterMap_nil]

/-- The answers. -/
theorem answers_snoc : answers (us ++ [t]) = answers us ++ t.after.replies := by
  unfold answers
  rw [List.flatMap_append, List.flatMap_singleton]

/-- What was decided stays decided. -/
theorem decisions_subset : decisions us ⊆ decisions (us ++ [t]) := by
  unfold decisions
  rw [List.filterMap_append]
  exact List.subset_append_left _ _

/-- The entries that are handed out. -/
theorem committedEntries_snoc : committedEntries (us ++ [t]) = committedEntries us ++ committed t := by
  unfold committedEntries
  rw [List.flatMap_append, List.flatMap_singleton]

end Snoc

/-! ## The requests and their numbers -/

/-- Every client has its own callback. -/
def OwnCallbacks (F : Formats) (ts : List (Turn Server ServerEvent)) : Prop :=
  ((requests F ts).map Request.callback).Nodup

instance (ts : List (Turn Server ServerEvent)) : Decidable (OwnCallbacks F ts) :=
  inferInstanceAs (Decidable ((requests F ts).map Request.callback).Nodup)

/-- It is so at every step. -/
theorem OwnCallbacks.of_append (h : OwnCallbacks F (us ++ vs)) : OwnCallbacks F us := by
  unfold OwnCallbacks requests at h
  rw [List.filterMap_append, List.map_append] at h
  exact (List.nodup_append.mp h).1

/-- A request is known by its callback. -/
theorem OwnCallbacks.eq_of_callback (h : OwnCallbacks F us) {q q' : Request} (hq : q ∈ requests F us)
    (hq' : q' ∈ requests F us) (heq : q.callback = q'.callback) : q = q' :=
  List.inj_on_of_nodup_map h hq hq' heq

/-- The run of the clients: no number is given twice, and every client has its own callback. -/
structure Distinct (F : Formats) (ts : List (Turn Server ServerEvent)) : Prop where
  /-- The numbers do not wrap. -/
  numbers : (requests F ts).length ≤ 2^32
  /-- The callbacks. -/
  callbacks : ((requests F ts).map Request.callback).Nodup

instance (ts : List (Turn Server ServerEvent)) : Decidable (Distinct F ts) :=
  decidable_of_iff ((requests F ts).length ≤ 2^32 ∧ ((requests F ts).map Request.callback).Nodup)
    ⟨fun h => ⟨h.1, h.2⟩, fun h => ⟨h.numbers, h.callbacks⟩⟩

/-- It is so at every step. -/
theorem Distinct.of_append (h : Distinct F (us ++ vs)) : Distinct F us := by
  obtain ⟨hnumbers, hcallbacks⟩ := h
  unfold requests at hnumbers
  rw [List.filterMap_append, List.length_append] at hnumbers
  exact ⟨Nat.le_trans (Nat.le_add_right _ _) hnumbers, OwnCallbacks.of_append hcallbacks⟩

/-- What has become of the requests so far. -/
structure Booked (F : Formats) (id : ℕ) (us : List (Turn Server ServerEvent)) (s : Server) : Prop where
  /-- The identity of the node. -/
  sameId : s.node.id = id
  /-- The next number. -/
  next : s.store.nextRequestId = UInt32.ofNat (requests F us).length
  /-- The numbers are given in order. -/
  numbers : (requests F us).map Request.commitId = (List.range (requests F us).length).map UInt32.ofNat
  /-- The data of a request are a command under its number. -/
  asked : ∀ q ∈ requests F us, ∃ data, q.data =
    F.commit.pack { nodeId := UInt32.ofNat id, commitId := q.commitId, redisData := data }
  /-- Whoever waits has asked, and is not answered yet. -/
  waiting : ∀ k callback, s.store.pendingRequests.lookup k = some callback →
    (∃ q ∈ requests F us, q.commitId = k ∧ q.callback = callback) ∧ ∀ r ∈ answers us, r.callback ≠ callback
  /-- Whoever was answered had asked. -/
  answered : ∀ r ∈ answers us, ∃ q ∈ requests F us, q.callback = r.callback
  /-- Nobody was answered twice. -/
  nodup : ((answers us).map Reply.callback).Nodup
  /-- The proposals are of requests, each of which is proposed once. -/
  proposed : (decisions us).map Prod.fst ++ s.proposals = (requests F us).map Request.proposal

/-- The numbers of the requests are different, as long as they do not wrap. -/
theorem Booked.nodup_numbers {s : Server} (h : Booked F id us s) (hd : Distinct F us) :
    ((requests F us).map Request.commitId).Nodup := by
  rw [h.numbers]
  refine List.Nodup.map_on ?_ List.nodup_range
  intro i hi j hj heq
  have hlt := hd.numbers
  rw [List.mem_range] at hi hj
  have heq := congrArg UInt32.toNat heq
  rw [UInt32.toNat_ofNat', UInt32.toNat_ofNat', Nat.mod_eq_of_lt (by omega),
    Nat.mod_eq_of_lt (by omega)] at heq
  exact heq

/-- A request is known by its number. -/
theorem Booked.eq_of_commitId {s : Server} (h : Booked F id us s) (hd : Distinct F us) {q q' : Request}
    (hq : q ∈ requests F us) (hq' : q' ∈ requests F us) (heq : q.commitId = q'.commitId) : q = q' :=
  List.inj_on_of_nodup_map (h.nodup_numbers hd) hq hq' heq

/-- A step in which no client asks and none is answered, and in which no proposal is lost. -/
theorem Booked.of_store (hs : Booked F id us t.before) (hrequested : requested F t = none)
    (hreplies : t.after.replies = []) (hstore : t.after.store = t.before.store)
    (hid : t.after.node.id = t.before.node.id)
    (hproposed : (decisions (us ++ [t])).map Prod.fst ++ t.after.proposals =
      (decisions us).map Prod.fst ++ t.before.proposals) :
    Booked F id (us ++ [t]) t.after := by
  have hreq := requests_snoc us hrequested
  have hans : answers (us ++ [t]) = answers us := by rw [answers_snoc, hreplies, List.append_nil]
  constructor
  · exact hid.trans hs.sameId
  · rw [hreq, hstore]
    exact hs.next
  · rw [hreq]
    exact hs.numbers
  · rw [hreq]
    exact hs.asked
  · rw [hreq, hans, hstore]
    exact hs.waiting
  · rw [hreq, hans]
    exact hs.answered
  · rw [hans]
    exact hs.nodup
  · rw [hreq, hproposed]
    exact hs.proposed

/-- A step in which no proposal comes or goes either. -/
theorem Booked.quiet (hs : Booked F id us t.before) (ht : Quiet F t)
    (hid : t.after.node.id = t.before.node.id) : Booked F id (us ++ [t]) t.after := by
  refine hs.of_store ht.requested ht.replies ht.store hid ?_
  rw [decisions_snoc us ht.decided, ht.proposals]

/-- A proposal is taken or refused. -/
theorem Booked.decides (hs : Booked F id us t.before) {p : Proposal} {status : Status}
    (ht : Decides F t p status) : Booked F id (us ++ [t]) t.after := by
  refine hs.of_store ht.requested ht.replies ht.store (RaftNode.handle_keeps _ _ _ ht.node).id ?_
  rw [decisions_snoc_some us ht.decided, ht.proposals, List.map_append, List.append_assoc]
  rfl

/-- A client asks. Its number and its callback are new. -/
theorem Booked.asks (hs : Booked F id us t.before) {q : Request} (ht : Asks F t q)
    (hc : OwnCallbacks F (us ++ [t])) : Booked F id (us ++ [t]) t.after := by
  have hreq := requests_snoc_some us ht.requested
  have hdec := decisions_snoc us ht.decided
  have hans : answers (us ++ [t]) = answers us := by rw [answers_snoc, ht.replies, List.append_nil]
  have hmem : ∀ {P : Request → Prop}, (∃ q' ∈ requests F us, P q') → ∃ q' ∈ requests F us ++ [q], P q' := by
    rintro P ⟨q', hq', h⟩
    exact ⟨q', List.mem_append_left _ hq', h⟩
  have hnew : ∀ q' ∈ requests F us, q'.callback ≠ q.callback := by
    unfold OwnCallbacks at hc
    rw [hreq, List.map_append, List.nodup_append] at hc
    exact fun q' hq' => hc.2.2 _ (List.mem_map_of_mem hq') _ List.mem_cons_self
  constructor
  · rw [ht.node]
    exact hs.sameId
  · rw [hreq, ht.nextRequestId, hs.next, List.length_append]
    exact (UInt32.ofNat_add _ 1).symm
  · rw [hreq, List.map_append, hs.numbers, List.length_append, List.length_singleton, List.range_succ,
      List.map_append, List.map_singleton, List.map_singleton, ht.commitId, hs.next]
  · rw [hreq]
    intro q' hq'
    obtain hq' | hq' := List.mem_append.mp hq'
    · exact hs.asked q' hq'
    · obtain rfl := List.mem_singleton.mp hq'
      rw [← hs.sameId]
      exact ht.data
  · rw [hreq, hans, ht.pendingRequests]
    intro k callback hk
    by_cases hself : k = q.commitId
    · subst hself
      rw [AList.lookup_insert] at hk
      cases hk
      refine ⟨⟨q, List.mem_append_right _ List.mem_cons_self, rfl, rfl⟩, fun r hr heq => ?_⟩
      obtain ⟨q', hq', hq'r⟩ := hs.answered r hr
      exact hnew q' hq' (hq'r.trans heq)
    · rw [AList.lookup_insert_ne hself] at hk
      obtain ⟨hq', hnot⟩ := hs.waiting k callback hk
      exact ⟨hmem hq', hnot⟩
  · rw [hreq, hans]
    exact fun r hr => hmem (hs.answered r hr)
  · rw [hans]
    exact hs.nodup
  · rw [hreq, hdec, ht.proposals, ← List.append_assoc, hs.proposed, List.map_append, List.map_singleton]

/-- What the store answers in a task: at most one client, which waits under the number of the task. -/
theorem Takes.reply {x : StoreTask} (ht : Takes F t x) {r : Reply} (hr : r ∈ t.after.replies) :
    ∃ k, x.answering F t.before.node.id = some (k, r.status) ∧
      t.before.store.pendingRequests.lookup k = some r.callback ∧ t.after.replies = [r] := by
  have hreplies := ht.answered.replies
  cases hwhom : x.answering F t.before.node.id with
  | none =>
    rw [hwhom] at hreplies
    rw [hreplies] at hr
    cases hr
  | some p =>
    obtain ⟨k, status⟩ := p
    rw [hwhom] at hreplies
    cases hk : t.before.store.pendingRequests.lookup k with
    | none =>
      rw [Option.bind_some, hk] at hreplies
      rw [hreplies] at hr
      cases hr
    | some callback =>
      rw [Option.bind_some, hk] at hreplies
      rw [hreplies] at hr
      obtain rfl := List.mem_singleton.mp hr
      exact ⟨k, rfl, hk, hreplies⟩

/-- Whoever waits under the number of a task is answered. -/
theorem Takes.mem_replies {x : StoreTask} (ht : Takes F t x) {k : UInt32} {status : Status}
    (hx : x.answering F t.before.node.id = some (k, status)) {callback : ℕ}
    (hk : t.before.store.pendingRequests.lookup k = some callback) : ⟨callback, status⟩ ∈ t.after.replies := by
  rw [ht.answered.replies, hx, Option.bind_some, hk]
  exact List.mem_cons_self

/-- Whoever waits behind a task has waited before, and is not the one whom the task answers. -/
theorem Takes.waited {x : StoreTask} (ht : Takes F t x) {k : UInt32} {callback : ℕ}
    (hk : t.after.store.pendingRequests.lookup k = some callback) :
    t.before.store.pendingRequests.lookup k = some callback ∧
      ∀ p ∈ x.answering F t.before.node.id, p.1 ≠ k := by
  have hother : ∀ p ∈ x.answering F t.before.node.id, p.1 ≠ k := by
    rintro p hp rfl
    rw [ht.answered.done p hp] at hk
    cases hk
  rw [ht.answered.silent k hother] at hk
  exact ⟨hk, hother⟩

/-- The store takes a task. -/
theorem Booked.takes (hs : Booked F id us t.before) {x : StoreTask} (ht : Takes F t x)
    (hc : OwnCallbacks F us) : Booked F id (us ++ [t]) t.after := by
  have hreq := requests_snoc us ht.requested
  have hdec := decisions_snoc us ht.decided
  have hans := answers_snoc us (t := t)
  have hnew : ∀ r ∈ t.after.replies, ∀ r' ∈ answers us, r'.callback ≠ r.callback := by
    intro r hr
    obtain ⟨k, -, hk, -⟩ := ht.reply hr
    exact (hs.waiting k _ hk).2
  constructor
  · rw [ht.node]
    exact hs.sameId
  · rw [hreq, ht.answered.nextRequestId]
    exact hs.next
  · rw [hreq]
    exact hs.numbers
  · rw [hreq]
    exact hs.asked
  · rw [hreq, hans]
    intro k callback hk
    obtain ⟨hk, hother⟩ := ht.waited hk
    obtain ⟨hq, hnot⟩ := hs.waiting k callback hk
    refine ⟨hq, fun r hr heq => ?_⟩
    obtain hr | hr := List.mem_append.mp hr
    · exact hnot r hr heq
    · obtain ⟨k', hk', hlookup, -⟩ := ht.reply hr
      obtain ⟨q, hq, hqk, hqc⟩ := hq
      obtain ⟨⟨q', hq', hqk', hqc'⟩, -⟩ := hs.waiting k' _ hlookup
      obtain rfl := hc.eq_of_callback hq hq' (by rw [hqc, hqc', heq])
      exact hother _ hk' (hqk'.symm.trans hqk)
  · rw [hreq, hans]
    intro r hr
    obtain hr | hr := List.mem_append.mp hr
    · exact hs.answered r hr
    · obtain ⟨k, -, hk, -⟩ := ht.reply hr
      obtain ⟨⟨q, hq, -, hqc⟩, -⟩ := hs.waiting k _ hk
      exact ⟨q, hq, hqc⟩
  · rw [hans, List.map_append, List.nodup_append]
    refine ⟨hs.nodup, ?_, ?_⟩
    · cases hr : t.after.replies with
      | nil => exact List.nodup_nil
      | cons r rs =>
        obtain ⟨-, -, -, hone⟩ := ht.reply (r := r) (by rw [hr]; exact List.mem_cons_self)
        rw [hr] at hone
        rw [hone]
        exact List.nodup_singleton _
    · intro c hc c' hc' heq
      obtain ⟨r', hr', rfl⟩ := List.mem_map.mp hc
      obtain ⟨r, hr, rfl⟩ := List.mem_map.mp hc'
      exact hnew r hr r' hr' heq
  · rw [hreq, hdec, ht.proposals]
    exact hs.proposed

/-- What has become of the requests, after one more step. -/
theorem Booked.step (hs : Booked F id us t.before) (h : t.before.handle F t.event = .ok t.after)
    (hc : OwnCallbacks F (us ++ [t])) : Booked F id (us ++ [t]) t.after := by
  cases happens h with
  | works ht => exact hs.quiet ht.toQuiet (RaftNode.handle_keeps _ _ _ ht.node).id
  | rests ht => exact hs.quiet ht.toQuiet (congrArg RaftNode.id ht.node)
  | decides ht => exact hs.decides ht
  | asks ht => exact hs.asks ht hc
  | takes ht => exact hs.takes ht hc.of_append

/-! ## Where the commands come from -/

/-- A command of the node's own is one of the past, or it was proposed, and the proposal was taken. -/
def Known (F : Formats) (id : ℕ) (past : Bytes → Prop) (us : List (Turn Server ServerEvent)) (data : Bytes) :
    Prop :=
  OwnCommand F id data → past data ∨ ∃ d ∈ decisions us, d.2 = .ok ∧ d.1.data = data

/-- The contract of the peers: the commands of the node's own that they send were sent by it. -/
def Genuine (F : Formats) (id : ℕ) (us : List (Turn Server ServerEvent)) (t : Turn Server ServerEvent) :
    Prop :=
  ∀ e ∈ received t, e.Carries fun data => OwnCommand F id data →
    ∃ e' ∈ sentEntries us, e'.type = .entryNormal ∧ e'.data = data

instance (t : Turn Server ServerEvent) : Decidable (Genuine F id us t) :=
  inferInstanceAs (Decidable (∀ e ∈ received t, e.type = .entryNormal → e.data ≠ [] → OwnCommand F id e.data →
    ∃ e' ∈ sentEntries us, e'.type = .entryNormal ∧ e'.data = e.data))

/-- The contract of the peers of a node that has a past. -/
def GenuineSince (F : Formats) (id : ℕ) (past : Bytes → Prop) (us : List (Turn Server ServerEvent))
    (t : Turn Server ServerEvent) : Prop :=
  ∀ e ∈ received t, e.Carries fun data => OwnCommand F id data →
    past data ∨ ∃ e' ∈ sentEntries us, e'.type = .entryNormal ∧ e'.data = data

instance [DecidablePred past] (t : Turn Server ServerEvent) : Decidable (GenuineSince F id past us t) :=
  inferInstanceAs (Decidable (∀ e ∈ received t, e.type = .entryNormal → e.data ≠ [] → OwnCommand F id e.data →
    past e.data ∨ ∃ e' ∈ sentEntries us, e'.type = .entryNormal ∧ e'.data = e.data))

/-- It is kept by peers that send back only what was sent since the start. -/
theorem Genuine.since (h : Genuine F id us t) : GenuineSince F id past us t :=
  fun e he => (h e he).mono fun _ hsent hown => Or.inr (hsent hown)

/-- A task is of what has happened. -/
def Grounded (F : Formats) (id : ℕ) (past : Bytes → Prop) (us : List (Turn Server ServerEvent)) :
    StoreTask → Prop
  | .readCommit e => e ∈ committedEntries us ∧ Known F id past us e.data
  | .setProposed commitId status => ∃ d ∈ decisions us, d.1.proposed d.2 = .setProposed commitId status
  | .delProposed commitId status => ∃ d ∈ decisions us, d.1.proposed d.2 = .delProposed commitId status
  | .recoverFromSnapshot _ | .getSnapshot => True

/-- The entry of a command does not come before the task of its proposal. -/
def InOrder (F : Formats) (id : ℕ) (x y : StoreTask) : Prop :=
  ∀ e, x = .readCommit e → ∀ commit ∈ F.commit.unpack e.data, commit.nodeId = UInt32.ofNat id →
    ∀ status, y ≠ .delProposed commit.commitId status

/-- Where the commands come from that the node has, sends, and hands on. -/
structure Sources (F : Formats) (id : ℕ) (past : Bytes → Prop) (us : List (Turn Server ServerEvent))
    (s : Server) : Prop where
  /-- What the node has, and what it has passed on last. -/
  node : s.node.Passes (Known F id past us) (committedEntries us)
  /-- What it has sent. -/
  sent : ∀ e ∈ sentEntries us, e.Carries (Known F id past us)
  /-- What was posted to the store. -/
  posted : ∀ x ∈ Server.posted us s, Grounded F id past us x

/-- What was posted to the store is in order. -/
def Ordered (F : Formats) (id : ℕ) (us : List (Turn Server ServerEvent)) (s : Server) : Prop :=
  (Server.posted us s).Pairwise (InOrder F id)

/-- What is known stays known. -/
theorem Known.mono {data : Bytes} (h : Known F id past us data) : Known F id past (us ++ [t]) data := by
  intro hown
  obtain hpast | ⟨d, hd, hok, hdata⟩ := h hown
  · exact Or.inl hpast
  · exact Or.inr ⟨d, decisions_subset us hd, hok, hdata⟩

/-- What is grounded stays so. -/
theorem Grounded.mono {x : StoreTask} (h : Grounded F id past us x) : Grounded F id past (us ++ [t]) x := by
  have hdecided : ∀ {y : StoreTask}, (∃ d ∈ decisions us, d.1.proposed d.2 = y) →
      ∃ d ∈ decisions (us ++ [t]), d.1.proposed d.2 = y := by
    rintro y ⟨d, hd, hy⟩
    exact ⟨d, decisions_subset us hd, hy⟩
  cases x with
  | readCommit e =>
    obtain ⟨hcommitted, hknown⟩ := h
    refine ⟨?_, hknown.mono⟩
    rw [committedEntries_snoc]
    exact List.mem_append_left _ hcommitted
  | setProposed commitId status => exact hdecided h
  | delProposed commitId status => exact hdecided h
  | recoverFromSnapshot data => trivial
  | getSnapshot => trivial

/-- The tasks of a node that passes on what is known. -/
theorem grounded_of_passes {n : RaftNode} (h : n.Passes (Known F id past us) (committedEntries us)) :
    ∀ x ∈ n.calls.filterMap Call.task, Grounded F id past us x := by
  intro x hx
  obtain ⟨c, hc, htask⟩ := List.mem_filterMap.mp hx
  cases c with
  | readCommit e =>
    cases htask
    exact (h.calls _ hc).readCommit e rfl
  | recoverFromSnapshot data =>
    cases htask
    trivial
  | getSnapshot =>
    cases htask
    trivial
  | _ => cases htask

/-- What is posted in a step comes last. -/
theorem posted_snoc (us : List (Turn Server ServerEvent)) (h : taskTaken t = none) {xs : List StoreTask}
    (htasks : t.after.tasks = t.before.tasks ++ xs) :
    posted (us ++ [t]) t.after = posted us t.before ++ xs := by
  unfold posted
  rw [List.filterMap_append, List.filterMap_cons_none h, List.filterMap_nil, List.append_nil, htasks,
    List.append_assoc]

/-- What the node has sent, after one more step. -/
theorem Sources.sent_snoc (hs : Sources F id past us t.before)
    (hnode : t.after.node.Passes (Known F id past (us ++ [t])) (committedEntries (us ++ [t]))) :
    ∀ e ∈ sentEntries (us ++ [t]), e.Carries (Known F id past (us ++ [t])) := by
  intro e he
  unfold sentEntries at he
  rw [List.flatMap_append, List.flatMap_singleton] at he
  obtain he | he := List.mem_append.mp he
  · exact (hs.sent e he).mono fun data h => h.mono
  · obtain ⟨m, hm, hem⟩ := List.mem_flatMap.mp he
    obtain ⟨c, hc, hmc⟩ := List.mem_flatMap.mp hm
    exact (hnode.calls c hc).sent m hmc e hem

/-- The node, as it was before a step. -/
theorem Sources.node_snoc (hs : Sources F id past us t.before) :
    t.before.node.Passes (Known F id past (us ++ [t])) (committedEntries (us ++ [t])) := by
  refine hs.node.mono (fun data h => h.mono) ?_
  rw [committedEntries_snoc]
  exact List.subset_append_left _ _

/-- A step in which the node stays, and no proposal is taken or refused. -/
theorem Sources.of_node (hs : Sources F id past us t.before) (hnode : t.after.node = t.before.node)
    (hposted : Server.posted (us ++ [t]) t.after = Server.posted us t.before) :
    Sources F id past (us ++ [t]) t.after := by
  have hafter := hs.node_snoc (t := t)
  rw [← hnode] at hafter
  refine ⟨hafter, hs.sent_snoc hafter, ?_⟩
  rw [hposted]
  exact fun x hx => (hs.posted x hx).mono

/-- What comes after an entry that is not of a deletion's proposal. -/
theorem inOrder_of_ne {x y : StoreTask} (h : ∀ commitId status, y ≠ .delProposed commitId status) :
    InOrder F id x y := fun _ _ _ _ _ status => h _ status

/-- What the node posts is not of a proposal. -/
theorem task_ne_delProposed {c : Call} {x : StoreTask} (h : c.task = some x) (commitId : UInt32)
    (status : Status) : x ≠ .delProposed commitId status := by
  cases c with
  | readCommit _ | recoverFromSnapshot _ | getSnapshot =>
    cases h
    exact nofun
  | _ => cases h

/-- The node works. -/
theorem Sources.works (hs : Sources F id past us t.before) {e : RaftNodeEvent} (ht : Works F t e)
    (hg : GenuineSince F id past us t) : Sources F id past (us ++ [t]) t.after := by
  have hprocess : ∀ m, e = .process m → ∀ x ∈ m.carried, x.Carries (Known F id past (us ++ [t])) := by
    intro m hm x hx htype hdata hown
    obtain hpast | ⟨e', he', htype', heq⟩ := hg x (by rwa [ht.process m hm]) htype hdata hown
    · exact Or.inl hpast
    have hknown := hs.sent e' he' htype' (by rwa [heq])
    rw [heq] at hknown
    exact hknown.mono hown
  have hafter : t.after.node.Passes (Known F id past (us ++ [t])) (committedEntries (us ++ [t])) := by
    have h := RaftNode.handle_passes hs.node_snoc.carries hprocess (fun data h => absurd h (ht.proposes data))
      _ ht.node
    refine h.mono (fun _ h => h) ?_
    rw [committedEntries_snoc, ht.committed]
    exact List.subset_append_right _ _
  refine ⟨hafter, hs.sent_snoc hafter, ?_⟩
  rw [posted_snoc us ht.taskTaken ht.tasks]
  intro x hx
  obtain hx | hx := List.mem_append.mp hx
  · exact (hs.posted x hx).mono
  · exact grounded_of_passes hafter x hx

/-- The data of a request tell its number. -/
theorem Booked.unpack {s : Server} (hb : Booked F id us s) (hlaw : F.commit.Lawful) {q : Request}
    (hq : q ∈ requests F us) : ∃ commit, F.commit.unpack q.data = some commit ∧
      commit.nodeId = UInt32.ofNat id ∧ commit.commitId = q.commitId := by
  obtain ⟨data, hdata⟩ := hb.asked q hq
  rw [hdata, hlaw]
  exact ⟨_, rfl, rfl, rfl⟩

/-- What was decided is of a request. -/
theorem Booked.request_of_decided {s : Server} (hb : Booked F id us s) {d : Proposal × Status}
    (hd : d ∈ decisions us) : ∃ q ∈ requests F us, q.proposal = d.1 := by
  have hmem : d.1 ∈ (requests F us).map Request.proposal := by
    rw [← hb.proposed]
    exact List.mem_append_left _ (List.mem_map_of_mem hd)
  exact List.mem_map.mp hmem

/-- A known command of the node's own, if it is not of the past, is that of a request. -/
theorem Known.request {s : Server} {data : Bytes} (h : Known F id past us data) (hb : Booked F id us s)
    (hown : OwnCommand F id data) :
    past data ∨ ∃ q ∈ requests F us, q.data = data ∧ (q.proposal, Status.ok) ∈ decisions us := by
  obtain hpast | ⟨⟨p, status⟩, hd, hok, hdata⟩ := h hown
  · exact Or.inl hpast
  obtain ⟨q, hq, hqp⟩ := hb.request_of_decided hd
  dsimp only at hok hdata hqp
  refine Or.inr ⟨q, hq, ?_, ?_⟩
  · rw [← hdata, ← hqp]
    rfl
  · rw [hqp, ← hok]
    exact hd

/-- Without a past, it is that of the request with its number. -/
theorem Known.request_of_number {s : Server} {data : Bytes} (h : Known F id (fun _ => False) us data)
    (hb : Booked F id us s) (hlaw : F.commit.Lawful) {commit : RaftCommit}
    (hcommit : F.commit.unpack data = some commit) (hown : commit.nodeId = UInt32.ofNat id) :
    ∃ q ∈ requests F us, q.data = data ∧ q.commitId = commit.commitId ∧
      (q.proposal, Status.ok) ∈ decisions us := by
  obtain ⟨q, hq, hqdata, htaken⟩ := (h.request hb ⟨commit, hcommit, hown⟩).resolve_left fun h => h
  obtain ⟨commit', hcommit', -, hnumber⟩ := hb.unpack hlaw hq
  rw [hqdata, hcommit] at hcommit'
  cases hcommit'
  exact ⟨q, hq, hqdata, hnumber.symm, htaken⟩

/-- A proposal is taken or refused. -/
theorem Sources.decides (hs : Sources F id past us t.before) {p : Proposal} {status : Status}
    (ht : Decides F t p status) : Sources F id past (us ++ [t]) t.after := by
  have hdecided : (p, status) ∈ decisions (us ++ [t]) := by
    rw [decisions_snoc_some us ht.decided]
    exact List.mem_append_right _ List.mem_cons_self
  have hafter : t.after.node.Passes (Known F id past (us ++ [t])) (committedEntries (us ++ [t])) := by
    have h := RaftNode.handle_passes (Q := Known F id past (us ++ [t])) hs.node_snoc.carries
      (fun m hm => by cases hm) ?_ _ ht.node
    · refine h.mono (fun _ h => h) ?_
      exact List.nil_subset _
    · rintro _ ⟨⟩ r hr hok _
      refine Or.inr ⟨(p, status), hdecided, ?_, rfl⟩
      rw [← hok]
      exact (ht.status r hr).symm
  refine ⟨hafter, hs.sent_snoc hafter, ?_⟩
  rw [posted_snoc us ht.taskTaken ht.tasks]
  intro x hx
  obtain hx | hx := List.mem_append.mp hx
  · exact (hs.posted x hx).mono
  · obtain rfl := List.mem_singleton.mp hx
    unfold Proposal.proposed
    cases hk : p.kind with
    | set => exact ⟨(p, status), hdecided, by unfold Proposal.proposed; rw [hk]⟩
    | del => exact ⟨(p, status), hdecided, by unfold Proposal.proposed; rw [hk]⟩

/-- The store takes a task that was posted. -/
theorem posted_of_takes (us : List (Turn Server ServerEvent)) {x : StoreTask} (ht : Takes F t x) :
    posted (us ++ [t]) t.after = posted us t.before := by
  unfold posted
  rw [List.filterMap_append, List.filterMap_cons_some ht.taskTaken, List.filterMap_nil, ht.tasks,
    List.append_assoc]
  rfl

/-- Nothing is posted in a step that leaves the tasks alone. -/
theorem posted_of_tasks (us : List (Turn Server ServerEvent)) (h : taskTaken t = none)
    (htasks : t.after.tasks = t.before.tasks) : posted (us ++ [t]) t.after = posted us t.before := by
  rw [posted_snoc us h (htasks.trans (List.append_nil _).symm), List.append_nil]

/-- Where the commands come from, after one more step. -/
theorem Sources.step (hs : Sources F id past us t.before) (h : t.before.handle F t.event = .ok t.after)
    (hg : GenuineSince F id past us t) : Sources F id past (us ++ [t]) t.after := by
  cases happens h with
  | works ht => exact hs.works ht hg
  | rests ht => exact hs.of_node ht.node (posted_of_tasks us ht.taskTaken ht.tasks)
  | decides ht => exact hs.decides ht
  | asks ht => exact hs.of_node ht.node (posted_of_tasks us ht.taskTaken ht.tasks)
  | takes ht => exact hs.of_node ht.node (posted_of_takes us ht)

/-- What was posted to the store is in order, after one more step of a node without a past. -/
theorem Ordered.step (ho : Ordered F id us t.before) (h : t.before.handle F t.event = .ok t.after)
    (hs : Sources F id (fun _ => False) us t.before) (hb : Booked F id us t.before)
    (hlaw : F.commit.Lawful) (hd : Distinct F us) : Ordered F id (us ++ [t]) t.after := by
  unfold Ordered at ho ⊢
  cases happens h with
  | works ht =>
    have hnew : ∀ x ∈ t.after.node.calls.filterMap Call.task, ∀ commitId status,
        x ≠ .delProposed commitId status := by
      intro x hx
      obtain ⟨c, -, hc⟩ := List.mem_filterMap.mp hx
      exact task_ne_delProposed hc
    rw [posted_snoc us ht.taskTaken ht.tasks, List.pairwise_append]
    refine ⟨ho, ?_, fun x _ y hy => inOrder_of_ne (hnew y hy)⟩
    exact List.pairwise_of_forall_mem_list fun _ _ y hy => inOrder_of_ne (hnew y hy)
  | rests ht =>
    rw [posted_of_tasks us ht.taskTaken ht.tasks]
    exact ho
  | @decides p status ht =>
    rw [posted_snoc us ht.taskTaken ht.tasks, List.pairwise_append]
    refine ⟨ho, List.pairwise_singleton _ _, ?_⟩
    rintro x hx y hy e rfl commit hcommit hown status' rfl
    -- The proposals that were taken before have other numbers.
    obtain ⟨q, hq, -, hqn, hqd⟩ := ((hs.posted _ hx).2).request_of_number hb hlaw hcommit hown
    have hpn : p.commitId = commit.commitId := by
      have hy := List.mem_singleton.mp hy
      unfold Proposal.proposed at hy
      cases hk : p.kind with
      | set =>
        rw [hk] at hy
        cases hy
      | del =>
        rw [hk] at hy
        exact (StoreTask.delProposed.inj hy).1.symm
    have hnodup := hb.nodup_numbers hd
    have hnumbers : (requests F us).map Request.commitId =
        (decisions us).map (fun d => d.1.commitId) ++ t.before.proposals.map Proposal.commitId := by
      calc (requests F us).map Request.commitId
          = ((requests F us).map Request.proposal).map Proposal.commitId := by rw [List.map_map]; rfl
        _ = _ := by rw [← hb.proposed, List.map_append, List.map_map]; rfl
    rw [hnumbers, ht.proposals, List.map_cons, List.nodup_append] at hnodup
    exact hnodup.2.2 _ (List.mem_map_of_mem hqd) _ List.mem_cons_self (hqn.trans hpn.symm)
  | asks ht =>
    rw [posted_of_tasks us ht.taskTaken ht.tasks]
    exact ho
  | takes ht =>
    rw [posted_of_takes us ht]
    exact ho

/-! ## The answers -/

/-- Whoever is answered in a step has asked, and the store has come to a task with its number. -/
theorem Booked.reply (hb : Booked F id us t.before) (h : t.before.handle F t.event = .ok t.after) {r : Reply}
    (hr : r ∈ t.after.replies) : ∃ x, Takes F t x ∧ ∃ q ∈ requests F us, q.callback = r.callback ∧
      x.answering F id = some (q.commitId, r.status) := by
  cases happens h with
  | works ht =>
    rw [ht.replies] at hr
    cases hr
  | rests ht =>
    rw [ht.replies] at hr
    cases hr
  | decides ht =>
    rw [ht.replies] at hr
    cases hr
  | asks ht =>
    rw [ht.replies] at hr
    cases hr
  | takes ht =>
    obtain ⟨k, hk, hlookup, -⟩ := ht.reply hr
    obtain ⟨⟨q, hq, rfl, hqc⟩, -⟩ := hb.waiting k _ hlookup
    rw [hb.sameId] at hk
    exact ⟨_, ht, q, hq, hqc, hk⟩

/-- The task that is taken was posted. -/
theorem Takes.mem_posted {x : StoreTask} (ht : Takes F t x) : x ∈ posted us t.before := by
  unfold posted
  rw [ht.tasks]
  exact List.mem_append_right _ List.mem_cons_self

/-- When the store comes to an entry, it takes the task of that entry. -/
theorem taskTaken_of_applied {e : Entry} (h : applied t = some e) : taskTaken t = some (.readCommit e) := by
  obtain ⟨x, hx, hxe⟩ := Option.bind_eq_some_iff.mp h
  cases x with
  | readCommit e' =>
    cases hxe
    exact hx
  | _ => cases hxe

/-- The entries that the store has come to were posted. -/
theorem mem_posted_of_applied {e : Entry} {s : Server} (h : e ∈ appliedEntries us) :
    StoreTask.readCommit e ∈ posted us s := by
  obtain ⟨u, hu, hue⟩ := List.mem_filterMap.mp h
  exact List.mem_append_left _ (List.mem_filterMap.mpr ⟨u, hu, taskTaken_of_applied hue⟩)

/-- Who is told of success asked to delete keys, or the store comes to a command of the node's own under that
number. -/
theorem answering_ok {x : StoreTask} {commitId : UInt32} (hx : x.answering F id = some (commitId, .ok)) :
    x = .delProposed commitId .ok ∨ ∃ e commit, x = .readCommit e ∧ F.commit.unpack e.data = some commit ∧
      commit.nodeId.toNat = id ∧ commit.commitId = commitId := by
  cases x with
  | readCommit e =>
    unfold StoreTask.answering at hx
    dsimp only at hx
    cases hcommit : F.commit.unpack e.data with
    | none =>
      rw [hcommit] at hx
      cases hx
    | some commit =>
      rw [hcommit] at hx
      dsimp only at hx
      split_ifs at hx with hid
      exact Or.inr ⟨e, commit, rfl, hcommit, hid, congrArg Prod.fst (Option.some.inj hx)⟩
  | setProposed commitId status =>
    unfold StoreTask.answering at hx
    dsimp only at hx
    split_ifs at hx with hok
    have hstatus : status = .ok := congrArg Prod.snd (Option.some.inj hx)
    exact absurd (Status.isOk_iff.mpr hstatus) hok
  | delProposed commitId status =>
    cases hx
    exact Or.inl rfl
  | recoverFromSnapshot data => cases hx
  | getSnapshot => cases hx

/-- The entry that the store comes to in its task. -/
theorem Takes.applied {e : Entry} (ht : Takes F t (.readCommit e)) : Server.applied t = some e := by
  unfold Server.applied
  rw [ht.taskTaken]
  rfl

/-- A client that is told of success was told too early, or the store has just come to its entry. -/
theorem Sources.applied_of_ok (hs : Sources F id (fun _ => False) us t.before)
    (hb : Booked F id us t.before) (hlaw : F.commit.Lawful) (hd : Distinct F us) {x : StoreTask}
    (ht : Takes F t x) {q : Request} (hq : q ∈ requests F us)
    (hx : x.answering F id = some (q.commitId, .ok)) :
    x = .delProposed q.commitId .ok ∨
      ∃ e, applied t = some e ∧ e.data = q.data ∧ e ∈ committedEntries us := by
  refine (answering_ok hx).imp_right ?_
  rintro ⟨e, commit, rfl, hcommit, hid, hnumber⟩
  have hown : commit.nodeId = UInt32.ofNat id := by rw [← hid, UInt32.ofNat_toNat]
  obtain ⟨hcommitted, hknown⟩ := hs.posted _ ht.mem_posted
  obtain ⟨q', hq', hdata, hnumber', -⟩ := hknown.request_of_number hb hlaw hcommit hown
  obtain rfl := hb.eq_of_commitId hd hq hq' (hnumber.symm.trans hnumber'.symm)
  exact ⟨e, ht.applied, hdata.symm, hcommitted⟩

/-- A client that is told of an error has been refused. -/
theorem Sources.refused_of_error (hs : Sources F id past us t.before) (hb : Booked F id us t.before)
    (hd : Distinct F us) {x : StoreTask} (ht : Takes F t x) {q : Request} (hq : q ∈ requests F us)
    {status : Status} (hx : x.answering F id = some (q.commitId, status)) (hne : status ≠ .ok) :
    (q.proposal, status) ∈ decisions us := by
  have hgrounded := hs.posted x ht.mem_posted
  -- What was decided under the number is the proposal of the request.
  have hdecided : ∀ d ∈ decisions us, d.1.commitId = q.commitId → d.1 = q.proposal := by
    intro d hd' hnumber
    obtain ⟨q', hq', hqd⟩ := hb.request_of_decided hd'
    have hsame : q'.commitId = q.commitId := by
      rw [← hnumber, ← hqd]
      rfl
    rw [← hqd, hb.eq_of_commitId hd hq' hq hsame]
  have hproposed : ∀ {y : StoreTask}, (∃ d ∈ decisions us, d.1.proposed d.2 = y) →
      (y = .setProposed q.commitId status ∨ y = .delProposed q.commitId status) →
      (q.proposal, status) ∈ decisions us := by
    rintro y ⟨⟨p, st⟩, hp, rfl⟩ hy
    have hboth : p.commitId = q.commitId ∧ st = status := by
      unfold Proposal.proposed at hy
      cases hk : p.kind with
      | set =>
        rw [hk] at hy
        obtain h | h := hy
        · exact StoreTask.setProposed.inj h
        · cases h
      | del =>
        rw [hk] at hy
        obtain h | h := hy
        · cases h
        · exact StoreTask.delProposed.inj h
    obtain ⟨hnumber, rfl⟩ := hboth
    rw [← hdecided _ hp hnumber]
    exact hp
  cases x with
  | readCommit e =>
    unfold StoreTask.answering at hx
    dsimp only at hx
    cases hcommit : F.commit.unpack e.data with
    | none =>
      rw [hcommit] at hx
      cases hx
    | some commit =>
      rw [hcommit] at hx
      dsimp only at hx
      split_ifs at hx
      exact absurd (congrArg Prod.snd (Option.some.inj hx)).symm hne
  | setProposed commitId status' =>
    unfold StoreTask.answering at hx
    dsimp only at hx
    split_ifs at hx
    cases hx
    exact hproposed hgrounded (Or.inl rfl)
  | delProposed commitId status' =>
    cases hx
    exact hproposed hgrounded (Or.inr rfl)
  | recoverFromSnapshot data => cases hx
  | getSnapshot => cases hx

/-- The command of a request that was refused is not known. -/
theorem Booked.ne_of_refused {s : Server} (hb : Booked F id us s) (hlaw : F.commit.Lawful) (hd : Distinct F us)
    {q : Request} (hq : q ∈ requests F us) {status : Status} (hrefused : (q.proposal, status) ∈ decisions us)
    (hne : status ≠ .ok) {data : Bytes} (hknown : Known F id (fun _ => False) us data) : data ≠ q.data := by
  rintro rfl
  obtain ⟨commit, hcommit, hown, hnumber⟩ := hb.unpack hlaw hq
  obtain ⟨q', hq', -, hnumber', htaken⟩ := hknown.request_of_number hb hlaw hcommit hown
  obtain rfl := hb.eq_of_commitId hd hq' hq (hnumber'.trans hnumber)
  -- The proposal was decided once.
  have hnodup : ((decisions us).map Prod.fst).Nodup := by
    have hnumbers := hb.nodup_numbers hd
    have hproposals : ((requests F us).map Request.proposal).Nodup := by
      refine List.Nodup.of_map Proposal.commitId ?_
      rw [List.map_map]
      exact hnumbers
    rw [← hb.proposed] at hproposals
    exact (List.nodup_append.mp hproposals).1
  have heq := List.inj_on_of_nodup_map hnodup hrefused htaken rfl
  exact hne (congrArg Prod.snd heq)

/-- A client that is told too early is told so before the store comes to its entry. -/
theorem Ordered.not_applied (ho : Ordered F id us t.before) (hb : Booked F id us t.before)
    (hlaw : F.commit.Lawful) {commitId : UInt32} {status : Status}
    (ht : Takes F t (.delProposed commitId status)) {q : Request} (hq : q ∈ requests F us)
    (hnumber : q.commitId = commitId) :
    ∀ e ∈ appliedEntries (us ++ [t]), e.data ≠ q.data := by
  intro e he heq
  obtain ⟨commit, hcommit, hown, hcommitId⟩ := hb.unpack hlaw hq
  have happlied : applied t = none := by
    unfold applied
    rw [ht.taskTaken]
    rfl
  unfold appliedEntries at he
  rw [List.filterMap_append, List.filterMap_cons_none happlied, List.filterMap_nil, List.append_nil] at he
  obtain ⟨u, hu, hue⟩ := List.mem_filterMap.mp he
  unfold Ordered posted at ho
  rw [ht.tasks, List.pairwise_append] at ho
  have hbefore := ho.2.2 _ (List.mem_filterMap.mpr ⟨u, hu, taskTaken_of_applied hue⟩) _ List.mem_cons_self
  refine hbefore e rfl commit (by rw [heq]; exact hcommit) hown status ?_
  rw [hcommitId, hnumber]

/-- The store takes the task that is the first one. -/
theorem takes_of_taskTaken (h : t.before.handle F t.event = .ok t.after) {x : StoreTask}
    (htaken : taskTaken t = some x) : Takes F t x := by
  have hnot : taskTaken t ≠ none := by
    rw [htaken]
    exact nofun
  cases happens h with
  | works ht => exact absurd ht.taskTaken hnot
  | rests ht => exact absurd ht.taskTaken hnot
  | decides ht => exact absurd ht.taskTaken hnot
  | asks ht => exact absurd ht.taskTaken hnot
  | takes ht =>
    obtain rfl := Option.some.inj (htaken.symm.trans ht.taskTaken)
    exact ht

/-- When a client is told too early, the store has come to the task of its proposal. -/
theorem tooEarly_eq_some {callback : ℕ} (h : tooEarly t = some callback) : ∃ commitId,
    taskTaken t = some (.delProposed commitId .ok) ∧
      t.before.store.pendingRequests.lookup commitId = some callback := by
  unfold tooEarly at h
  split at h
  · next commitId htaken => exact ⟨commitId, htaken, h⟩
  · cases h

/-- The answer to the proposal of a deletion is too early. -/
theorem Takes.tooEarly {commitId : UInt32} (ht : Takes F t (.delProposed commitId .ok)) {r : Reply}
    (hr : r ∈ t.after.replies) : Server.tooEarly t = some r.callback := by
  obtain ⟨k, hk, hlookup, -⟩ := ht.reply hr
  obtain rfl : commitId = k := congrArg Prod.fst (Option.some.inj hk)
  unfold Server.tooEarly
  rw [ht.taskTaken]
  exact hlookup

/-! ## Runs -/

/-- The clients of a server are answered soundly in a run. -/
structure RepliesSound (F : Formats) (ts : List (Turn Server ServerEvent)) : Prop where
  /-- A client is told of success only after its command was committed, and applied to the keys. -/
  ok : Trace.Along (fun us t => ∀ r ∈ t.after.replies, r.status = .ok → ∃ q ∈ requests F us,
    q.callback = r.callback ∧ ∃ e ∈ appliedEntries (us ++ [t]), e.data = q.data ∧ e ∈ committedEntries us) ts
  /-- No client is answered twice. -/
  once : ((answers ts).map Reply.callback).Nodup
  /-- The command of a client that is told of an error is never applied, nor sent to another node. -/
  refused : ∀ r ∈ answers ts, r.status ≠ .ok → ∃ q ∈ requests F ts, q.callback = r.callback ∧
    (∀ e ∈ appliedEntries ts, e.data ≠ q.data) ∧ ∀ e ∈ sentEntries ts, e.Carries fun data => data ≠ q.data

section Runs

variable {peers : ℕ} {device : RandomDevice} {disk : Disk} {s₀ s : Server}
  {ts : List (Turn Server ServerEvent)}

/-- A server that was just started, with no command of its own in its log but those of the past. -/
theorem start_sources (hstart : Server.start F id peers device disk = .ok s₀)
    (hlog : s₀.node.node.raft.raftLog.Carries fun data => OwnCommand F id data → past data) :
    Booked F id [] s₀ ∧ Sources F id past [] s₀ := by
  unfold Server.start at hstart
  obtain ⟨⟨n, data⟩, hn, hstart⟩ := bind_eq_ok.mp hstart
  obtain ⟨store, hstore, hstart⟩ := bind_eq_ok.mp hstart
  cases hstart
  obtain ⟨hcalls, hmsgs⟩ := RaftNode.start_silent hn
  -- The store starts without requests, whatever its data are.
  have hempty : store.nextRequestId = 0 ∧ store.pendingRequests = ∅ := by
    unfold RedisStore.new at hstore
    split_ifs at hstore
    · cases hstore
      exact ⟨rfl, rfl⟩
    · cases hstore
      exact ⟨rfl, rfl⟩
  have hnone : ∀ c ∈ n.calls, c.Passes (Known F id past []) [] := by
    rw [hcalls]
    exact nofun
  constructor
  · refine ⟨(RaftNode.start_spec hn).id, hempty.1, rfl, nofun, ?_, nofun, List.nodup_nil, rfl⟩
    intro k callback hk
    rw [show ({ node := n, store := store } : Server).store.pendingRequests = ∅ from hempty.2,
      AList.lookup_empty] at hk
    cases hk
  · refine ⟨⟨⟨?_, ?_⟩, hnone⟩, nofun, nofun⟩
    · exact ⟨fun e he => (hlog.unstable e he).mono fun data h hown => Or.inl (h hown),
        fun e he => (hlog.storage e he).mono fun data h hown => Or.inl (h hown)⟩
    · rw [hmsgs]
      exact nofun

/-- Nothing is posted at the start. -/
theorem start_tasks (hstart : Server.start F id peers device disk = .ok s₀) : s₀.tasks = [] := by
  unfold Server.start at hstart
  obtain ⟨⟨n, data⟩, -, hstart⟩ := bind_eq_ok.mp hstart
  obtain ⟨store, -, hstart⟩ := bind_eq_ok.mp hstart
  cases hstart
  rfl

/-- What holds of the requests and of the commands throughout a run. -/
theorem Run.sources (hstart : Server.start F id peers device disk = .ok s₀) (hrun : Run F s₀ ts s)
    (hlog : s₀.node.node.raft.raftLog.Carries fun data => OwnCommand F id data → past data)
    (hc : OwnCallbacks F ts) (hg : Trace.Along (GenuineSince F id past) ts) :
    Trace.Along (fun us t => Booked F id us t.before ∧ Sources F id past us t.before) ts ∧
      Booked F id ts s ∧ Sources F id past ts s := by
  refine Trace.along (P := fun us s => Booked F id us s ∧ Sources F id past us s)
    (Q := fun us t => OwnCallbacks F (us ++ [t]) ∧ GenuineSince F id past us t) ?_ hrun ?_
    (start_sources hstart hlog)
  · rintro us t hstep ⟨hc, hg⟩ ⟨hb, hs⟩
    exact ⟨hb.step hstep hc, hs.step hstep hg⟩
  · rintro us t vs rfl
    refine ⟨?_, hg us t vs rfl⟩
    rw [List.append_cons] at hc
    exact hc.of_append

/-- What holds in addition, as long as no number is given twice, of a node without a past. -/
theorem Run.ordered (hrun : Run F s₀ ts s) (hlaw : F.commit.Lawful) (hd : Distinct F ts)
    (halong : Trace.Along (fun us t => Booked F id us t.before ∧
      Sources F id (fun _ => False) us t.before) ts) (hstart : s₀.tasks = []) :
    Trace.Along (fun us t => Ordered F id us t.before) ts := by
  refine (Trace.along (P := Ordered F id) (Q := fun us t => Distinct F us ∧ Booked F id us t.before ∧
    Sources F id (fun _ => False) us t.before) ?_ hrun ?_ ?_).1
  · rintro us t hstep ⟨hd, hb, hs⟩ ho
    exact ho.step hstep hs hb hlaw hd
  · rintro us t vs rfl
    exact ⟨hd.of_append, halong us t vs rfl⟩
  · unfold Ordered posted
    rw [hstart]
    exact List.Pairwise.nil

/-- In a run over a log without commands of its own, in which no number is given twice, the clients are
answered soundly exactly if none that asked to delete keys is told too early. -/
theorem replies_sound_iff (hstart : Server.start F id peers device disk = .ok s₀) (hrun : Run F s₀ ts s)
    (hlaw : F.commit.Lawful) (hlog : s₀.node.node.raft.raftLog.Carries fun data => ¬OwnCommand F id data)
    (hd : Distinct F ts) (hg : Trace.Along (Genuine F id) ts) :
    RepliesSound F ts ↔ ∀ t ∈ ts, tooEarly t = none := by
  have hpast : s₀.node.node.raft.raftLog.Carries fun data => OwnCommand F id data → False := hlog
  have hsince : Trace.Along (GenuineSince F id fun _ => False) ts := fun us t vs heq => (hg us t vs heq).since
  obtain ⟨halong, hb, hs⟩ := Run.sources hstart hrun hpast hd.callbacks hsince
  have hordered := Run.ordered hrun hlaw hd halong (start_tasks hstart)
  have hd' : ∀ us t vs, ts = us ++ t :: vs → Distinct F us := by
    rintro us t vs rfl
    exact hd.of_append
  have hstep : ∀ us t vs, ts = us ++ t :: vs → t.before.handle F t.event = .ok t.after := by
    rintro us t vs rfl
    exact hrun.step_mem (List.mem_append_right _ List.mem_cons_self)
  constructor
  · intro hsound t ht
    obtain ⟨us, vs, heq⟩ := List.append_of_mem ht
    obtain ⟨hb, hs⟩ := halong us t vs heq
    refine Option.eq_none_iff_forall_not_mem.mpr fun callback hearly => ?_
    obtain ⟨commitId, htaken, hlookup⟩ := tooEarly_eq_some hearly
    -- The client is told of success, and the store has not come to its entry.
    obtain ⟨⟨q, hq, hnumber, hcallback⟩, -⟩ := hb.waiting commitId callback hlookup
    have ht := takes_of_taskTaken (hstep us t vs heq) htaken
    have hmem : (⟨callback, .ok⟩ : Reply) ∈ t.after.replies := ht.mem_replies rfl hlookup
    obtain ⟨q', hq', hcallback', e, he, hdata, -⟩ := hsound.ok us t vs heq _ hmem rfl
    obtain rfl := OwnCallbacks.eq_of_callback (hd' us t vs heq).callbacks hq hq'
      (hcallback.trans hcallback'.symm)
    exact (hordered us t vs heq).not_applied hb hlaw ht hq hnumber e he hdata
  · intro hearly
    refine ⟨?_, hb.nodup, ?_⟩
    · intro us t vs heq r hr hok
      obtain ⟨hb, hs⟩ := halong us t vs heq
      obtain ⟨x, ht, q, hq, hqc, hx⟩ := hb.reply (hstep us t vs heq) hr
      refine ⟨q, hq, hqc, ?_⟩
      rw [hok] at hx
      obtain rfl | ⟨e, happlied, hdata, hcommitted⟩ := hs.applied_of_ok hb hlaw (hd' us t vs heq) ht hq hx
      · have hnot := hearly t (by rw [heq]; exact List.mem_append_right _ List.mem_cons_self)
        rw [ht.tooEarly hr] at hnot
        cases hnot
      · refine ⟨e, ?_, hdata, hcommitted⟩
        unfold appliedEntries
        rw [List.filterMap_append, List.filterMap_cons_some happlied]
        exact List.mem_append_right _ List.mem_cons_self
    · intro r hr hne
      obtain ⟨t, ht, hrt⟩ := List.mem_flatMap.mp hr
      obtain ⟨us, vs, heq⟩ := List.append_of_mem ht
      obtain ⟨hb', hs'⟩ := halong us t vs heq
      obtain ⟨x, ht, q, hq, hqc, hx⟩ := hb'.reply (hstep us t vs heq) hrt
      have hrefused := hs'.refused_of_error hb' (hd' us t vs heq) ht hq hx hne
      -- What was asked and decided then is asked and decided at the end.
      have hq' : q ∈ requests F ts := by
        rw [heq]
        unfold requests
        rw [List.filterMap_append]
        exact List.mem_append_left _ hq
      have hrefused' : (q.proposal, r.status) ∈ decisions ts := by
        rw [heq]
        unfold decisions
        rw [List.filterMap_append]
        exact List.mem_append_left _ hrefused
      refine ⟨q, hq', hqc, fun e he => ?_, fun e he => ?_⟩
      · exact hb.ne_of_refused hlaw hd hq' hrefused' hne (hs.posted _ (mem_posted_of_applied he)).2
      · exact (hs.sent e he).mono fun data hknown => hb.ne_of_refused hlaw hd hq' hrefused' hne hknown

/-- A client sets a key twice: at first there is no leader, and then the leader commits its command. -/
def setsTwice : List ServerEvent :=
  let command : RaftCommit :=
    { nodeId := 1, commitId := 1, redisData := { type := kCommitSet, strs := [[107], [118]] } }
  let append : Message := { type := .msgApp, toId := 1, fromId := 2, term := 1, index := 3, logTerm := 1 }
  [.pull, .set [107] [118] 5, .propose, .task, .process { append with commit := 3 }, .pull,
    .set [107] [118] 7, .propose, .pull, .task,
    .process { append with
      entries := [{ term := 1, index := 4, data := msgpackFormats.commit.pack command }]
      commit := 4 }, .pull, .task]

/-- The clients of that run. -/
theorem replies_sound_iff_setsTwice : Outcome.Returns firstServer fun s₀ =>
    let ts := (Trace.run (Server.handle msgpackFormats) s₀ setsTwice).1
    RepliesSound msgpackFormats ts ∧
      (answers ts).map (fun r => (r.callback, r.status.isOk)) = [(5, false), (7, true)] := by
  have hmeets : Outcome.Returns firstServer fun s₀ =>
      let ts := (Trace.run (Server.handle msgpackFormats) s₀ setsTwice).1
      (s₀.node.node.raft.raftLog.Carries fun data => ¬OwnCommand msgpackFormats 1 data) ∧
        Distinct msgpackFormats ts ∧ Trace.Along (Genuine msgpackFormats 1) ts ∧
        (∀ t ∈ ts, tooEarly t = none) ∧
        (answers ts).map (fun r => (r.callback, r.status.isOk)) = [(5, false), (7, true)] := by
    decide +kernel
  obtain ⟨s₀, hs₀, hlog, hdistinct, hgenuine, hearly, hanswers⟩ := hmeets
  have hsound := replies_sound_iff hs₀ (Trace.of_run _ _ _) (codec_lawful raftCommitFormat_selfDelimiting)
    hlog hdistinct hgenuine
  exact ⟨s₀, hs₀, hsound.mpr hearly, hanswers⟩

/-- A client deletes a key, and is told of success before the leader has its command. -/
def deletesOnce : List ServerEvent :=
  let append : Message :=
    { type := .msgApp, toId := 1, fromId := 2, term := 1, index := 3, logTerm := 1, commit := 3 }
  [.pull, .process append, .pull, .del [[107]] 7, .propose, .task]

/-- So not every client is answered soundly. -/
theorem deletion_told_early : ¬∀ (F : Formats) (id peers : ℕ) (device : RandomDevice) (disk : Disk)
    (s₀ s : Server) (ts : List (Turn Server ServerEvent)), Server.start F id peers device disk = .ok s₀ →
      Run F s₀ ts s → F.commit.Lawful →
        (s₀.node.node.raft.raftLog.Carries fun data => ¬OwnCommand F id data) →
          Distinct F ts → Trace.Along (Genuine F id) ts → RepliesSound F ts := by
  intro hall
  have hmeets : Outcome.Returns firstServer fun s₀ =>
      let ts := (Trace.run (Server.handle msgpackFormats) s₀ deletesOnce).1
      (s₀.node.node.raft.raftLog.Carries fun data => ¬OwnCommand msgpackFormats 1 data) ∧
        Distinct msgpackFormats ts ∧ Trace.Along (Genuine msgpackFormats 1) ts ∧
        answers ts = [⟨7, .ok⟩] ∧ appliedEntries ts = [] := by
    decide +kernel
  obtain ⟨s₀, hs₀, hlog, hdistinct, hgenuine, hanswers, happlied⟩ := hmeets
  have hsound := hall _ _ _ _ _ _ _ _ hs₀ (Trace.of_run _ _ _) (codec_lawful raftCommitFormat_selfDelimiting)
    hlog hdistinct hgenuine
  have hr : (⟨7, .ok⟩ : Reply) ∈ answers (Trace.run (Server.handle msgpackFormats) s₀ deletesOnce).1 := by
    rw [hanswers]
    exact List.mem_cons_self
  obtain ⟨t, ht, hrt⟩ := List.mem_flatMap.mp hr
  obtain ⟨us, vs, heq⟩ := List.append_of_mem ht
  obtain ⟨q, -, -, e, he, -⟩ := hsound.ok us t vs heq _ hrt rfl
  have hall : e ∈ appliedEntries (Trace.run (Server.handle msgpackFormats) s₀ deletesOnce).1 := by
    rw [heq, List.append_cons]
    unfold appliedEntries
    rw [List.filterMap_append]
    exact List.mem_append_left _ he
  rw [happlied] at hall
  cases hall

end Runs

end Server

end RaftCpp
