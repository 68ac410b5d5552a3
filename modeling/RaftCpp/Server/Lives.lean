import RaftCpp.Server.Replies

/-!
# The lives of a server

A node that stops and starts again numbers its requests from zero again, while the commands of its earlier
lives are in the log under the same numbers. Over any number of lives, a client that sets a key is told of
success when the store comes to the entry of its own request, unless it comes to that of an earlier one with
the same number.
-/

namespace RaftCpp

open Outcome

/-- A life of a server, from a start to a stop. -/
structure Life where
  /-- The server as it was started. -/
  start : Server
  /-- What happened since. -/
  steps : List (Turn Server ServerEvent)

namespace Server

variable {F : Formats} {id : ℕ} {origin : Entry → ℕ × ℕ} {earlier lives : List Life} {l : Life}
  {us : List (Turn Server ServerEvent)} {t : Turn Server ServerEvent}

/-- A command that was taken in one of the lives. -/
def TakenIn (lives : List Life) (data : Bytes) : Prop :=
  ∃ l ∈ lives, ∃ d ∈ decisions l.steps, d.2 = .ok ∧ d.1.data = data

instance (lives : List Life) (data : Bytes) : Decidable (TakenIn lives data) :=
  inferInstanceAs (Decidable (∃ l ∈ lives, ∃ d ∈ decisions l.steps, d.2 = .ok ∧ d.1.data = data))

/-- A server lives after other lives: it was started over any files, and its commands that are in them or that
the peers send are of these lives, or were sent in this one. -/
structure LivesOn (F : Formats) (id : ℕ) (earlier : List Life) (l : Life) : Prop where
  /-- It was started. -/
  start : ∃ peers device disk, Server.start F id peers device disk = .ok l.start
  /-- It ran. -/
  run : ∃ s, Run F l.start l.steps s
  /-- The clients have their own callbacks. -/
  callbacks : OwnCallbacks F l.steps
  /-- What is in the files. -/
  log : l.start.node.node.raft.raftLog.Carries fun data => OwnCommand F id data → TakenIn earlier data
  /-- What the peers send. -/
  genuine : Trace.Along (GenuineSince F id (TakenIn earlier)) l.steps

/-! ## The requests that entries are of -/

/-- The entry is of a request: the one with this position in this life, whose proposal was taken. -/
def IsOf (F : Formats) (lives : List (List (Turn Server ServerEvent))) (p : ℕ × ℕ) (e : Entry) : Prop :=
  ∃ us ∈ lives[p.1]?, ∃ q ∈ (requests F us)[p.2]?, q.data = e.data ∧ (q.proposal, Status.ok) ∈ decisions us

instance (F : Formats) (lives : List (List (Turn Server ServerEvent))) (p : ℕ × ℕ) (e : Entry) :
    Decidable (IsOf F lives p e) :=
  inferInstanceAs (Decidable (∃ us ∈ lives[p.1]?, ∃ q ∈ (requests F us)[p.2]?,
    q.data = e.data ∧ (q.proposal, Status.ok) ∈ decisions us))

/-- What has happened up to a step of a life. -/
def happened (earlier : List Life) (us : List (Turn Server ServerEvent)) :
    List (List (Turn Server ServerEvent)) :=
  earlier.map Life.steps ++ [us]

/-- The entries that the store comes to are attributed to the requests that they are of. -/
def Attributed (F : Formats) (id : ℕ) (origin : Entry → ℕ × ℕ) (earlier : List Life) (l : Life) : Prop :=
  Trace.Along (fun us t => ∀ e ∈ applied t, OwnCommand F id e.data →
    (∃ p, IsOf F (happened earlier us) p e) → IsOf F (happened earlier us) (origin e) e) l.steps

/-- A request was made before another one. -/
def Before (p p' : ℕ × ℕ) : Prop := p.1 < p'.1 ∨ (p.1 = p'.1 ∧ p.2 < p'.2)

instance (p p' : ℕ × ℕ) : Decidable (Before p p') :=
  inferInstanceAs (Decidable (p.1 < p'.1 ∨ (p.1 = p'.1 ∧ p.2 < p'.2)))

/-- A client that sets a key is told of success only when the store comes to the entry of that request. -/
def ReplyMatches (F : Formats) (origin : Entry → ℕ × ℕ) (earlier : List Life)
    (us : List (Turn Server ServerEvent)) (t : Turn Server ServerEvent) : Prop :=
  ∀ r ∈ t.after.replies, r.status = .ok → ∀ i, ∀ q ∈ (requests F us)[i]?,
    q.kind = .set → q.callback = r.callback →
      ∃ e, applied t = some e ∧ origin e = (earlier.length, i) ∧ e.data = q.data ∧ e ∈ committedEntries us

/-- It is so at every step of a life. -/
def RepliesMatch (F : Formats) (origin : Entry → ℕ × ℕ) (earlier : List Life) (l : Life) : Prop :=
  Trace.Along (ReplyMatches F origin earlier) l.steps

/-- The store comes to the entry of an earlier request, while one that sets a key waits under its number. -/
def MistakenEntry (F : Formats) (id : ℕ) (origin : Entry → ℕ × ℕ) (earlier : List Life)
    (us : List (Turn Server ServerEvent)) (t : Turn Server ServerEvent) : Prop :=
  ∃ e ∈ applied t, ∃ commit ∈ F.commit.unpack e.data, commit.nodeId.toNat = id ∧
    ∃ p ∈ (requests F us).zipIdx, p.1.kind = .set ∧
      t.before.store.pendingRequests.lookup commit.commitId = some p.1.callback ∧
      Before (origin e) (earlier.length, p.2)

/-- The store comes to the task of an accepted deletion, while a request that sets a key waits under its
number. -/
def MistakenDeletion (F : Formats) (us : List (Turn Server ServerEvent)) (t : Turn Server ServerEvent) :
    Prop :=
  ∃ callback ∈ tooEarly t, ∃ q ∈ requests F us, q.kind = .set ∧ q.callback = callback

instance (F : Formats) (id : ℕ) (origin : Entry → ℕ × ℕ) (earlier : List Life)
    (us : List (Turn Server ServerEvent)) (t : Turn Server ServerEvent) :
    Decidable (MistakenEntry F id origin earlier us t) :=
  inferInstanceAs (Decidable (∃ e ∈ applied t, ∃ commit ∈ F.commit.unpack e.data, commit.nodeId.toNat = id ∧
    ∃ p ∈ (requests F us).zipIdx, p.1.kind = .set ∧
      t.before.store.pendingRequests.lookup commit.commitId = some p.1.callback ∧
      Before (origin e) (earlier.length, p.2)))

instance (F : Formats) (us : List (Turn Server ServerEvent)) (t : Turn Server ServerEvent) :
    Decidable (MistakenDeletion F us t) :=
  inferInstanceAs (Decidable (∃ callback ∈ tooEarly t, ∃ q ∈ requests F us,
    q.kind = .set ∧ q.callback = callback))

/-- Nothing of the kind happens in a life. -/
def Unmistaken (F : Formats) (id : ℕ) (origin : Entry → ℕ × ℕ) (earlier : List Life) (l : Life) : Prop :=
  Trace.Along (fun us t => ¬MistakenEntry F id origin earlier us t ∧ ¬MistakenDeletion F us t) l.steps

instance (F : Formats) (id : ℕ) (origin : Entry → ℕ × ℕ) (earlier : List Life) (l : Life) :
    Decidable (Unmistaken F id origin earlier l) :=
  inferInstanceAs (Decidable (Trace.Along (fun us t => ¬MistakenEntry F id origin earlier us t ∧
    ¬MistakenDeletion F us t) l.steps))

/-! ## Who waits -/

/-- A callback waits under the number of its own request, which is the last one with that number. -/
def Latest (F : Formats) (us : List (Turn Server ServerEvent)) (s : Server) : Prop :=
  ∀ k callback, s.store.pendingRequests.lookup k = some callback → ∃ xs q ys, requests F us = xs ++ q :: ys ∧
    q.commitId = k ∧ q.callback = callback ∧ ∀ q' ∈ ys, q'.commitId ≠ k

/-- Where no client asks, it is enough that whoever waits has waited before. -/
theorem Latest.of_lookup (hl : Latest F us t.before) (hrequested : requested F t = none)
    (hlookup : ∀ k callback, t.after.store.pendingRequests.lookup k = some callback →
      t.before.store.pendingRequests.lookup k = some callback) : Latest F (us ++ [t]) t.after := by
  intro k callback hk
  rw [requests_snoc us hrequested]
  exact hl k callback (hlookup k callback hk)

/-- A client that asks takes the place of whoever waits under its number. -/
theorem Latest.asks (hl : Latest F us t.before) {q : Request} (ht : Asks F t q) :
    Latest F (us ++ [t]) t.after := by
  intro k callback hk
  rw [requests_snoc_some us ht.requested]
  rw [ht.pendingRequests] at hk
  by_cases hself : k = q.commitId
  · subst hself
    rw [AList.lookup_insert] at hk
    cases hk
    exact ⟨requests F us, q, [], rfl, rfl, rfl, fun _ h => by cases h⟩
  · rw [AList.lookup_insert_ne hself] at hk
    obtain ⟨xs, p, ys, heq, hnumber, hcallback, hlast⟩ := hl k callback hk
    refine ⟨xs, p, ys ++ [q], ?_, hnumber, hcallback, fun q' hq' => ?_⟩
    · rw [heq, List.append_assoc, List.cons_append]
    · obtain hq' | hq' := List.mem_append.mp hq'
      · exact hlast q' hq'
      · obtain rfl := List.mem_singleton.mp hq'
        exact Ne.symm hself

/-- Who waits, after one more step. -/
theorem Latest.step (hl : Latest F us t.before) (h : t.before.handle F t.event = .ok t.after) :
    Latest F (us ++ [t]) t.after := by
  cases happens h with
  | works ht => exact hl.of_lookup ht.requested fun k callback hk => by rwa [ht.store] at hk
  | rests ht => exact hl.of_lookup ht.requested fun k callback hk => by rwa [ht.store] at hk
  | decides ht => exact hl.of_lookup ht.requested fun k callback hk => by rwa [ht.store] at hk
  | asks ht => exact hl.asks ht
  | takes ht => exact hl.of_lookup ht.requested fun k callback hk => (ht.waited hk).1

/-- The position of a request is known by its callback. -/
theorem OwnCallbacks.eq_index (h : OwnCallbacks F us) {i j : ℕ} {q q' : Request}
    (hq : (requests F us)[i]? = some q) (hq' : (requests F us)[j]? = some q')
    (heq : q.callback = q'.callback) : i = j := by
  have hi : ((requests F us).map Request.callback)[i]? = some q.callback := by
    rw [List.getElem?_map, hq]
    rfl
  have hj : ((requests F us).map Request.callback)[j]? = some q.callback := by
    rw [List.getElem?_map, hq', heq]
    rfl
  exact (List.getElem?_inj (List.getElem?_eq_some_iff.mp hi).1 h).mp (hi.trans hj.symm)

/-- Whoever waits under a number has asked after all others with that number. -/
theorem Latest.le (hl : Latest F us t.before) (hc : OwnCallbacks F us) {k : UInt32} {callback : ℕ}
    (hk : t.before.store.pendingRequests.lookup k = some callback) {i j : ℕ} {q q' : Request}
    (hq : (requests F us)[i]? = some q) (hcallback : q.callback = callback)
    (hq' : (requests F us)[j]? = some q') (hnumber : q'.commitId = k) : j ≤ i := by
  obtain ⟨xs, p, ys, heq, -, hp, hlast⟩ := hl k callback hk
  have hpos : (requests F us)[xs.length]? = some p := by
    rw [heq, List.getElem?_append_right (Nat.le_refl _), Nat.sub_self]
    rfl
  obtain rfl := hc.eq_index hq hpos (hcallback.trans hp.symm)
  by_contra hlt
  -- The later request is one of those that come after.
  rw [heq, List.getElem?_append_right (by omega), List.getElem?_cons, if_neg (by omega)] at hq'
  exact hlast q' (List.mem_of_getElem? hq') hnumber

/-! ## What holds in each life -/

/-- What holds before a step of a life. -/
structure Lived (F : Formats) (id : ℕ) (earlier : List Life) (us : List (Turn Server ServerEvent))
    (t : Turn Server ServerEvent) : Prop where
  /-- It is a step of the server. -/
  step : t.before.handle F t.event = .ok t.after
  /-- The clients have their own callbacks. -/
  callbacks : OwnCallbacks F us
  /-- The requests. -/
  booked : Booked F id us t.before
  /-- The commands. -/
  sources : Sources F id (TakenIn earlier) us t.before
  /-- Who waits. -/
  latest : Latest F us t.before

/-- It holds throughout each life, and at its end it is known what has become of the requests. -/
theorem LivesOn.along (h : LivesOn F id earlier l) :
    Trace.Along (Lived F id earlier) l.steps ∧ ∃ s, Booked F id l.steps s := by
  obtain ⟨⟨peers, device, disk, hstart⟩, ⟨s, hrun⟩, hc, hlog, hg⟩ := h
  obtain ⟨halong, hb, -⟩ := Run.sources hstart hrun hlog hc hg
  have hlatest : Trace.Along (fun us t => Latest F us t.before) l.steps := by
    refine (Trace.along (P := Latest F) (Q := fun _ _ => True) ?_ hrun (fun _ _ _ _ => trivial) ?_).1
    · exact fun us t hstep _ hl => hl.step hstep
    · exact fun k callback hk => by
        obtain ⟨⟨q, hq, -⟩, -⟩ := (start_sources hstart hlog).1.waiting k callback hk
        cases hq
  refine ⟨fun us t vs heq => ?_, s, hb⟩
  obtain ⟨hb, hs⟩ := halong us t vs heq
  refine ⟨?_, ?_, hb, hs, hlatest us t vs heq⟩
  · rw [heq] at hrun
    exact hrun.step_mem (List.mem_append_right _ List.mem_cons_self)
  · rw [heq] at hc
    exact hc.of_append

/-- A request of an earlier life. -/
theorem getElem?_happened (earlier later : List Life) (l : Life) (us : List (Turn Server ServerEvent)) :
    (happened (earlier ++ l :: later) us)[earlier.length]? = some l.steps := by
  unfold happened
  rw [List.map_append, List.append_assoc, List.getElem?_append_right (by rw [List.length_map]),
    List.length_map, Nat.sub_self]
  rfl

/-- A life that goes on comes after the others. -/
theorem getElem?_happened_self (earlier : List Life) (us : List (Turn Server ServerEvent)) :
    (happened earlier us)[earlier.length]? = some us := by
  unfold happened
  rw [List.getElem?_append_right (by rw [List.length_map]), List.length_map, Nat.sub_self]
  rfl

/-- A command of the node's own that the store comes to is of a request of this life or of an earlier one. -/
theorem Lived.isOf (h : Lived F id earlier us t) (hearlier : EachLife (LivesOn F id) earlier) {e : Entry}
    (ht : Takes F t (.readCommit e)) (hown : OwnCommand F id e.data) :
    ∃ p, IsOf F (happened earlier us) p e := by
  obtain ⟨-, hknown⟩ := h.sources.posted _ ht.mem_posted
  obtain ⟨l, hl, d, hd, hok, hdata⟩ | ⟨q, hq, hdata, htaken⟩ := hknown.request h.booked hown
  · obtain ⟨before, later, rfl⟩ := List.append_of_mem hl
    obtain ⟨-, s, hb⟩ := (hearlier before l later rfl).along
    obtain ⟨q, hq, hqd⟩ := hb.request_of_decided hd
    obtain ⟨i, hi⟩ := List.mem_iff_getElem?.mp hq
    refine ⟨(before.length, i), l.steps, getElem?_happened before later l us, q, hi, ?_, ?_⟩
    · rw [← hdata, ← hqd]
      rfl
    · rw [hqd, ← hok]
      exact hd
  · obtain ⟨i, hi⟩ := List.mem_iff_getElem?.mp hq
    exact ⟨(earlier.length, i), us, getElem?_happened_self earlier us, q, hi, hdata, htaken⟩

/-- An entry under the number of whoever waits is of the request that waits, or of an earlier one. -/
theorem Lived.before_or_eq (h : Lived F id earlier us t) (hlaw : F.commit.Lawful) {e : Entry} {p : ℕ × ℕ}
    (hp : IsOf F (happened earlier us) p e) {commit : RaftCommit}
    (hcommit : F.commit.unpack e.data = some commit)
    {callback : ℕ} (hk : t.before.store.pendingRequests.lookup commit.commitId = some callback) {i : ℕ}
    {q : Request} (hq : (requests F us)[i]? = some q) (hcallback : q.callback = callback) :
    Before p (earlier.length, i) ∨ p = (earlier.length, i) ∧ e.data = q.data := by
  obtain ⟨us', hus', q', hq', hdata, -⟩ := hp
  obtain ⟨n, j⟩ := p
  dsimp only at hus' hq'
  by_cases hn : n < earlier.length
  · exact Or.inl (Or.inl hn)
  -- It is of this life.
  have hlen : n < (happened earlier us).length := (List.getElem?_eq_some_iff.mp hus').1
  unfold happened at hlen
  rw [List.length_append, List.length_map, List.length_singleton] at hlen
  obtain rfl : n = earlier.length := by omega
  rw [getElem?_happened_self] at hus'
  obtain rfl := Option.some.inj hus'
  have hnumber : q'.commitId = commit.commitId := by
    obtain ⟨commit', hcommit', -, hnumber⟩ := h.booked.unpack hlaw (List.mem_of_getElem? hq')
    rw [hdata, hcommit] at hcommit'
    cases hcommit'
    exact hnumber.symm
  have hle := h.latest.le h.callbacks hk hq hcallback hq' hnumber
  obtain hlt | rfl := Nat.lt_or_eq_of_le hle
  · exact Or.inl (Or.inr ⟨rfl, hlt⟩)
  · refine Or.inr ⟨rfl, ?_⟩
    rw [Option.mem_def, hq] at hq'
    cases hq'
    exact hdata.symm

/-! ## The answers -/

/-- A step in which an entry is mistaken for that of the request that waits. -/
theorem Lived.not_mistakenEntry (h : Lived F id earlier us t) (hmatches : ReplyMatches F origin earlier us t) :
    ¬MistakenEntry F id origin earlier us t := by
  rintro ⟨e, happlied, commit, hcommit, hid, ⟨q, i⟩, hq, hkind, hk, hbefore⟩
  have hi := List.mk_mem_zipIdx_iff_getElem?.mp hq
  have ht := takes_of_taskTaken h.step (taskTaken_of_applied happlied)
  have hx : (StoreTask.readCommit e).answering F t.before.node.id = some (commit.commitId, .ok) := by
    unfold StoreTask.answering
    dsimp only
    rw [Option.mem_def.mp hcommit, h.booked.sameId]
    exact if_pos hid
  obtain ⟨e', happlied', horigin, -⟩ := hmatches _ (ht.mem_replies hx hk) rfl i q hi hkind rfl
  obtain rfl := Option.some.inj (Eq.trans (Eq.symm happlied) happlied')
  -- The request is not before itself.
  rw [horigin] at hbefore
  unfold Before at hbefore
  omega

/-- A step in which the proposal of a deletion is mistaken for the entry of the request that waits. -/
theorem Lived.not_mistakenDeletion (h : Lived F id earlier us t)
    (hmatches : ReplyMatches F origin earlier us t) : ¬MistakenDeletion F us t := by
  rintro ⟨callback, hearly, q, hq, hkind, hcallback⟩
  obtain ⟨commitId, htaken, hk⟩ := tooEarly_eq_some hearly
  obtain ⟨i, hi⟩ := List.mem_iff_getElem?.mp hq
  have hmem := (takes_of_taskTaken h.step htaken).mem_replies rfl hk
  obtain ⟨e, happlied, -⟩ := hmatches _ hmem rfl i q hi hkind hcallback
  rw [taskTaken_of_applied happlied] at htaken
  cases htaken

/-- A client that sets a key is told of success for the entry of its own request exactly if nothing is mistaken
for it. -/
theorem Lived.replyMatches_iff (h : Lived F id earlier us t) (hlaw : F.commit.Lawful)
    (hearlier : EachLife (LivesOn F id) earlier)
    (horigin : ∀ e ∈ applied t, OwnCommand F id e.data → (∃ p, IsOf F (happened earlier us) p e) →
      IsOf F (happened earlier us) (origin e) e) :
    ReplyMatches F origin earlier us t ↔
      ¬MistakenEntry F id origin earlier us t ∧ ¬MistakenDeletion F us t := by
  constructor
  · exact fun hmatches => ⟨h.not_mistakenEntry hmatches, h.not_mistakenDeletion hmatches⟩
  rintro ⟨hentry, hdeletion⟩ r hr hok i q hq hkind hcallback
  obtain ⟨x, ht, -⟩ := h.booked.reply h.step hr
  obtain ⟨k, hx, hk, -⟩ := ht.reply hr
  rw [h.booked.sameId, hok] at hx
  obtain rfl | ⟨e, commit, rfl, hcommit, hid, rfl⟩ := answering_ok hx
  · exact absurd ⟨r.callback, ht.tooEarly hr, q, List.mem_of_getElem? hq, hkind, hcallback⟩ hdeletion
  have hown : OwnCommand F id e.data := ⟨commit, hcommit, by rw [← hid, UInt32.ofNat_toNat]⟩
  have hisOf := horigin e ht.applied hown (h.isOf hearlier ht hown)
  obtain hbefore | ⟨heq, hdata⟩ := h.before_or_eq hlaw hisOf hcommit hk hq hcallback
  · refine absurd ⟨e, ht.applied, commit, hcommit, hid, (q, i), ?_, hkind, ?_, hbefore⟩ hentry
    · exact List.mk_mem_zipIdx_iff_getElem?.mpr hq
    · rw [hk, hcallback]
  · obtain ⟨hcommitted, -⟩ := h.sources.posted _ ht.mem_posted
    exact ⟨e, ht.applied, heq, hdata, hcommitted⟩

/-- In any number of lives, the clients that set keys are told of success for the entries of their own requests
exactly if the store never comes to the entry of an earlier request, or to the proposal of a deletion, under
the number of one that waits. -/
theorem replies_match_iff (hlaw : F.commit.Lawful) (hlives : EachLife (LivesOn F id) lives)
    (horigin : EachLife (Attributed F id origin) lives) :
    EachLife (RepliesMatch F origin) lives ↔ EachLife (Unmistaken F id origin) lives := by
  have hstep : ∀ earlier l later, lives = earlier ++ l :: later → ∀ us t vs, l.steps = us ++ t :: vs →
      (ReplyMatches F origin earlier us t ↔
        ¬MistakenEntry F id origin earlier us t ∧ ¬MistakenDeletion F us t) := by
    intro earlier l later heq us t vs hsteps
    have hlived := (hlives earlier l later heq).along.1 us t vs hsteps
    refine hlived.replyMatches_iff hlaw ?_ (horigin earlier l later heq us t vs hsteps)
    rw [heq] at hlives
    exact hlives.of_append
  constructor
  · intro h earlier l later heq us t vs hsteps
    exact (hstep earlier l later heq us t vs hsteps).mp (h earlier l later heq us t vs hsteps)
  · intro h earlier l later heq us t vs hsteps
    exact (hstep earlier l later heq us t vs hsteps).mpr (h earlier l later heq us t vs hsteps)

/-! ## Two lives -/

/-- What is to be checked of a life: its clients, its files, its peers, and the attribution of its entries. -/
def Checks (F : Formats) (id : ℕ) (origin : Entry → ℕ × ℕ) (earlier : List Life) (l : Life) : Prop :=
  OwnCallbacks F l.steps ∧
    (l.start.node.node.raft.raftLog.Carries fun data => OwnCommand F id data → TakenIn earlier data) ∧
    Trace.Along (GenuineSince F id (TakenIn earlier)) l.steps ∧
    Trace.Along (fun us t => ∀ e ∈ applied t, OwnCommand F id e.data →
      IsOf F (happened earlier us) (origin e) e) l.steps

instance (F : Formats) (id : ℕ) (origin : Entry → ℕ × ℕ) (earlier : List Life) (l : Life) :
    Decidable (Checks F id origin earlier l) :=
  inferInstanceAs (Decidable (OwnCallbacks F l.steps ∧
    (l.start.node.node.raft.raftLog.Carries fun data => OwnCommand F id data → TakenIn earlier data) ∧
    Trace.Along (GenuineSince F id (TakenIn earlier)) l.steps ∧
    Trace.Along (fun us t => ∀ e ∈ applied t, OwnCommand F id e.data →
      IsOf F (happened earlier us) (origin e) e) l.steps))

/-- A life that passes. -/
theorem Checks.livesOn (h : Checks F id origin earlier l) {peers : ℕ} {device : RandomDevice} {disk : Disk}
    (hstart : Server.start F id peers device disk = .ok l.start) {s : Server}
    (hrun : Run F l.start l.steps s) : LivesOn F id earlier l ∧ Attributed F id origin earlier l := by
  obtain ⟨hc, hlog, hg, horigin⟩ := h
  refine ⟨⟨⟨peers, device, disk, hstart⟩, ⟨s, hrun⟩, hc, hlog, hg⟩, ?_⟩
  exact fun us t vs heq e he hown _ => horigin us t vs heq e he hown

/-- The first request to set a key, in the log. -/
def setEntry (index : ℕ) (value : UInt8) : Entry :=
  let command : RaftCommit :=
    { nodeId := 1, commitId := 0, redisData := { type := kCommitSet, strs := [[107], [value]] } }
  { term := 1, index := index, data := msgpackFormats.commit.pack command }

/-- A client sets a key, and the leader commits its command. -/
def setsInFirstLife : List ServerEvent :=
  let append : Message := { type := .msgApp, toId := 1, fromId := 2, term := 1, index := 3, logTerm := 1 }
  [.pull, .process { append with commit := 3 }, .pull, .set [107] [118] 5, .propose, .pull,
    .process { append with entries := [setEntry 4 118], commit := 4 }, .pull, .task, .task]

/-- After a clean stop, the server starts again. -/
def startedAgain (s : Server) : ServerResult Server :=
  Server.start msgpackFormats 1 3 { draws := fun _ => 0 }
    { wal := some s.node.wal.file.close, snapFiles := s.node.snapFiles }

/-- The store comes to the entry of the first life, and then a client sets the key again. -/
def setsLater : List ServerEvent :=
  let append : Message := { type := .msgApp, toId := 1, fromId := 2, term := 1, index := 4, logTerm := 1 }
  [.pull, .task, .process { append with commit := 4 }, .pull, .set [107] [119] 7, .propose, .pull,
    .process { append with entries := [setEntry 5 119], commit := 5 }, .pull, .task, .task]

/-- The clients of those two lives. -/
theorem replies_match_iff_setsLater : Outcome.Returns firstServer fun s₀ =>
    let r := Trace.run (Server.handle msgpackFormats) s₀ setsInFirstLife
    Outcome.Returns (startedAgain r.2) fun s₁ =>
      let r' := Trace.run (Server.handle msgpackFormats) s₁ setsLater
      EachLife (RepliesMatch msgpackFormats fun e => if e.index = 4 then (0, 0) else (1, 0))
          [⟨s₀, r.1⟩, ⟨s₁, r'.1⟩] ∧
        (answers r.1).map Reply.callback = [5] ∧ (answers r'.1).map Reply.callback = [7] := by
  have hmeets : Outcome.Returns firstServer fun s₀ =>
      let r := Trace.run (Server.handle msgpackFormats) s₀ setsInFirstLife
      let origin : Entry → ℕ × ℕ := fun e => if e.index = 4 then (0, 0) else (1, 0)
      let first : Life := ⟨s₀, r.1⟩
      Checks msgpackFormats 1 origin [] first ∧ Unmistaken msgpackFormats 1 origin [] first ∧
        (answers r.1).map Reply.callback = [5] ∧ Outcome.Returns (startedAgain r.2) fun s₁ =>
          let r' := Trace.run (Server.handle msgpackFormats) s₁ setsLater
          let second : Life := ⟨s₁, r'.1⟩
          Checks msgpackFormats 1 origin [first] second ∧ Unmistaken msgpackFormats 1 origin [first] second ∧
            (answers r'.1).map Reply.callback = [7] := by
    decide +kernel
  obtain ⟨s₀, hs₀, hchecks, hunmistaken, hanswers, s₁, hs₁, hchecks', hunmistaken', hanswers'⟩ := hmeets
  obtain ⟨hlives, horigin⟩ := hchecks.livesOn hs₀ (Trace.of_run _ _ _)
  obtain ⟨hlives', horigin'⟩ := hchecks'.livesOn hs₁ (Trace.of_run _ _ _)
  have hboth := replies_match_iff (codec_lawful raftCommitFormat_selfDelimiting)
    ((EachLife.nil.concat hlives).concat hlives') ((EachLife.nil.concat horigin).concat horigin')
  exact ⟨s₀, hs₀, s₁, hs₁, hboth.mpr ((EachLife.nil.concat hunmistaken).concat hunmistaken'), hanswers,
    hanswers'⟩

/-- A client sets the key again before the store comes to the entry of the first life. -/
def setsSooner : List ServerEvent := [.pull, .set [107] [119] 7, .task, .task]

/-- So it is told of success for that entry. -/
theorem earlier_life_answers : ¬∀ (F : Formats) (id : ℕ) (origin : Entry → ℕ × ℕ) (lives : List Life),
    F.commit.Lawful → EachLife (LivesOn F id) lives → EachLife (Attributed F id origin) lives →
      EachLife (RepliesMatch F origin) lives := by
  intro hall
  have hmeets : Outcome.Returns firstServer fun s₀ =>
      let r := Trace.run (Server.handle msgpackFormats) s₀ setsInFirstLife
      let first : Life := ⟨s₀, r.1⟩
      Checks msgpackFormats 1 (fun _ => (0, 0)) [] first ∧ Outcome.Returns (startedAgain r.2) fun s₁ =>
        let r' := Trace.run (Server.handle msgpackFormats) s₁ setsSooner
        let second : Life := ⟨s₁, r'.1⟩
        Checks msgpackFormats 1 (fun _ => (0, 0)) [first] second ∧
          ¬Unmistaken msgpackFormats 1 (fun _ => (0, 0)) [first] second := by
    decide +kernel
  obtain ⟨s₀, hs₀, hchecks, s₁, hs₁, hchecks', hmistaken⟩ := hmeets
  obtain ⟨hlives, horigin⟩ := hchecks.livesOn hs₀ (Trace.of_run _ _ _)
  obtain ⟨hlives', horigin'⟩ := hchecks'.livesOn hs₁ (Trace.of_run _ _ _)
  have hmatch := hall _ _ _ _ (codec_lawful raftCommitFormat_selfDelimiting)
    ((EachLife.nil.concat hlives).concat hlives') ((EachLife.nil.concat horigin).concat horigin')
  refine hmistaken fun us t vs heq => ?_
  have hlived := hlives'.along.1 us t vs heq
  have hmatches := hmatch [_] _ [] rfl us t vs heq
  exact ⟨hlived.not_mistakenEntry hmatches, hlived.not_mistakenDeletion hmatches⟩

end Server

end RaftCpp
