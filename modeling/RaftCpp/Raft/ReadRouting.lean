import RaftCpp.Raft.Leadership
import RaftCpp.Raft.ReadQueue

/-!
# Where the answers to reads go

A leader answers a read of its own application with a read state, and sends a message to any other node that
asked. The branch of a voter that is alone does not look at the sender: it answers itself.
-/

namespace RaftCpp

open Outcome

variable {c : Cause} {s r r' r'' : Raft} {P A : Message → Prop} {m : Message}

/-! ## The reads that `advance` returns -/

namespace ReadOnly

variable {ro ro' : ReadOnly}

/-- The loop of `advance` returns reads that wait. -/
theorem advanceLoop_lookup (ro : ReadOnly) (ctx : Bytes) : ∀ q : List Bytes,
    Ensures (ro.advanceLoop ctx q) fun p => ∀ rs ∈ p.2, ∃ k, ro.pendingReadIndex.lookup k = some rs
  | [] => Ensures.ok nofun
  | k :: q => by
    unfold advanceLoop
    cases hst : ro.pendingReadIndex.lookup k with
    | none => exact Ensures.error
    | some st =>
      have hfirst : ∀ rs ∈ [st], ∃ k, ro.pendingReadIndex.lookup k = some rs := by
        intro rs hrs
        obtain rfl := List.mem_singleton.mp hrs
        exact ⟨k, hst⟩
      refine Ensures.ite (fun _ => Ensures.ok hfirst) fun _ => ?_
      refine Ensures.bind (advanceLoop_lookup ro ctx q) fun p hp => Ensures.pure fun rs hrs => ?_
      obtain rfl | hrs := List.mem_cons.mp hrs
      · exact ⟨k, hst⟩
      · exact hp rs hrs

/-- `advance` returns reads that wait, and lets some of them leave. -/
theorem advance_lookup (ro : ReadOnly) (m : Message) : Ensures (ro.advance m) fun p =>
    (∀ rs ∈ p.1, ∃ k, ro.pendingReadIndex.lookup k = some rs) ∧
      ∀ k st, p.2.pendingReadIndex.lookup k = some st → ro.pendingReadIndex.lookup k = some st := by
  unfold advance
  refine Ensures.bind (advanceLoop_lookup ro m.context ro.readIndexQueue) ?_
  rintro ⟨found, rss⟩ hrss
  refine Ensures.ite (fun _ => ?_) fun _ => Ensures.pure ⟨hrss, fun _ _ h => h⟩
  refine Ensures.bind (P := fun pending => ∀ k st, pending.lookup k = some st →
    ro.pendingReadIndex.lookup k = some st) ?_ fun pending hpending => Ensures.pure ⟨hrss, hpending⟩
  refine Ensures.foldlM _ (fun pending rs _ hpending => ?_) _ fun _ _ h => h
  refine Ensures.bind Ensures.any fun ctx _ => Ensures.pure fun k st hst => ?_
  by_cases heq : k = ctx
  · subst heq
    rw [AList.lookup_erase] at hst
    cases hst
  · rw [AList.lookup_erase_ne heq] at hst
    exact hpending k st hst

end ReadOnly

/-! ## Routing -/

/-- A request comes from the application of the node. -/
def Raft.Owns (r : Raft) (q : Message) : Prop := q.fromId = 0 ∨ q.fromId = r.id

instance (r : Raft) (q : Message) : Decidable (r.Owns q) := inferInstanceAs (Decidable (_ ∨ _))

/-- The answers that are given on the way from one state to another are to some of the requests, and each goes
to the node that asked. -/
structure Raft.Routes (P : Message → Prop) (r r' : Raft) : Prop where
  /-- The identity stays. -/
  id : r'.id = r.id
  /-- What the application is told. -/
  readStates : ∃ xs, r'.readStates = r.readStates ++ xs ∧
    ∀ x ∈ xs, ∃ q, P q ∧ r.Owns q ∧ q.readCtx = .ok x.requestCtx
  /-- What is sent. -/
  msgs : ∃ ys, r'.msgs = r.msgs ++ ys ∧ ∀ y ∈ ys, y.type = .msgReadIndexResp →
    ∃ q, P q ∧ ¬r.Owns q ∧ y.toId = q.fromId ∧ y.entries = q.entries

namespace Raft

/-- Neither the reads nor the messages change. -/
theorem Routes.of_eq (hid : r'.id = r.id) (hrs : r'.readStates = r.readStates) (hmsgs : r'.msgs = r.msgs) :
    r.Routes P r' :=
  ⟨hid, ⟨[], by rw [hrs, List.append_nil], nofun⟩, ⟨[], by rw [hmsgs, List.append_nil], nofun⟩⟩

/-- One change after another. -/
theorem Routes.trans (h : r.Routes P r') (h' : r'.Routes P r'') : r.Routes P r'' := by
  obtain ⟨hid, ⟨xs, hxs, hPx⟩, ⟨ys, hys, hPy⟩⟩ := h
  obtain ⟨hid', ⟨xs', hxs', hPx'⟩, ⟨ys', hys', hPy'⟩⟩ := h'
  unfold Owns at hPx' hPy'
  rw [hid] at hPx' hPy'
  refine ⟨hid'.trans hid, ⟨xs ++ xs', by rw [hxs', hxs, List.append_assoc], fun x hx => ?_⟩,
    ⟨ys ++ ys', by rw [hys', hys, List.append_assoc], fun y hy => ?_⟩⟩
  · exact (List.mem_append.mp hx).elim (hPx x) (hPx' x)
  · exact (List.mem_append.mp hy).elim (hPy y) (hPy' y)

/-- A message is sent. -/
theorem Routes.send {x : Message} (h : r.send x = .ok r') (hx : x.type = .msgReadIndexResp →
    ∃ q, P q ∧ ¬r.Owns q ∧ x.toId = q.fromId ∧ x.entries = q.entries) : r.Routes P r' := by
  obtain ⟨rfl, -⟩ := send_eq h
  have hfill : (r.fillIn x).type = x.type ∧ (r.fillIn x).toId = x.toId ∧ (r.fillIn x).entries = x.entries := by
    unfold fillIn
    split_ifs <;> exact ⟨rfl, rfl, rfl⟩
  refine ⟨rfl, ⟨[], (List.append_nil _).symm, nofun⟩, ⟨_, rfl, fun y hy htype => ?_⟩⟩
  obtain rfl := List.mem_singleton.mp hy
  rw [hfill.1] at htype
  rw [hfill.2.1, hfill.2.2]
  exact hx htype

/-- A request is answered to the node that made it. -/
theorem routes_answerRead {q : Message} (index : ℕ) (hq : P q) :
    Ensures (r.answerRead q index) fun r' => r.Routes P r' ∧ r'.readOnly = r.readOnly := by
  unfold answerRead
  refine Ensures.ite (fun hown => ?_) fun hforeign r' h => ?_
  · refine Ensures.bindEq fun ctx hctx => Ensures.pure ⟨⟨rfl, ⟨_, rfl, fun x hx => ?_⟩, ?_⟩, rfl⟩
    · obtain rfl := List.mem_singleton.mp hx
      exact ⟨q, hq, hown, hctx⟩
    · exact ⟨[], (List.append_nil _).symm, nofun⟩
  · refine ⟨.send h fun _ => ⟨q, hq, hforeign, rfl, rfl⟩, ?_⟩
    obtain ⟨rfl, -⟩ := send_eq h
    rfl

/-- The requests that wait are some of the given ones. -/
def Puts (A : Message → Prop) (r : Raft) : Prop :=
  ∀ k st, r.readOnly.pendingReadIndex.lookup k = some st → A st.req

/-- The requests that wait are answered to the nodes that made them. -/
theorem routes_ackRead (hput : r.Puts A) (hP : ∀ q, A q → P q) :
    Ensures (r.ackRead m) fun r' => r.Routes P r' ∧ r'.Puts A := by
  have hack : Puts A { r with readOnly := (r.readOnly.recvAck m).2 } := by
    intro k st hst
    unfold ReadOnly.recvAck at hst
    cases hlook : r.readOnly.pendingReadIndex.lookup m.context with
    | none =>
      rw [hlook] at hst
      exact hput k st hst
    | some st₀ =>
      rw [hlook] at hst
      dsimp only at hst
      by_cases heq : k = m.context
      · subst heq
        rw [AList.lookup_insert] at hst
        cases hst
        exact hput m.context st₀ hlook
      · rw [AList.lookup_insert_ne heq] at hst
        exact hput k st hst
  unfold ackRead
  refine Ensures.ite (fun _ => Ensures.pure ⟨.of_eq rfl rfl rfl, hput⟩) fun _ => ?_
  refine Ensures.ite (fun _ => Ensures.pure ⟨.of_eq rfl rfl rfl, hack⟩) fun _ => ?_
  refine Ensures.bind (ReadOnly.advance_lookup _ m) ?_
  rintro ⟨rss, ro⟩ ⟨hrss, hro⟩
  refine Ensures.foldlM _ (fun r₁ rs hrs h₁ => ?_) _ ⟨.of_eq rfl rfl rfl, fun k st hst => ?_⟩
  · obtain ⟨k, hk⟩ := hrss rs hrs
    refine (routes_answerRead rs.index (hP _ (hack k rs hk))).mono fun r₂ h₂ => ⟨h₁.1.trans h₂.1, ?_⟩
    unfold Puts
    rw [h₂.2]
    exact h₁.2
  · exact hack k st (hro k st hst)

end Raft

/-- The requests that a leader may answer when it is made to act: the one that it is given, and those that
wait, when it is given the answer to a heartbeat. -/
def Cause.Answers (c : Cause) (A : Message → Prop) (q : Message) : Prop :=
  c = .step q ∧ q.type = .msgReadIndex ∨ (∃ m, c = .step m ∧ m.type = .msgHeartbeatResp) ∧ A q

/-- A move of a leader routes its answers, unless it is alone and answers another node. -/
theorem LeaderMove.routes (h : LeaderMove c s r r') (hput : r.Puts A)
    (hA : ∀ m, c = .step m → m.type = .msgReadIndex → A m)
    (hown : ∀ m, c = .step m → m.type = .msgReadIndex → r.quorum ≤ 1 → r.Owns m) :
    r.Routes (c.Answers A) r' ∧ r'.Puts A := by
  cases h with
  | send x hx hne hsend =>
    refine ⟨.send hsend fun htype => absurd htype hne, ?_⟩
    obtain ⟨rfl, -⟩ := Raft.send_eq hsend
    exact hput
  | peer y p p' hget hp =>
    obtain ⟨prs, learnerPrs, hprs⟩ : ∃ prs learnerPrs,
        r.putProgress y p' = { r with prs := prs, learnerPrs := learnerPrs } := by
      unfold Raft.putProgress
      split_ifs
      · exact ⟨_, _, rfl⟩
      · exact ⟨_, _, rfl⟩
      · exact ⟨_, _, rfl⟩
    rw [hprs]
    exact ⟨.of_eq rfl rfl rfl, hput⟩
  | serve m hc htype hnow hserve =>
    have hm : c.Answers A m := Or.inl ⟨hc, htype⟩
    unfold Raft.stepLeaderReadIndex at hserve
    split_ifs at hserve with hquorum
    · have hlease := hnow.resolve_left (Nat.not_le_of_gt hquorum)
      split at hserve
      · cases hserve
        exact ⟨.of_eq rfl rfl rfl, hput⟩
      · split_ifs at hserve
        · cases hserve
          exact ⟨.of_eq rfl rfl rfl, hput⟩
        · simp only [hlease] at hserve
          obtain ⟨hroutes, hro⟩ := Raft.routes_answerRead _ hm _ hserve
          refine ⟨hroutes, ?_⟩
          unfold Raft.Puts
          rw [hro]
          exact hput
    · obtain ⟨ctx, hctx, hserve⟩ := bind_eq_ok.mp hserve
      cases hserve
      refine ⟨⟨rfl, ⟨_, rfl, fun x hx => ?_⟩, ⟨[], (List.append_nil _).symm, nofun⟩⟩, hput⟩
      obtain rfl := List.mem_singleton.mp hx
      exact ⟨m, hm, hown m hc htype (Nat.le_of_not_lt hquorum), hctx⟩
  | ask m ro hc htype hquorum hoption hterm hadd =>
    refine ⟨.of_eq rfl rfl rfl, ?_⟩
    obtain ⟨ctx, hctx, ⟨-, rfl⟩ | ⟨-, rfl⟩⟩ := ReadOnly.addRequest_spec _ hadd
    · exact hput
    · intro k st hst
      dsimp only at hst
      by_cases heq : k = ctx
      · subst heq
        rw [AList.lookup_insert] at hst
        cases hst
        exact hA m hc htype
      · rw [AList.lookup_insert_ne heq] at hst
        exact hput k st hst
  | confirm m hc htype hknown hack =>
    exact Raft.routes_ackRead hput (fun q hq => Or.inr ⟨⟨m, hc, htype⟩, hq⟩) _ hack
  | _ => exact ⟨.of_eq rfl rfl rfl, hput⟩

/-- Moves of a leader. -/
theorem LeaderCourse.routes (h : LeaderCourse c s r r') (hput : r.Puts A)
    (hA : ∀ m, c = .step m → m.type = .msgReadIndex → A m)
    (hown : ∀ m, c = .step m → m.type = .msgReadIndex → r.quorum ≤ 1 → r.Owns m) :
    r.Routes (c.Answers A) r' ∧ r'.Puts A := by
  induction h with
  | refl => exact ⟨.of_eq rfl rfl rfl, hput⟩
  | @tail r₁ r₂ hcourse hm ih =>
    have hmembers := LeaderCourse.members hcourse
    have hquorum : r₁.quorum = r.quorum := by rw [r₁.quorum_eq, r.quorum_eq, hmembers.2]
    have hmove := hm.routes ih.2 hA fun m hc htype hq => by
      unfold Raft.Owns
      rw [hmembers.1]
      exact hown m hc htype (hquorum ▸ hq)
    exact ⟨ih.1.trans hmove.1, hmove.2⟩

/-! ## Leaderships -/

namespace Host

/-- The requests of a run. -/
def readRequests (ts : List (Turn Host HostEvent)) : List Message :=
  ts.filterMap fun t => t.event.message.filter (·.type = .msgReadIndex)

/-- What the application is told in a step. -/
def toldReads (t : Turn Host HostEvent) : List ReadState :=
  t.after.node.raft.readStates.drop t.before.node.raft.readStates.length

/-- The answers that are sent in a step. -/
def sentReads (t : Turn Host HostEvent) : List Message :=
  (t.after.node.raft.msgs.drop t.before.node.raft.msgs.length).filter (·.type = .msgReadIndexResp)

/-- Each answer of a step is to a request, with its context, and goes to the node that made it. -/
structure RoutesReads (us : List (Turn Host HostEvent)) (t : Turn Host HostEvent) : Prop where
  /-- What the application is told, it has asked for. -/
  told : ∀ x ∈ toldReads t, ∃ q ∈ readRequests (us ++ [t]),
    t.before.node.raft.Owns q ∧ q.readCtx = .ok x.requestCtx
  /-- What is sent, the addressee has asked for. -/
  sent : ∀ y ∈ sentReads t, ∃ q ∈ readRequests (us ++ [t]),
    ¬t.before.node.raft.Owns q ∧ y.toId = q.fromId ∧ y.entries = q.entries
  /-- Nothing is told for the request of another node. -/
  foreign : ∀ q, t.event.message = some q → q.type = .msgReadIndex → ¬t.before.node.raft.Owns q → toldReads t = []

/-- A leader that is the only voter gets the request of another node. -/
def AskedAlone (t : Turn Host HostEvent) : Prop :=
  ∃ q, t.event.message = some q ∧ q.type = .msgReadIndex ∧ (q.term = 0 ∨ q.term = t.before.node.raft.term) ∧
    t.before.node.raft.quorum ≤ 1 ∧ ¬t.before.node.raft.Owns q

variable {h h' : Host} {e : HostEvent} {us : List (Turn Host HostEvent)} {t : Turn Host HostEvent}

/-- One more step. -/
theorem readRequests_snoc (us : List (Turn Host HostEvent)) (t : Turn Host HostEvent) :
    readRequests (us ++ [t]) = readRequests us ++ readRequests [t] := List.filterMap_append

/-- A request that is handed over in a step. -/
theorem mem_readRequests_self {q : Message} (hq : t.event.message = some q) (htype : q.type = .msgReadIndex) :
    q ∈ readRequests [t] := by
  refine List.mem_filterMap.mpr ⟨t, List.mem_singleton_self t, ?_⟩
  rw [hq]
  exact Option.filter_eq_some_iff.mpr ⟨rfl, decide_eq_true htype⟩

/-- A step of a leader in which it answers some of the requests, each to the node that made it. -/
theorem routesReads_of_routes {P : Message → Prop} (hroutes : t.before.node.raft.Routes P t.after.node.raft)
    (hP : ∀ q, P q → q ∈ readRequests (us ++ [t]))
    (hforeign : ∀ q, t.event.message = some q → q.type = .msgReadIndex → ∀ q', P q' → q' = q) :
    RoutesReads us t := by
  obtain ⟨-, ⟨xs, hxs, hPx⟩, ⟨ys, hys, hPy⟩⟩ := hroutes
  have htold : toldReads t = xs := by
    unfold toldReads
    rw [hxs, List.drop_left]
  constructor
  · intro x hx
    rw [htold] at hx
    obtain ⟨q, hq, hown, hctx⟩ := hPx x hx
    exact ⟨q, hP q hq, hown, hctx⟩
  · intro y hy
    unfold sentReads at hy
    rw [hys, List.drop_left, List.mem_filter] at hy
    obtain ⟨q, hq, hown, hsent⟩ := hPy y hy.1 (of_decide_eq_true hy.2)
    exact ⟨q, hP q hq, hown, hsent⟩
  · intro q hq htype hnot
    rw [htold, List.eq_nil_iff_forall_not_mem]
    intro x hx
    obtain ⟨q', hq', hown, -⟩ := hPx x hx
    rw [hforeign q hq htype q' hq'] at hown
    exact hnot hown

/-- A step in which nothing is told or sent. -/
theorem routesReads_of_nil (htold : toldReads t = []) (hsent : sentReads t = []) : RoutesReads us t where
  told := by
    rw [htold]
    exact nofun
  sent := by
    rw [hsent]
    exact nofun
  foreign _ _ _ _ := htold

/-- A change of the membership answers nothing. -/
theorem routes_confChange (hc : e.cause = some .confChange) (hh : h.handle e = .ok h')
    (hput : h.node.raft.Puts A) : h.node.raft.Routes (fun _ => False) h'.node.raft ∧ h'.node.raft.Puts A := by
  cases e with
  | applyConfChange cc =>
    obtain ⟨p, hp, hh⟩ := bind_eq_ok.mp hh
    cases hh
    obtain ⟨⟨r₁, ⟨⟨prs, learnerPrs, isLearner, rfl⟩, -⟩, hleads⟩, -⟩ :=
      h.node.leads_applyConfChange (s := h.node.raft) cc p hp
    obtain ⟨⟨hid, ⟨xs, hxs, hPx⟩, ⟨ys, hys, hPy⟩⟩, hput'⟩ := hleads.routes hput nofun nofun
    have hnone : ∀ q, ¬Cause.confChange.Answers A q := by
      rintro q (⟨hq, -⟩ | ⟨⟨m, hm, -⟩, -⟩)
      · cases hq
      · cases hm
    refine ⟨⟨hid, ⟨xs, hxs, fun x hx => ?_⟩, ⟨ys, hys, fun y hy htype => ?_⟩⟩, hput'⟩
    · obtain ⟨q, hq, -⟩ := hPx x hx
      exact (hnone q hq).elim
    · obtain ⟨q, hq, -⟩ := hPy y hy htype
      exact (hnone q hq).elim
  | _ => cases hc

/-- What the application does for itself answers nothing. -/
theorem routesReads_of_cause_none (hh : t.before.handle t.event = .ok t.after) (hc : t.event.cause = none)
    (hput : t.before.node.raft.Puts A) : RoutesReads us t ∧ t.after.node.raft.Puts A := by
  obtain ⟨l, msgs, readStates, size, heq, -, hmsgs, hrs⟩ := (handled hh).frame hc
  have htold : toldReads t = [] := by
    unfold toldReads
    rw [heq]
    obtain h | h := hrs <;> simp [h]
  have hsent : sentReads t = [] := by
    unfold sentReads
    rw [heq]
    obtain h | h := hmsgs <;> simp [h]
  refine ⟨routesReads_of_nil htold hsent, ?_⟩
  unfold Raft.Puts
  rw [heq]
  exact hput

/-- A leader that stays one ignores a request of another term. -/
theorem raft_eq_of_staleRequest {q : Message} (hq : e.cause = some (.step q)) (htype : q.type = .msgReadIndex)
    (hzero : q.term ≠ 0) (hterm : q.term ≠ h.node.raft.term) (hh : h.handle e = .ok h')
    (hl' : h'.node.raft.state = .leader) : h'.node.raft = h.node.raft := by
  obtain heq | ⟨status, hstep⟩ := stepped hq hh
  · exact heq
  · exact Raft.step_staleWork (Or.inr (Or.inl htype)) hzero hterm _ hstep hl'

/-- A step of a leader that is not asked alone by another node. -/
theorem routesReads_handle (hh : t.before.handle t.event = .ok t.after)
    (hl : t.before.LeadsTerm t.after.node.raft.term) (hl' : t.after.node.raft.state = .leader)
    (hput : t.before.node.raft.Puts (· ∈ readRequests us)) (hnot : ¬AskedAlone t) :
    RoutesReads us t ∧ t.after.node.raft.Puts (· ∈ readRequests (us ++ [t])) := by
  have hput : t.before.node.raft.Puts (· ∈ readRequests (us ++ [t])) := by
    intro k st hst
    rw [readRequests_snoc]
    exact List.mem_append_left _ (hput k st hst)
  have hself : ∀ {q}, t.event.message = some q → q.type = .msgReadIndex → q ∈ readRequests (us ++ [t]) := by
    intro q hq htype
    rw [readRequests_snoc]
    exact List.mem_append_right _ (mem_readRequests_self hq htype)
  cases hc : t.event.cause with
  | none => exact routesReads_of_cause_none hh hc hput
  | some c =>
    by_cases hconf : c = .confChange
    · subst hconf
      obtain ⟨hroutes, hput'⟩ := routes_confChange hc hh hput
      exact ⟨routesReads_of_routes hroutes (fun q hq => hq.elim) fun _ _ _ _ hq' => hq'.elim, hput'⟩
    by_cases hstale : ∃ q, c = .step q ∧ q.type = .msgReadIndex ∧ q.term ≠ 0 ∧ q.term ≠ t.before.node.raft.term
    · obtain ⟨q, rfl, htype, hzero, hterm⟩ := hstale
      have heq := raft_eq_of_staleRequest hc htype hzero hterm hh hl'
      have hroutes : t.before.node.raft.Routes (fun _ => False) t.after.node.raft := by
        rw [heq]
        exact .of_eq rfl rfl rfl
      rw [heq]
      exact ⟨routesReads_of_routes hroutes (fun q hq => hq.elim) fun _ _ _ _ hq' => hq'.elim, hput⟩
    · have hleads := leads_handle hc hconf hh hl.1 hl' hl.2.symm
      obtain ⟨hroutes, hput'⟩ := hleads.routes hput
        (fun m hm htype => hself (HostEvent.message_of_cause (hm ▸ hc)) htype)
        fun m hm htype hquorum => by
          by_contra hforeign
          refine hnot ⟨m, HostEvent.message_of_cause (hm ▸ hc), htype, ?_, hquorum, hforeign⟩
          by_contra hterm
          rw [not_or] at hterm
          exact hstale ⟨m, hm, htype, hterm⟩
      refine ⟨routesReads_of_routes hroutes ?_ ?_, hput'⟩
      · rintro q (⟨hq, htype⟩ | ⟨-, hq⟩)
        · exact hself (HostEvent.message_of_cause (hq ▸ hc)) htype
        · exact hq
      · intro q hq htype q'
        rintro (⟨hq', -⟩ | ⟨⟨m, hm, hresp⟩, -⟩)
        · have hmessage := HostEvent.message_of_cause (hq' ▸ hc)
          exact Option.some.inj (hmessage.symm.trans hq)
        · have hmessage := HostEvent.message_of_cause (hm ▸ hc)
          obtain rfl := Option.some.inj (hmessage.symm.trans hq)
          rw [hresp] at htype
          cases htype

/-- A leader that is the only voter tells its application whatever it is asked. -/
theorem toldReads_of_alone (hh : t.before.handle t.event = .ok t.after) (hl : t.before.node.raft.state = .leader)
    {q : Message} (hq : t.event.message = some q) (htype : q.type = .msgReadIndex)
    (hterm : q.term = 0 ∨ q.term = t.before.node.raft.term) (hquorum : t.before.node.raft.quorum ≤ 1) :
    toldReads t ≠ [] := by
  have hstepped : ∃ status, t.before.node.raft.step q = .ok (status, t.after.node.raft) := by
    cases he : t.event with
    | step m =>
      rw [he] at hq hh
      cases hq
      obtain ⟨p, hp, hh⟩ := bind_eq_ok.mp hh
      unfold RawNode.step at hp
      have hlocal : ¬q.isLocalMsg = true := by simp [Message.isLocalMsg, htype]
      have hresp : ¬q.isResponseMsg = true := by simp [Message.isResponseMsg, htype]
      rw [if_neg hlocal, if_pos (Or.inr hresp)] at hp
      obtain ⟨p', hp', hp⟩ := bind_eq_ok.mp hp
      refine ⟨p'.1, ?_⟩
      rw [← Except.ok.inj hh, ← Except.ok.inj hp]
      exact hp'
    | call m =>
      rw [he] at hq hh
      cases hq
      obtain ⟨p, hp, hh⟩ := bind_eq_ok.mp hh
      obtain ⟨p', hp', hp⟩ := bind_eq_ok.mp hp
      refine ⟨p'.1, ?_⟩
      rw [← Except.ok.inj hh, ← Except.ok.inj hp]
      exact hp'
    | _ =>
      rw [he] at hq
      cases hq
  obtain ⟨status, hstep⟩ := hstepped
  have hbody : t.before.node.raft.step q = t.before.node.raft.stepBody q := by
    unfold Raft.step
    obtain hzero | hsame := hterm
    · exact if_pos hzero
    · rw [hsame, if_neg (lt_irrefl _), if_neg (lt_irrefl _), ite_self]
  have hleader : t.before.node.raft.stepBody q =
      (do
        let r ← t.before.node.raft.stepLeaderReadIndex q
        return (.ok, r)) := by
    unfold Raft.stepBody Raft.stepRole
    simp only [htype, hl]
    unfold Raft.stepLeader
    simp only [htype]
  rw [hbody, hleader] at hstep
  obtain ⟨r, hr, hpair⟩ := bind_eq_ok.mp hstep
  unfold Raft.stepLeaderReadIndex at hr
  rw [if_neg (Nat.not_lt.mpr hquorum)] at hr
  obtain ⟨ctx, -, hr⟩ := bind_eq_ok.mp hr
  unfold toldReads
  rw [← (Prod.mk.inj (Except.ok.inj hpair)).2, ← Except.ok.inj hr]
  dsimp only
  rw [List.drop_left]
  exact List.cons_ne_nil _ _

end Host

/-- Over a leadership, each answer to a read goes to the node that asked, with the context of its request, if and
only if the leader is not asked by another node while it is the only voter. -/
theorem reads_routed_iff {h₀ h₁ h : Host} {e : HostEvent} {ts : List (Turn Host HostEvent)}
    (hstep : h₀.handle e = .ok h₁) (helect : Host.TakesLead ⟨h₀, e, h₁⟩) (hrun : Host.Run h₁ ts h)
    (hleads : ∀ t ∈ ts, t.after.LeadsTerm h₁.node.raft.term) :
    Trace.Along Host.RoutesReads ts ↔ ∀ t ∈ ts, ¬Host.AskedAlone t := by
  have hbefore : ∀ t ∈ ts, t.before.LeadsTerm h₁.node.raft.term :=
    (hrun.invariant (P := fun h => h.LeadsTerm h₁.node.raft.term)
      (Q := fun t => t.after.LeadsTerm h₁.node.raft.term) (fun _ _ hq _ => hq) hleads ⟨helect.1, rfl⟩).1
  constructor
  · rintro halong t ht ⟨q, hq, htype, hterm, hquorum, hforeign⟩
    obtain ⟨us, vs, heq⟩ := List.append_of_mem ht
    have hroutes := halong us t vs heq
    exact Host.toldReads_of_alone (hrun.step_mem ht) (hbefore t ht).1 hq htype hterm hquorum
      (hroutes.foreign q hq htype hforeign)
  · intro hnot
    have hput : h₁.node.raft.Puts (· ∈ Host.readRequests []) := by
      intro k st hst
      rw [(Host.idle_elect hstep helect).lookup] at hst
      cases hst
    have hall : Trace.Along (fun _ t => (t.before.LeadsTerm h₁.node.raft.term ∧
        t.after.LeadsTerm h₁.node.raft.term) ∧ ¬Host.AskedAlone t) ts := by
      rintro us t vs rfl
      have ht : t ∈ us ++ t :: vs := List.mem_append_right _ List.mem_cons_self
      exact ⟨⟨hbefore t ht, hleads t ht⟩, hnot t ht⟩
    have hinv := (hrun.along (P := fun us h => h.node.raft.Puts (· ∈ Host.readRequests us))
      (fun us t ht hq hs => (Host.routesReads_handle ht (by rw [hq.1.2.2]; exact hq.1.1) hq.1.2.1 hs hq.2).2)
      hall hput).1
    rintro us t vs rfl
    have ht : t ∈ us ++ t :: vs := List.mem_append_right _ List.mem_cons_self
    have hq := hall us t vs rfl
    exact (Host.routesReads_handle (hrun.step_mem ht) (by rw [hq.1.2.2]; exact hq.1.1) hq.1.2.1
      (hinv us t vs rfl) hq.2).1

/-- The parameters of the only voter, with a learner. -/
def watchedConfig : Config := { soloConfig with learners := [2] }

/-- The voter is elected. -/
def electedWithLearner : Turn Host HostEvent :=
  ⟨Host.started watchedConfig, .call { type := .msgHup },
    (Host.started watchedConfig).next (.call { type := .msgHup })⟩

/-- The step that elects it. -/
theorem electedWithLearner_step :
    electedWithLearner.before.handle electedWithLearner.event = .ok electedWithLearner.after :=
  Host.handle_next (by decide +kernel)

/-- It is asked by its application, or by the learner. -/
def readsAsked (q : Message) : List (Turn Host HostEvent) × Host :=
  Trace.run Host.handle electedWithLearner.after [.call q]

/-- The application is answered. -/
theorem reads_routed_iff_own : (readsAsked (readRequest [7])).1.length = 1 ∧
    (Trace.Along Host.RoutesReads (readsAsked (readRequest [7])).1 ↔
      ∀ t ∈ (readsAsked (readRequest [7])).1, ¬Host.AskedAlone t) :=
  ⟨by decide +kernel, reads_routed_iff electedWithLearner_step (by decide +kernel) (Trace.of_run _ _ _)
    (by decide +kernel)⟩

/-- The read of the learner is answered to the application of the voter. -/
theorem learner_unanswered : ¬∀ (h₀ h₁ h : Host) (e : HostEvent) (ts : List (Turn Host HostEvent)),
    h₀.handle e = .ok h₁ → Host.TakesLead ⟨h₀, e, h₁⟩ → Host.Run h₁ ts h →
      (∀ t ∈ ts, t.after.LeadsTerm h₁.node.raft.term) → Trace.Along Host.RoutesReads ts := by
  intro hall
  have halong := hall _ _ _ _ (readsAsked { readRequest [7] with fromId := 2 }).1 electedWithLearner_step
    (by decide +kernel) (Trace.of_run _ _ _) (by decide +kernel)
  have htold : ∃ t, (readsAsked { readRequest [7] with fromId := 2 }).1 = [t] ∧
      t.event.message = some { readRequest [7] with fromId := 2 } ∧
      ¬t.before.node.raft.Owns { readRequest [7] with fromId := 2 } ∧ Host.toldReads t ≠ [] := by
    refine ⟨⟨electedWithLearner.after, .call { readRequest [7] with fromId := 2 },
      electedWithLearner.after.next (.call { readRequest [7] with fromId := 2 })⟩, ?_, rfl, ?_⟩
    · unfold readsAsked Trace.run
      rw [Host.handle_next (by decide +kernel)]
      rfl
    · decide +kernel
  obtain ⟨t, hts, hmessage, hforeign, hne⟩ := htold
  exact hne ((halong [] t [] hts).foreign _ hmessage rfl hforeign)

end RaftCpp
