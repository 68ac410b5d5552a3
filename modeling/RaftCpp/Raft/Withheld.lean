import RaftCpp.Raft.Confirmed
import RaftCpp.Raft.Fleet

/-!
# Reads that are never released

The answer to a heartbeat is meant to carry the context of the heartbeat. But `handle_heartbeat` moves the
context of the heartbeat to itself and leaves that of the answer empty, and a leader ignores an answer without
a context. So a leader of more than one voter in the safe mode releases no read, whoever answers.
-/

namespace RaftCpp

open Outcome

variable {c : Cause} {s r r' : Raft}

/-! ## Answers carry no context -/

/-- The message does not acknowledge a read. -/
def Message.Blank (m : Message) : Prop := m.type = .msgHeartbeatResp → m.context = []

/-- Nor does any message that the node has queued. -/
def Raft.Blank (r : Raft) : Prop := ∀ m ∈ r.msgs, m.Blank

/-- No move queues a message that acknowledges a read. -/
theorem Move.blank (h : Move c r r') (hr : r.Blank) : r'.Blank := by
  have hsame : r'.msgs = r.msgs → r'.Blank := fun hmsgs m hm => hr m (hmsgs ▸ hm)
  cases h with
  | send x hx h =>
    obtain ⟨rfl, -⟩ := Raft.send_eq h
    intro m hm
    obtain hm | hm := List.mem_append.mp hm
    · exact hr m hm
    · rw [List.mem_singleton] at hm
      subst hm
      intro htype
      have hfill : (r.fillIn x).type = x.type ∧ (r.fillIn x).context = x.context := by
        unfold Raft.fillIn
        split_ifs <;> exact ⟨rfl, rfl⟩
      rw [hfill.1] at htype
      unfold SendOK at hx
      simp only [htype] at hx
      exact hfill.2.trans hx
  | other h => exact hsame (congrArg Outline.msgs h)
  | follow t lead h => exact hsame (r.reset_msgs t)
  | campaign hstate h => exact hsame (r.reset_msgs _)
  | lead hstate hcount => exact hsame (r.reset_msgs _)
  | members hc h => exact hsame (congrArg Outline.msgs h)
  | _ => exact hsame rfl

/-- Nor do several moves. -/
theorem Course.blank (h : Course c r r') (hr : r.Blank) : r'.Blank := by
  induction h with
  | refl => exact hr
  | tail _ hm ih => exact hm.blank ih

namespace Host

variable {h h' : Host} {e : HostEvent}

/-- No event makes a node queue a message that acknowledges a read. -/
theorem blank_handle (hb : h.node.raft.Blank) (hh : h.handle e = .ok h') : h'.node.raft.Blank := by
  cases hc : e.cause with
  | none =>
    obtain ⟨l, msgs, readStates, size, heq, -, hmsgs, -⟩ := (handled hh).frame hc
    rw [heq]
    intro m hm
    obtain rfl | rfl := hmsgs
    · exact hb m hm
    · cases hm
  | some c =>
    obtain ⟨n, rfl, hmoves⟩ := moves_handle hc hh
    exact hmoves.blank hb

/-- A node that has just started follows, and has queued nothing. -/
theorem Built.blank {cfg : Config} (hb : Built cfg h) :
    h.node.raft.Blank ∧ h.node.raft.state = .follower := by
  refine hb.holds (P := fun r => r.Blank ∧ r.state = .follower) ?_ ?_ ?_
  · intro r t lead hid hpre hmsgs
    refine ⟨fun m hm => ?_, rfl⟩
    rw [(Raft.idle_becomeFollower hid hpre hmsgs t lead).msgs] at hm
    cases hm
  · exact fun r l hr => hr
  · intro r id hr
    exact (Raft.steady_addNodeOrLearner id false).mono fun r' hr' =>
      ⟨hr'.moves.blank hr.1, hr'.state.trans hr.2⟩

end Host

/-! ## A leader withholds its reads -/

/-- What a leader does to the reads that wait, when nothing acknowledges them: it keeps them, with the indices
they have. -/
structure Raft.Withholds (r r' : Raft) : Prop where
  /-- The mode. -/
  option : r'.readOnly.option = r.readOnly.option
  /-- What waits goes on to wait. -/
  keeps : ∀ k st, r.readOnly.pendingReadIndex.lookup k = some st →
    r'.readOnly.pendingReadIndex.lookup k = some st
  /-- Nothing is released. -/
  releases : Raft.Releases (fun _ => False) r r'

namespace Raft.Withholds

variable {r'' : Raft}

/-- Nothing happens to the reads. -/
theorem of_eq (hreads : r'.readOnly = r.readOnly) (hrel : Raft.Releases (fun _ => False) r r') :
    r.Withholds r' := ⟨by rw [hreads], fun k st hst => by rw [hreads, hst], hrel⟩

/-- One change after another. -/
theorem trans (h : r.Withholds r') (h' : r'.Withholds r'') : r.Withholds r'' :=
  ⟨h'.option.trans h.option, fun k st hst => h'.keeps k st (h.keeps k st hst),
    h.releases.trans h'.releases⟩

end Raft.Withholds

/-- The moves of a leader, when nothing acknowledges its reads. -/
theorem LeaderCourse.withholds (h : LeaderCourse c s r r') (hsafe : r.readOnly.option = .safe)
    (hquorum : 1 < r.quorum) (hblank : ∀ m, c = .step m → m.Blank) : r.Withholds r' := by
  induction h with
  | refl => exact .of_eq rfl (.of_eq rfl rfl)
  | @tail r₁ r₂ hcourse hm ih =>
    cases hm.reads with
    | quiet hreads hrel => exact ih.trans (.of_eq hreads hrel)
    | serve m hc htype hnow hserve =>
      -- There is more than one voter, and no lease.
      have hq : r₁.quorum = r.quorum := by
        rw [r₁.quorum_eq, r.quorum_eq, (LeaderCourse.members hcourse).2]
      obtain hle | hlease := hnow
      · omega
      · rw [ih.option, hsafe] at hlease
        cases hlease
    | ask m ro hc htype hadd =>
      obtain ⟨ctx, -, ⟨-, rfl⟩ | ⟨hnone, rfl⟩⟩ := ReadOnly.addRequest_spec ro hadd
      · exact ih
      · refine ih.trans ⟨rfl, fun k st hst => ?_, .of_eq rfl rfl⟩
        have hne : k ≠ ctx := by
          rintro rfl
          rw [hnone] at hst
          cases hst
        exact (AList.lookup_insert_ne hne).trans hst
    | confirm m hc htype hack =>
      have hctx := hblank m hc htype
      cases hack with
      | stray _ => exact ih
      | counted st hne hst => exact absurd hctx hne
      | released st rss hne hst hquorum hadv hrel => exact absurd hctx hne

/-- The events of a leader, when nothing acknowledges its reads. -/
theorem Host.withholds_handle {h h' : Host} {e : HostEvent} (hh : h.handle e = .ok h')
    (hl : h.node.raft.state = .leader) (hl' : h'.node.raft.state = .leader)
    (hterm : h'.node.raft.term = h.node.raft.term) (hsafe : h.node.raft.readOnly.option = .safe)
    (hquorum : 1 < h.node.raft.quorum) (hblank : ∀ m, e.message = some m → m.Blank) :
    h'.node.raft.readOnly.option = .safe ∧ h.node.raft.released h'.node.raft = [] ∧
      ∀ k st, h.node.raft.readOnly.pendingReadIndex.lookup k = some st →
        h'.node.raft.readOnly.pendingReadIndex.lookup k = some st := by
  cases hc : e.cause with
  | none =>
    obtain ⟨hreads, -, -, hnone⟩ := (handled hh).reads hc
    exact ⟨by rw [hreads, hsafe], hnone, fun k st hst => by rw [hreads, hst]⟩
  | some c =>
    by_cases hconf : c = .confChange
    · subst hconf
      obtain ⟨hreads, hnone⟩ := reads_confChange hc hh
      exact ⟨by rw [hreads, hsafe], hnone, fun k st hst => by rw [hreads, hst]⟩
    · have hw := (leads_handle hc hconf hh hl hl' hterm).withholds hsafe hquorum fun m hm =>
        hblank m (HostEvent.message_of_cause (hm ▸ hc))
      exact ⟨hw.option.trans hsafe, hw.releases.released_eq_nil, hw.keeps⟩

/-! ## Runs of a fleet -/

/-- The message that an event delivers. -/
def FleetEvent.delivered : FleetEvent → Option Message
  | .deliver m => some m
  | _ => none

namespace Fleet

variable {members : Finset ℕ} {config : ℕ → Config → Prop} {F F' : Fleet} {e : FleetEvent} {i : ℕ}

/-- In one of the steps the node releases the read. -/
def ReleasesRead (ts : List (Turn Fleet FleetEvent)) (i : ℕ) (x : ReadState) : Prop :=
  ∃ t ∈ ts, x ∈ (t.before.raft i).released (t.after.raft i)

instance (ts : List (Turn Fleet FleetEvent)) (i : ℕ) (x : ReadState) : Decidable (ReleasesRead ts i x) :=
  inferInstanceAs (Decidable (∃ t ∈ ts, _))

/-- A node processes a heartbeat with the context that the leader sent in the term, and afterwards all that it
answers is delivered. -/
def Acknowledges (ts : List (Turn Fleet FleetEvent)) (i term : ℕ) (ctx : Bytes) (y : ℕ) : Prop :=
  ∃ n ∈ List.range ts.length, ∃ t ∈ ts[n]?, ∃ m ∈ t.event.delivered,
    (m.type = .msgHeartbeat ∧ m.fromId = i ∧ m.toId = y ∧ m.term = term ∧ m.context = ctx ∧
      (t.after.raft y).term = term) ∧
    ∀ a ∈ (t.after.raft y).msgs.drop (t.before.raft y).msgs.length, a.type = .msgHeartbeatResp →
      ∃ u ∈ ts.drop (n + 1), u.event.delivered = some a

instance (ts : List (Turn Fleet FleetEvent)) (i term : ℕ) (ctx : Bytes) (y : ℕ) :
    Decidable (Acknowledges ts i term ctx y) :=
  inferInstanceAs (Decidable (∃ n ∈ List.range ts.length, ∃ t ∈ ts[n]?, ∃ m ∈ t.event.delivered, _ ∧ _))

/-- No message acknowledges a read. -/
structure Blank (members : Finset ℕ) (F : Fleet) : Prop where
  /-- None is queued. -/
  hosts : ∀ j ∈ members, (F.raft j).Blank
  /-- None was sent. -/
  net : ∀ m ∈ F.net, m.Blank

/-- No message acknowledges a read when the members have just started. -/
theorem Started.blank (h : F.Started members config) : F.Blank members := by
  refine ⟨fun j hj => ?_, fun m hm => ?_⟩
  · obtain ⟨cfg, -, hb⟩ := h.hosts j hj
    exact hb.blank.1
  · rw [h.net] at hm
    cases hm

/-- No step makes one. -/
theorem Blank.handle (h : F.Blank members) (hen : Enabled members config F e) (hh : F.handle e = .ok F') :
    F'.Blank members := by
  have hupdate : ∀ {k : ℕ} {h' : Host}, h'.node.raft.Blank →
      ∀ j ∈ members, (Function.update F.hosts k h' j).node.raft.Blank := by
    intro k h' hb j hj
    by_cases hjk : j = k
    · rw [hjk, Function.update_self]
      exact hb
    · rw [Function.update_of_ne hjk]
      exact h.hosts j hj
  obtain ⟨e', h', he, hh', rfl⟩ | ⟨j, h', rfl, rfl⟩ := handle_cases hh
  · have hnode : e.node ∈ members := by
      cases e with
      | act i e₁ | deliver m | restart i h₁ => exact hen.1
    refine ⟨hupdate (Host.blank_handle (h.hosts e.node hnode) hh'), fun m hm => ?_⟩
    obtain hm | hm := List.mem_append.mp hm
    · exact h.net m hm
    · exact h.hosts e.node hnode m (Host.handedMsgs_subset hh' hm)
  · obtain ⟨-, cfg, -, hb⟩ := hen
    exact ⟨hupdate hb.blank.1, h.net⟩

/-- What an event hands to its node acknowledges no read. -/
theorem Blank.message (h : F.Blank members) (hen : Enabled members config F e) {e' : HostEvent}
    (he : e.atNode = some e') {m : Message} (hm : e'.message = some m) : m.Blank := by
  cases e with
  | act i e₁ =>
    cases he
    cases e' with
    | call m' =>
      cases hm
      have htype : HostEvent.isCallType m.type = true := hen.2.2
      intro hresp
      rw [hresp] at htype
      cases htype
    | step m' => exact absurd hen.2 id
    | _ => cases hm
  | deliver m' =>
    cases he
    cases hm
    exact h.net m hen.2
  | restart i h' => cases he

/-- A leader in the safe mode has a read that waits, and nothing acknowledges it. -/
structure Withholds (members : Finset ℕ) (i term : ℕ) (ctx : Bytes) (st : ReadIndexStatus) (F : Fleet) :
    Prop where
  /-- No message acknowledges a read. -/
  blank : F.Blank members
  /-- The node leads the term. -/
  leads : (F.hosts i).LeadsTerm term
  /-- The mode. -/
  safe : (F.raft i).readOnly.option = .safe
  /-- The read waits. -/
  waits : (F.raft i).readOnly.pendingReadIndex.lookup ctx = some st

/-- In a step in which it goes on to lead, the leader releases nothing. -/
theorem Withholds.handle {term : ℕ} {ctx : Bytes} {st : ReadIndexStatus}
    (h : F.Withholds members i term ctx st) (hen : Enabled members config F e) (hh : F.handle e = .ok F')
    (hl' : (F'.hosts i).LeadsTerm term) (hquorum : 1 < (F.raft i).quorum) :
    F'.Withholds members i term ctx st ∧ (F.raft i).released (F'.raft i) = [] := by
  have hblank := h.blank.handle hen hh
  have hsame : F'.hosts i = F.hosts i → F'.Withholds members i term ctx st ∧
      (F.raft i).released (F'.raft i) = [] := by
    intro heq
    have hraft : F'.raft i = F.raft i := by
      unfold raft
      rw [heq]
    rw [hraft]
    exact ⟨⟨hblank, hl', hraft ▸ h.safe, hraft ▸ h.waits⟩,
      Raft.released_eq_nil (Or.inl rfl) (Or.inl rfl)⟩
  obtain ⟨e', h', he, hh', rfl⟩ | ⟨j, h', rfl, rfl⟩ := handle_cases hh
  · by_cases hie : i = e.node
    · have hhost : Function.update F.hosts e.node h' i = h' := by rw [hie, Function.update_self]
      rw [← hie] at hh'
      obtain ⟨hsafe, hnone, hkeeps⟩ := Host.withholds_handle hh' h.leads.1
        (by rw [← hhost]; exact hl'.1) (by rw [← hhost]; exact hl'.2.trans h.leads.2.symm) h.safe hquorum
        fun m hm => h.blank.message hen he hm
      have hraft : raft ⟨Function.update F.hosts e.node h',
          F.net ++ Host.handedMsgs ⟨F.hosts e.node, e', h'⟩⟩ i = h'.node.raft :=
        congrArg (fun h : Host => h.node.raft) hhost
      rw [hraft]
      exact ⟨⟨hblank, hl', hraft ▸ hsafe, hraft ▸ hkeeps ctx st h.waits⟩, hnone⟩
    · exact hsame (Function.update_of_ne hie _ _)
  · -- The leader itself was not started again, since it would follow.
    obtain ⟨-, cfg, -, hb⟩ := hen
    by_cases hij : i = j
    · have hst : (Function.update F.hosts j h' i).node.raft.state = .leader := hl'.1
      rw [hij, Function.update_self, hb.blank.2] at hst
      cases hst
    · exact hsame (Function.update_of_ne hij _ _)

end Fleet

/-- A leader of more than one voter in the safe mode never releases a read that waits: in every run of a
fleet, whatever heartbeats the other voters process, and whichever of their answers are delivered to the
leader, as long as it leads its term the read goes on to wait, and no read is released. -/
theorem reads_withheld {members : Finset ℕ} {config : ℕ → Config → Prop} {F₀ F₁ F : Fleet}
    {pre ts : List (Turn Fleet FleetEvent)} {i : ℕ} {ctx : Bytes} {st : ReadIndexStatus}
    (hstart : F₀.Started members config) (hpre : Fleet.Run members config F₀ pre F₁)
    (hrun : Fleet.Run members config F₁ ts F) (hlead : (F₁.raft i).state = .leader)
    (hsafe : (F₁.raft i).readOnly.option = .safe)
    (hwaits : (F₁.raft i).readOnly.pendingReadIndex.lookup ctx = some st)
    (hts : ∀ t ∈ ts, (t.after.hosts i).LeadsTerm (F₁.raft i).term ∧ 1 < (t.before.raft i).quorum) :
    (F.raft i).readOnly.pendingReadIndex.lookup ctx = some st ∧ ∀ x, ¬Fleet.ReleasesRead ts i x := by
  have hblank := (hpre.trace.invariant (P := Fleet.Blank members) (Q := fun t => t ∈ pre)
    (fun t hh ht hb => hb.handle (hpre.enabled t ht) hh) (fun t ht => ht) hstart.blank).2
  have hstand : F₁.Withholds members i (F₁.raft i).term ctx st := ⟨hblank, ⟨hlead, rfl⟩, hsafe, hwaits⟩
  obtain ⟨hbefore, hend⟩ := hrun.trace.invariant
    (P := Fleet.Withholds members i (F₁.raft i).term ctx st) (Q := fun t => t ∈ ts)
    (fun t hh ht hw => (hw.handle (hrun.enabled t ht) hh (hts t ht).1 (hts t ht).2).1)
    (fun t ht => ht) hstand
  refine ⟨hend.waits, fun x hx => ?_⟩
  obtain ⟨t, ht, hmem⟩ := hx
  rw [((hbefore t ht).handle (hrun.enabled t ht) (hrun.trace.step_mem ht) (hts t ht).1 (hts t ht).2).2]
    at hmem
  cases hmem

/-! ## Three voters -/

/-- The three voters when they start. -/
def readingTrio : Fleet where
  hosts i := Host.started { voterConfig with id := i }

/-- They have just started. -/
theorem readingTrio_started : readingTrio.Started {1, 2, 3} fun i c => c.id = i where
  net := rfl
  hosts i hi := by
    refine ⟨{ voterConfig with id := i }, rfl, Host.boot_built (Host.boot_started ?_)⟩
    revert i
    decide +kernel

/-- The first voter is elected by the second one, commits its first entry, and is asked for a read. -/
def readingTrioAsked : List (Turn Fleet FleetEvent) × Fleet :=
  Trace.play Fleet.handle readingTrio
    (Fleet.asks 1 :: Fleet.round 1 ++ Fleet.delivers 1 :: Fleet.round 2 ++
      Fleet.delivers 2 :: Fleet.round 1 ++ Fleet.delivers 4 :: Fleet.round 2 ++ [Fleet.delivers 5,
      fun _ => .act 1 (.call { type := .msgReadIndex, fromId := 1, entries := [{ data := [7] }] })])

/-- The second voter processes the heartbeat with the context of the read, and its answer is delivered. -/
def readingTrioAnswered : List (Turn Fleet FleetEvent) × Fleet :=
  Trace.play Fleet.handle readingTrioAsked.2
    (Fleet.round 1 ++ Fleet.delivers 7 :: Fleet.round 2 ++ [Fleet.delivers 9])

/-- The events of a script are those of a run. -/
theorem readingTrio_run {F : Fleet} {fs : List (Fleet → FleetEvent)}
    (h : ∀ t ∈ (Trace.play Fleet.handle F fs).1, Fleet.IsPlay {1, 2, 3} t.before t.event) :
    Fleet.Run {1, 2, 3} (fun i c => c.id = i) F (Trace.play Fleet.handle F fs).1
      (Trace.play Fleet.handle F fs).2 :=
  ⟨Trace.of_play _ _ _, fun t ht => (h t ht).enabled⟩

/-- The read still waits. -/
theorem reads_withheld_readingTrio :
    Fleet.Acknowledges readingTrioAnswered.1 1 1 [7] 2 ∧ ∃ st : ReadIndexStatus,
      (readingTrioAnswered.2.raft 1).readOnly.pendingReadIndex.lookup [7] = some st ∧
        ∀ x, ¬Fleet.ReleasesRead readingTrioAnswered.1 1 x := by
  have hwaits : (readingTrioAsked.2.raft 1).readOnly.Waits [7] := by decide +kernel
  obtain ⟨st, hst⟩ := hwaits.status
  exact ⟨by decide +kernel, st, reads_withheld readingTrio_started (readingTrio_run (by decide +kernel))
    (readingTrio_run (by decide +kernel)) (by decide +kernel) (by decide +kernel) hst (by decide +kernel)⟩

/-- A leader does not release a read that a majority has acknowledged. -/
theorem acknowledged_withheld :
    ¬ ∀ (members : Finset ℕ) (config : ℕ → Config → Prop) (F₀ F₁ F : Fleet)
      (pre ts : List (Turn Fleet FleetEvent)) (i : ℕ) (ctx : Bytes) (st : ReadIndexStatus),
      F₀.Started members config → Fleet.Run members config F₀ pre F₁ → Fleet.Run members config F₁ ts F →
      i ∈ members → (F₁.raft i).state = .leader → (F₁.raft i).readOnly.option = .safe →
      1 < (F₁.raft i).quorum →
      (F₁.raft i).raftLog.term (F₁.raft i).raftLog.committed = .ok (F₁.raft i).term → ctx ≠ [] →
      (F₁.raft i).readOnly.pendingReadIndex.lookup ctx = some st →
      (∀ t ∈ ts, (t.after.hosts i).LeadsTerm (F₁.raft i).term) →
      (Consensus.majority (F₁.raft i).voters).IsQuorum
        {y | y = i ∨ Fleet.Acknowledges ts i (F₁.raft i).term ctx y} →
      Fleet.ReleasesRead ts i { index := st.index, requestCtx := ctx } := by
  intro hall
  have hwaits : (readingTrioAsked.2.raft 1).readOnly.Waits [7] := by decide +kernel
  obtain ⟨st, hst⟩ := hwaits.status
  have hacks : (Consensus.majority (readingTrioAsked.2.raft 1).voters).IsQuorum
      {y | y = 1 ∨ Fleet.Acknowledges readingTrioAnswered.1 1 (readingTrioAsked.2.raft 1).term [7] y} := by
    refine Consensus.majority_isQuorum (S := {1, 2}) (by decide +kernel) (by decide +kernel) fun y hy => ?_
    obtain rfl | hy := Finset.mem_insert.mp hy
    · exact Or.inl rfl
    · rw [Finset.mem_singleton.mp hy]
      exact Or.inr (by decide +kernel)
  obtain ⟨t, ht, hx⟩ := hall _ _ _ _ _ _ _ 1 [7] st readingTrio_started
    (readingTrio_run (by decide +kernel)) (readingTrio_run (by decide +kernel)) (by decide +kernel)
    (by decide +kernel) (by decide +kernel) (by decide +kernel) (by decide +kernel) (by decide +kernel) hst
    (by decide +kernel) hacks
  have hnone : ∀ t ∈ readingTrioAnswered.1, (t.before.raft 1).released (t.after.raft 1) = [] := by
    decide +kernel
  rw [hnone t ht] at hx
  cases hx

end RaftCpp
