import RaftCpp.Raft.Aside
import RaftCpp.Raft.Window

/-!
# What is on its way to a peer

An account of the append messages with entries that a node sends to a peer. While the peer replicates, a message
stays in the account until it is freed: by an acknowledgement of its last entry, or by the answer to a heartbeat
when the window is full. While the peer is probed, the account counts the messages since the last resume. The
account is kept along everything that the node does, in `FlowMove`s.
-/

namespace RaftCpp

open Outcome

/-- An append message with entries for a peer. -/
def Message.Carries (x : Message) (y : ℕ) : Prop := x.type = .msgApp ∧ x.toId = y ∧ x.entries ≠ []

instance (x : Message) (y : ℕ) : Decidable (x.Carries y) := inferInstanceAs (Decidable (_ ∧ _ ∧ _))

/-- The account of a peer. -/
structure Flight where
  /-- The index of the last entry of each message that is not freed. -/
  window : List ℕ := []
  /-- The number of probes since the last resume. -/
  probes : ℕ := 0

/-- One change of the progress of a peer, with its account. -/
inductive Progress.FlowMove : Progress × Flight → Progress × Flight → Prop
  /-- Neither the state, nor the pause, nor the window changes. -/
  | same {p p' : Progress} {g : Flight} (hstate : p'.state = p.state) (hpaused : p'.paused = p.paused)
      (hinflights : p'.inflights = p.inflights) : FlowMove (p, g) (p', g)
  /-- `free_to`: the messages at the front up to an index are freed. -/
  | freed {p : Progress} {g : Flight} {f : InFlights} (k : ℕ) (h : p.inflights.freeTo k = .ok f) :
      FlowMove (p, g) ({ p with inflights := f }, { g with window := g.window.dropWhile (· ≤ k) })
  /-- The peer may be probed again. -/
  | resumed {p : Progress} {g : Flight} : FlowMove (p, g) (p.resume, { g with probes := 0 })
  /-- `set_pause`. -/
  | paused {p : Progress} {g : Flight} : FlowMove (p, g) (p.setPause, g)
  /-- `reset_state`: the account is closed. -/
  | turned {p : Progress} {g : Flight} (st : ProgressState) : FlowMove (p, g) (p.resetState st, {})

namespace Progress

/-- Some changes. -/
abbrev FlowCourse : Progress × Flight → Progress × Flight → Prop := Relation.ReflTransGen FlowMove

/-- Whatever the account was, it is kept along the change. -/
def Flows (p p' : Progress) : Prop := ∀ g, ∃ g', FlowCourse (p, g) (p', g')

variable {p p' p'' : Progress}

/-- Nothing changes. -/
theorem Flows.refl (p : Progress) : p.Flows p := fun g => ⟨g, .refl⟩

/-- One change after another. -/
theorem Flows.trans (h : p.Flows p') (h' : p'.Flows p'') : p.Flows p'' := fun g =>
  let ⟨_, hg₁⟩ := h g
  let ⟨g₂, hg₂⟩ := h' _
  ⟨g₂, hg₁.trans hg₂⟩

/-- A single change. -/
theorem FlowMove.flows (h : ∀ g, ∃ g', FlowMove (p, g) (p', g')) : p.Flows p' := fun g =>
  let ⟨g', hg⟩ := h g
  ⟨g', .single hg⟩

/-- Something else changes. -/
theorem Flows.same (hstate : p'.state = p.state) (hpaused : p'.paused = p.paused)
    (hinflights : p'.inflights = p.inflights) : p.Flows p' :=
  FlowMove.flows fun g => ⟨g, .same hstate hpaused hinflights⟩

/-- `resume`. -/
theorem flows_resume (p : Progress) : p.Flows p.resume := FlowMove.flows fun _ => ⟨_, .resumed⟩

/-- `set_pause`. -/
theorem flows_setPause (p : Progress) : p.Flows p.setPause := FlowMove.flows fun _ => ⟨_, .paused⟩

/-- `reset_state`, and something else. -/
theorem Flows.turned {st : ProgressState} (hstate : p'.state = st) (hpaused : p'.paused = false)
    (hinflights : p'.inflights = p.inflights.reset) : p.Flows p' :=
  (FlowMove.flows fun _ => ⟨_, .turned st⟩).trans (.same hstate hpaused hinflights)

/-- `become_probe`. -/
theorem flows_becomeProbe (p : Progress) : p.Flows p.becomeProbe := by
  unfold becomeProbe
  split_ifs
  · exact .turned rfl rfl rfl
  · exact .turned rfl rfl rfl

/-- `become_replicate`. -/
theorem flows_becomeReplicate (p : Progress) : p.Flows p.becomeReplicate := .turned rfl rfl rfl

/-- `become_snapshot`. -/
theorem flows_becomeSnapshot (p : Progress) (i : ℕ) : p.Flows (p.becomeSnapshot i) := .turned rfl rfl rfl

/-- `maybe_update` resumes if the index is news. -/
theorem flows_maybeUpdate (p : Progress) (n : ℕ) : p.Flows (p.maybeUpdate n).2 := by
  have hnext : ∀ q : Progress, q.Flows (if q.next < n + 1 then { q with next := n + 1 } else q) := by
    intro q
    split_ifs
    · exact .same rfl rfl rfl
    · exact .refl q
  unfold maybeUpdate
  dsimp only
  refine Flows.trans ?_ (hnext _)
  split_ifs
  · exact (flows_resume p).trans (.same rfl rfl rfl)
  · exact .refl p

/-- `maybe_decreases_to` resumes a peer that does not replicate, if the rejection is news. -/
theorem flows_maybeDecreasesTo (p : Progress) (rejected last : ℕ) :
    p.Flows (p.maybeDecreasesTo rejected last).2 := by
  unfold maybeDecreasesTo
  split_ifs
  · exact .refl p
  · exact .same rfl rfl rfl
  · exact .refl p
  · exact (flows_resume p).trans (.same rfl rfl rfl)

/-- Messages are freed. -/
theorem flows_freeTo (p : Progress) (k : ℕ) :
    Ensures (p.inflights.freeTo k) fun f => p.Flows { p with inflights := f } :=
  fun _ h => FlowMove.flows fun _ => ⟨_, .freed k h⟩

/-- One message is freed, with those behind it that end at the same index. -/
theorem flows_freeFirstOne (p : Progress) :
    Ensures p.inflights.freeFirstOne fun f => p.Flows { p with inflights := f } := by
  unfold InFlights.freeFirstOne
  exact Ensures.bind Ensures.any fun k _ => p.flows_freeTo k

/-- A peer acknowledges what is news. -/
theorem flows_progressOnAck (p : Progress) (index : ℕ) : Ensures (Raft.progressOnAck p index) p.Flows := by
  unfold Raft.progressOnAck
  split
  · exact Ensures.ok p.flows_becomeReplicate
  · exact Ensures.ite (fun _ => Ensures.ok p.flows_becomeProbe) fun _ => Ensures.ok (.refl p)
  · exact Ensures.bind (p.flows_freeTo index) fun f hf => Ensures.pure hf

/-- A peer answers a heartbeat. -/
theorem flows_progressOnHeartbeat (p : Progress) : Ensures (Raft.progressOnHeartbeat p) p.Flows := by
  have hheard : p.Flows { p with recentActive := true } := .same rfl rfl rfl
  have hresume := hheard.trans (flows_resume _)
  unfold Raft.progressOnHeartbeat
  refine Ensures.ite (fun _ => ?_) fun _ => Ensures.ok hresume
  exact Ensures.bind (flows_freeFirstOne _) fun f hf => Ensures.pure (hresume.trans hf)

end Progress

namespace Raft

/-- The append messages with entries for a peer that wait to be taken. -/
def flown (r : Raft) (y : ℕ) : List Message := r.msgs.filter (·.Carries y)

end Raft

/-- One change of a node, with the account of a peer. -/
inductive FlowMove (y : ℕ) : Raft × Flight → Raft × Flight → Prop
  /-- Neither the progress of the peer changes, nor is there a new message with entries for it. The messages may
  be taken. -/
  | aside {r r' : Raft} {g : Flight} (hmax : r'.maxInflight = r.maxInflight)
      (hget : r'.getProgress y = r.getProgress y) (hflown : r'.flown y = r.flown y ∨ r'.msgs = []) :
      FlowMove y (r, g) (r', g)
  /-- The progress of the peer changes, and there is no new message. -/
  | peer {r r' : Raft} {p p' : Progress} {g g' : Flight} (hmax : r'.maxInflight = r.maxInflight)
      (hget : r.getProgress y = some p) (hget' : r'.getProgress y = some p') (hflown : r'.flown y = r.flown y)
      (h : Progress.FlowCourse (p, g) (p', g')) : FlowMove y (r, g) (r', g')
  /-- A message with entries is sent to a peer that replicates. -/
  | replicated {r r' : Raft} {p : Progress} {g : Flight} {x : Message} {e : Entry} {f : InFlights}
      (hmax : r'.maxInflight = r.maxInflight) (hget : r.getProgress y = some p) (hstate : p.state = .replicate)
      (hmsgs : r'.msgs = r.msgs ++ [x]) (hx : x.Carries y) (he : x.entries.getLast? = some e)
      (hadd : p.inflights.add e.index = .ok f)
      (hget' : r'.getProgress y = some { p.optimisticUpdate e.index with inflights := f }) :
      FlowMove y (r, g) (r', { g with window := g.window ++ [e.index] })
  /-- A message with entries is sent to a peer that is probed and not paused. -/
  | probed {r r' : Raft} {p : Progress} {g : Flight} {x : Message} (hmax : r'.maxInflight = r.maxInflight)
      (hget : r.getProgress y = some p) (hstate : p.state = .probe) (hpaused : p.paused = false)
      (hmsgs : r'.msgs = r.msgs ++ [x]) (hx : x.Carries y) (hget' : r'.getProgress y = some p.setPause) :
      FlowMove y (r, g) (r', { g with probes := g.probes + 1 })
  /-- The progress of the peer starts anew, with a new account. -/
  | renewed {r r' : Raft} {p : Progress} {g : Flight} (hmax : r'.maxInflight = r.maxInflight)
      (hget : r'.getProgress y = some p) (hstate : p.state = .probe) (hpaused : p.paused = false)
      (hinflights : p.inflights = InFlights.new r'.maxInflight) (hflown : r'.flown y = r.flown y) :
      FlowMove y (r, g) (r', {})
  /-- The peer is not one any more. -/
  | gone {r r' : Raft} {g : Flight} (hmax : r'.maxInflight = r.maxInflight) (hget : r'.getProgress y = none)
      (hflown : r'.flown y = r.flown y) : FlowMove y (r, g) (r', {})

/-- Some changes of a node, with the account of a peer. -/
abbrev FlowCourse (y : ℕ) : Raft × Flight → Raft × Flight → Prop := Relation.ReflTransGen (FlowMove y)

namespace Raft

variable {y : ℕ} {r r' r'' : Raft} {p p' : Progress}

/-- Whatever the account of the peer was, it is kept along what the node does. -/
def Flows (y : ℕ) (r r' : Raft) : Prop := ∀ g, ∃ g', FlowCourse y (r, g) (r', g')

namespace Flows

/-- Nothing happens. -/
theorem refl (y : ℕ) (r : Raft) : Flows y r r := fun g => ⟨g, .refl⟩

/-- One thing after another. -/
theorem trans (h : Flows y r r') (h' : Flows y r' r'') : Flows y r r'' := fun g =>
  let ⟨_, hg₁⟩ := h g
  let ⟨g₂, hg₂⟩ := h' _
  ⟨g₂, hg₁.trans hg₂⟩

/-- A single change. -/
theorem single (h : ∀ g, ∃ g', FlowMove y (r, g) (r', g')) : Flows y r r' := fun g =>
  let ⟨g', hg⟩ := h g
  ⟨g', .single hg⟩

/-- Something else changes. -/
theorem aside (hmax : r'.maxInflight = r.maxInflight) (hget : r'.getProgress y = r.getProgress y)
    (hflown : r'.flown y = r.flown y ∨ r'.msgs = []) : Flows y r r' :=
  single fun g => ⟨g, .aside hmax hget hflown⟩

/-- Where neither the progress nor the messages change, the account is kept. -/
theorem of_eq (hmax : r'.maxInflight = r.maxInflight) (hprs : r'.prs = r.prs)
    (hlearners : r'.learnerPrs = r.learnerPrs) (hmsgs : r'.msgs = r.msgs) : Flows y r r' := by
  refine aside hmax ?_ (Or.inl ?_)
  · unfold getProgress
    rw [hprs, hlearners]
  · unfold flown
    rw [hmsgs]

end Flows

/-! ## Writing and sending -/

/-- What `send` adds. -/
theorem flown_send {x : Message} (h : r.send x = .ok r') :
    ∃ x', x'.type = x.type ∧ x'.toId = x.toId ∧ x'.entries = x.entries ∧
      r' = { r with msgs := r.msgs ++ [x'] } := by
  obtain ⟨rfl, -⟩ := send_eq h
  refine ⟨_, ?_, ?_, ?_, rfl⟩
  all_goals
    unfold fillIn
    split_ifs
    · rfl
    · rfl

/-- A message without entries for the peer. -/
theorem flows_send {x : Message} (hx : ¬x.Carries y) : Ensures (r.send x) (Flows y r) := by
  intro r' h
  obtain ⟨x', htype, hto, hes, rfl⟩ := flown_send h
  refine Flows.aside rfl rfl (Or.inl ?_)
  have hx' : ¬x'.Carries y := by
    rwa [Message.Carries, htype, hto, hes]
  simp [flown, hx']

/-- A message of another type. -/
theorem flows_sendOther {x : Message} (hx : x.type ≠ .msgApp) : Ensures (r.send x) (Flows y r) :=
  flows_send fun h => hx h.1

/-- What is written for a peer is nothing to the others. -/
theorem getProgress_putProgress_ne {z : ℕ} (hz : z ≠ y) :
    (r.putProgress z p).getProgress y = r.getProgress y := by
  unfold putProgress getProgress
  split_ifs
  · rw [AList.lookup_insert_ne hz.symm]
  · rw [AList.lookup_insert_ne hz.symm]
  · rfl

/-- The progress of a peer changes. -/
theorem flows_putProgress {z : ℕ} (hget : r.getProgress z = some p) (h : p.Flows p') :
    Flows y r (r.putProgress z p') := by
  have hself := getProgress_putProgress_self (p := p') hget
  have hne : z ≠ y → (r.putProgress z p').getProgress y = r.getProgress y := getProgress_putProgress_ne
  obtain ⟨prs, learnerPrs, hput⟩ := r.putProgress_eq z p'
  rw [hput] at hself hne ⊢
  by_cases hz : z = y
  · subst hz
    exact .single fun g =>
      let ⟨g', hg⟩ := h g
      ⟨g', .peer rfl hget hself rfl hg⟩
  · exact .aside rfl (hne hz) (Or.inl rfl)

/-- The message of `maybe_send_append` and the progress after it fit the account. -/
inductive Sends (p : Progress) (x : Message) : Progress → Prop
  /-- There are no entries in the message. -/
  | without {p' : Progress} (hx : ¬x.Carries x.toId) (h : p.Flows p') : Sends p x p'
  /-- The peer replicates. -/
  | replicated {e : Entry} {f : InFlights} (hstate : p.state = .replicate) (hx : x.Carries x.toId)
      (he : x.entries.getLast? = some e) (hadd : p.inflights.add e.index = .ok f) :
      Sends p x { p.optimisticUpdate e.index with inflights := f }
  /-- The peer is probed. -/
  | probed (hstate : p.state = .probe) (hpaused : p.paused = false) (hx : x.Carries x.toId) :
      Sends p x p.setPause

/-- Such a message goes out with the progress after it. -/
theorem flows_putSend {x : Message} (hget : r.getProgress x.toId = some p) (h : Sends p x p') :
    Ensures ((r.putProgress x.toId p').send x) (Flows y r) := by
  intro r' hr'
  by_cases hcarries : x.Carries x.toId
  · have hself := getProgress_putProgress_self (p := p') hget
    have hne : x.toId ≠ y → (r.putProgress x.toId p').getProgress y = r.getProgress y :=
      getProgress_putProgress_ne
    obtain ⟨prs, learnerPrs, hput⟩ := r.putProgress_eq x.toId p'
    obtain ⟨x', htype, hto, hes, rfl⟩ := flown_send hr'
    rw [hput] at hself hne ⊢
    have hx' : x'.Carries x.toId := by
      rwa [Message.Carries, htype, hto, hes]
    by_cases hy : x.toId = y
    · subst hy
      cases h with
      | without hx _ => exact absurd hcarries hx
      | replicated hstate _ he hadd =>
        exact .single fun g => ⟨_, .replicated rfl hget hstate rfl hx' (by rwa [hes]) hadd hself⟩
      | probed hstate hpaused _ =>
        exact .single fun g => ⟨_, .probed rfl hget hstate hpaused rfl hx' hself⟩
    · refine .aside rfl (hne hy) (Or.inl ?_)
      have hno : ¬x'.Carries y := fun hx => hy (hto.symm.trans hx.2.1)
      simp [flown, hno]
  · cases h with
    | without _ h =>
      exact (flows_putProgress hget h).trans (flows_send (fun hx => hcarries (hx.2.1 ▸ hx)) _ hr')
    | replicated _ hx => exact absurd hx hcarries
    | probed _ _ hx => exact absurd hx hcarries

/-- `maybe_send_append`. -/
theorem flows_maybeSendAppend (r : Raft) (peer : ℕ) (sendIfEmpty : Bool) :
    Ensures (r.maybeSendAppend peer sendIfEmpty) fun q => Flows y r q.2 := by
  unfold maybeSendAppend
  refine Ensures.bind peerProgress_eq fun pr hget => ?_
  refine Ensures.ite (fun _ => Ensures.pure (.refl y r)) fun hpaused => ?_
  refine Ensures.bind Ensures.any fun ⟨status, es⟩ _ => ?_
  refine Ensures.ite (fun _ => Ensures.pure (.refl y r)) fun _ => ?_
  have hsend : ∀ (x : Message) (pr' : Progress), x.toId = peer ∧ Sends pr x pr' → Ensures (do
      let r ← (r.putProgress peer pr').send x
      return (true, r)) fun q => Flows y r q.2 := by
    rintro x pr' ⟨rfl, h⟩
    exact Ensures.bind (flows_putSend hget h) fun r' hr' => Ensures.pure hr'
  split
  · refine Ensures.bind (P := fun q => q.1.toId = peer ∧ Sends pr q.1 q.2) ?_ fun q hq => hsend q.1 q.2 hq
    unfold prepareAppend
    dsimp only
    cases hlast : es.getLast? with
    | none =>
      rw [List.getLast?_eq_none_iff] at hlast
      exact Ensures.pure ⟨rfl, .without (fun hx => hx.2.2 hlast) (.refl pr)⟩
    | some e =>
      have hne : es ≠ [] := fun hnil => by
        rw [hnil] at hlast
        cases hlast
      cases hstate : pr.state with
      | replicate =>
        refine Ensures.bindEq fun f hf => Ensures.pure ⟨rfl, ?_⟩
        exact .replicated hstate ⟨rfl, rfl, hne⟩ hlast hf
      | probe =>
        have hfree : pr.paused = false := by
          unfold Progress.isPaused at hpaused
          rw [hstate] at hpaused
          exact Bool.not_eq_true _ ▸ hpaused
        exact Ensures.pure ⟨rfl, .probed hstate hfree ⟨rfl, rfl, hne⟩⟩
      | snapshot => exact Ensures.error
  · refine Ensures.ite (fun _ => Ensures.pure (.refl y r)) fun _ => ?_
    refine Ensures.bind (P := fun q => q.1.toId = peer ∧ Sends pr q.1 q.2) ?_ fun q hq => hsend q.1 q.2 hq
    unfold prepareSnapshot
    refine Ensures.ite (fun _ => Ensures.error) fun _ => Ensures.ok ⟨rfl, ?_⟩
    exact .without (fun hx => nomatch hx.1) (pr.flows_becomeSnapshot _)

/-- `send_append`. -/
theorem flows_sendAppend (r : Raft) (peer : ℕ) : Ensures (r.sendAppend peer) (Flows y r) := by
  unfold sendAppend
  exact Ensures.bind (r.flows_maybeSendAppend peer true) fun q hq => Ensures.pure hq

/-- The loop of `maybe_send_append`. -/
theorem flows_sendAppendLoop (peer : ℕ) :
    ∀ (fuel : ℕ) (r : Raft), Ensures (sendAppendLoop peer fuel r) (Flows y r)
  | 0, _ => Ensures.error
  | fuel + 1, r => by
    unfold sendAppendLoop
    refine Ensures.bind (r.flows_maybeSendAppend (y := y) peer false) fun q hq => ?_
    refine Ensures.ite (fun _ => ?_) fun _ => Ensures.pure hq
    exact (flows_sendAppendLoop peer fuel q.2).mono fun r' hr' => hq.trans hr'

/-- A loop over the peers. -/
theorem flows_forPeers {f : Raft → ℕ → Result Raft} (hf : ∀ (r : Raft) (id : ℕ), Ensures (f r id) (Flows y r))
    (ids : List ℕ) (r : Raft) :
    Ensures (ids.foldlM (fun r id => if id = r.id then .ok r else f r id) r) (Flows y r) := by
  refine Ensures.foldlM ids (fun r₁ id _ h₁ => ?_) r (.refl y r)
  refine Ensures.ite (fun _ => Ensures.ok h₁) fun _ => ?_
  exact (hf r₁ id).mono fun r₂ h₂ => h₁.trans h₂

/-- `bcast_append`. -/
theorem flows_bcastAppend (r : Raft) : Ensures r.bcastAppend (Flows y r) := by
  unfold bcastAppend
  exact flows_forPeers (fun r id => r.flows_sendAppend id) _ r

/-- `bcast_heartbeat_with_ctx`. -/
theorem flows_bcastHeartbeatWithCtx (r : Raft) (ctx : Bytes) :
    Ensures (r.bcastHeartbeatWithCtx ctx) (Flows y r) := by
  unfold bcastHeartbeatWithCtx sendHeartbeat
  exact flows_forPeers (fun r id => Ensures.bind Ensures.any fun pr _ => flows_sendOther (by simp)) _ r

/-- `send_timeout_now`. -/
theorem flows_sendTimeoutNow (r : Raft) (peer : ℕ) : Ensures (r.sendTimeoutNow peer) (Flows y r) :=
  flows_sendOther nofun

/-- `maybe_commit`. -/
theorem flows_maybeCommit (r : Raft) : Ensures r.maybeCommit fun q => Flows y r q.2 := by
  unfold maybeCommit
  refine Ensures.bind Ensures.any fun mci _ => ?_
  exact Ensures.bind Ensures.any fun q _ => Ensures.pure (.of_eq rfl rfl rfl rfl)

/-- What the leader does after an acknowledgement that was news. -/
theorem flows_sendOnAck (r : Raft) (peer : ℕ) (oldPaused : Bool) :
    Ensures (r.sendOnAck peer oldPaused) (Flows y r) := by
  unfold sendOnAck
  have hcommit : Ensures (r.commitOnAck peer oldPaused) (Flows y r) := by
    unfold commitOnAck
    refine Ensures.bind (r.flows_maybeCommit (y := y)) fun q hq => ?_
    refine Ensures.ite (fun _ => q.2.flows_bcastAppend.mono fun r' hr' => hq.trans hr') fun _ => ?_
    refine Ensures.ite (fun _ => ?_) fun _ => Ensures.pure hq
    exact (q.2.flows_sendAppend peer).mono fun r' hr' => hq.trans hr'
  refine Ensures.bind hcommit fun r₁ h₁ => ?_
  refine Ensures.bind (flows_sendAppendLoop (y := y) peer _ r₁) fun r₂ h₂ => ?_
  refine Ensures.bind Ensures.any fun pr _ => ?_
  refine Ensures.ite (fun _ => ?_) fun _ => Ensures.pure (h₁.trans h₂)
  exact (r₂.flows_sendTimeoutNow peer).mono fun r' hr' => (h₁.trans h₂).trans hr'

/-- Serving a read. -/
theorem flows_answerRead (r : Raft) (req : Message) (index : ℕ) :
    Ensures (r.answerRead req index) (Flows y r) := by
  unfold answerRead
  refine Ensures.ite (fun _ => ?_) fun _ => flows_sendOther nofun
  exact Ensures.bind Ensures.any fun ctx _ => Ensures.pure (.of_eq rfl rfl rfl rfl)

/-- The acknowledgement of a read. -/
theorem flows_ackRead (r : Raft) (m : Message) : Ensures (r.ackRead m) (Flows y r) := by
  have hro : ∀ ro, Flows y r { r with readOnly := ro } := fun ro => .of_eq rfl rfl rfl rfl
  unfold ackRead
  refine Ensures.ite (fun _ => Ensures.pure (.refl y r)) fun _ => ?_
  refine Ensures.ite (fun _ => Ensures.pure (hro _)) fun _ => ?_
  refine Ensures.bind Ensures.any fun q _ => ?_
  refine Ensures.foldlM _ (fun r₁ rs _ h₁ => ?_) _ (hro _)
  exact (r₁.flows_answerRead rs.req rs.index).mono fun r' hr' => h₁.trans hr'

/-! ## The messages of a peer -/

/-- `step_leader` on the answer to an append. -/
theorem flows_stepLeaderAppResp {m : Message} (hget : r.getProgress m.fromId = some p) :
    Ensures (r.stepLeaderAppResp m p) (Flows y r) := by
  have hput : ∀ q : Progress, p.Flows q → Flows y r (r.putProgress m.fromId q) :=
    fun q hq => flows_putProgress hget hq
  have hheard : p.Flows { p with recentActive := true } := .same rfl rfl rfl
  unfold stepLeaderAppResp
  dsimp only
  refine Ensures.ite (fun _ => ?_) fun _ => ?_
  · have hdecreased := hheard.trans (Progress.flows_maybeDecreasesTo _ m.index m.rejectHint)
    generalize Progress.maybeDecreasesTo _ m.index m.rejectHint = q at hdecreased ⊢
    refine Ensures.ite (fun _ => ?_) fun _ => Ensures.pure (hput _ hdecreased)
    refine (flows_sendAppend _ m.fromId).mono fun r' hr' => (hput _ ?_).trans hr'
    split_ifs
    · exact hdecreased.trans q.2.flows_becomeProbe
    · exact hdecreased
  · have hupdated := hheard.trans (Progress.flows_maybeUpdate _ m.index)
    generalize Progress.maybeUpdate _ m.index = q at hupdated ⊢
    refine Ensures.ite (fun _ => ?_) fun _ => Ensures.pure (hput _ hupdated)
    refine Ensures.bind (q.2.flows_progressOnAck m.index) fun q' hq' => ?_
    exact (flows_sendOnAck _ m.fromId _).mono fun r' hr' => (hput _ (hupdated.trans hq')).trans hr'

/-- `step_leader` on the answer to a heartbeat. -/
theorem flows_stepLeaderHeartbeatResp {m : Message} (hget : r.getProgress m.fromId = some p) :
    Ensures (r.stepLeaderHeartbeatResp m p) (Flows y r) := by
  unfold stepLeaderHeartbeatResp
  refine Ensures.bind p.flows_progressOnHeartbeat fun q hq => ?_
  have hput : Flows y r (r.putProgress m.fromId q) := flows_putProgress hget hq
  refine Ensures.ite (fun _ => ?_) fun _ => (flows_ackRead _ m).mono fun r' hr' => hput.trans hr'
  refine Ensures.bind (flows_sendAppend (y := y) _ m.fromId) fun r₁ h₁ => ?_
  exact (r₁.flows_ackRead m).mono fun r' hr' => hput.trans (h₁.trans hr')

/-- `step_leader` on a request to transfer the leadership. -/
theorem flows_stepLeaderTransfer (r : Raft) (m : Message) (p : Progress) :
    Ensures (r.stepLeaderTransfer m p) (Flows y r) := by
  have hstart : ∀ r₁ : Raft, Flows y r r₁ → Ensures (r₁.startTransfer m.fromId p) (Flows y r) := by
    intro r₁ h₁
    unfold startTransfer
    refine Ensures.ite (fun _ => Ensures.ok h₁) fun _ => ?_
    have h₂ : Flows y r { r₁ with electionElapsed := 0, leadTransferee := m.fromId } :=
      h₁.trans (.of_eq rfl rfl rfl rfl)
    refine Ensures.ite (fun _ => ?_) fun _ => ?_
    · exact (flows_sendTimeoutNow _ _).mono fun r' hr' => h₂.trans hr'
    · exact (flows_sendAppend _ _).mono fun r' hr' => h₂.trans hr'
  unfold stepLeaderTransfer
  refine Ensures.ite (fun _ => Ensures.ok (.refl y r)) fun _ => ?_
  refine Ensures.ite (fun _ => ?_) fun _ => hstart r (.refl y r)
  exact Ensures.ite (fun _ => Ensures.ok (.refl y r)) fun _ => hstart _ (.of_eq rfl rfl rfl rfl)

/-- `step_leader` on the messages that concern the progress of their sender. -/
theorem flows_stepLeaderPeer (r : Raft) (m : Message) : Ensures (r.stepLeaderPeer m) (Flows y r) := by
  unfold stepLeaderPeer
  cases hget : r.getProgress m.fromId with
  | none => exact Ensures.ok (.refl y r)
  | some p =>
    have hput : ∀ q : Progress, p.Flows q → Flows y r (r.putProgress m.fromId q) :=
      fun q hq => flows_putProgress hget hq
    dsimp only
    split
    · exact flows_stepLeaderAppResp hget
    · exact flows_stepLeaderHeartbeatResp hget
    · refine Ensures.ok ?_
      have hfailed : p.Flows p.snapshotFailure := .same rfl rfl rfl
      unfold stepLeaderSnapStatus
      split_ifs
      · exact .refl y r
      · exact hput _ ((hfailed.trans (Progress.flows_becomeProbe _)).trans (Progress.flows_setPause _))
      · exact hput _ (p.flows_becomeProbe.trans (Progress.flows_setPause _))
    · exact Ensures.ite (fun _ => Ensures.ok (hput _ p.flows_becomeProbe)) fun _ => Ensures.ok (.refl y r)
    · exact r.flows_stepLeaderTransfer m p
    · exact Ensures.ok (.refl y r)

/-- `step_leader` on a read request. -/
theorem flows_stepLeaderReadIndex (r : Raft) (m : Message) :
    Ensures (r.stepLeaderReadIndex m) (Flows y r) := by
  unfold stepLeaderReadIndex
  refine Ensures.ite (fun _ => ?_) fun _ => ?_
  · split
    · exact Ensures.pure (.refl y r)
    · refine Ensures.ite (fun _ => Ensures.pure (.refl y r)) fun _ => ?_
      split
      · refine Ensures.bind Ensures.any fun ro _ => ?_
        refine Ensures.bind Ensures.any fun ctx _ => ?_
        have hro : Flows y r { r with readOnly := ro } := .of_eq rfl rfl rfl rfl
        exact (flows_bcastHeartbeatWithCtx _ ctx).mono fun r' hr' => hro.trans hr'
      · exact r.flows_answerRead m _
  · exact Ensures.bind Ensures.any fun ctx _ => Ensures.pure (.of_eq rfl rfl rfl rfl)

/-! ## Roles -/

/-- A reset leaves the limit alone. -/
@[simp] theorem reset_maxInflight (r : Raft) (t : ℕ) : (r.reset t).maxInflight = r.maxInflight := by
  unfold reset
  dsimp only
  split_ifs
  · rfl
  · rfl

/-- It starts every progress anew. -/
theorem fresh_reset {t : ℕ} (h : (r.reset t).getProgress y = some p) :
    p.state = .probe ∧ p.paused = false ∧ p.inflights = InFlights.new r.maxInflight := by
  have hnew : ∀ (r₁ : Raft) (q : Progress), r₁.maxInflight = r.maxInflight → p = r₁.freshProgress y q →
      p.state = .probe ∧ p.paused = false ∧ p.inflights = InFlights.new r.maxInflight := by
    rintro r₁ q hmax rfl
    refine ⟨rfl, rfl, ?_⟩
    rw [← hmax]
    rfl
  simp only [getProgress, reset, AList.lookup_mapVal] at h
  rw [Option.or_eq_some_iff] at h
  obtain h | ⟨-, h⟩ := h
  all_goals
    obtain ⟨q, -, hq⟩ := Option.map_eq_some_iff.mp h
    refine hnew _ q ?_ hq.symm
    split_ifs
    · rfl
    · rfl

/-- So does it every account. -/
theorem flows_reset (r : Raft) (t : ℕ) : Flows y r (r.reset t) := by
  have hmax := r.reset_maxInflight t
  have hflown : (r.reset t).flown y = r.flown y := by
    unfold flown
    rw [reset_msgs]
  cases hget : (r.reset t).getProgress y with
  | none => exact .single fun _ => ⟨_, .gone hmax hget hflown⟩
  | some p =>
    obtain ⟨hstate, hpaused, hinflights⟩ := fresh_reset hget
    exact .single fun _ => ⟨_, .renewed hmax hget hstate hpaused (hmax.symm ▸ hinflights) hflown⟩

/-- `become_follower`. -/
theorem flows_becomeFollower (r : Raft) (t lead : ℕ) : Flows y r (r.becomeFollower t lead) :=
  (r.flows_reset t).trans (.of_eq rfl rfl rfl rfl)

/-- `append_entry`. -/
theorem flows_appendEntry (r : Raft) (es : List Entry) :
    Ensures (r.appendEntry es) fun q => Flows y r q.2 := by
  unfold appendEntry
  dsimp only
  cases hinc : r.increaseUncommittedSize (stampEntries r.term (r.raftLog.lastIndex + 1) es) with
  | none => exact Ensures.pure (.refl y r)
  | some r₁ =>
    obtain ⟨n, rfl⟩ := increaseUncommittedSize_eq hinc
    refine Ensures.bind Ensures.any fun l _ => ?_
    have happ : Flows y r { r with uncommittedSize := n, raftLog := l } := .of_eq rfl rfl rfl rfl
    refine Ensures.bind peerProgress_eq fun pr hget => ?_
    refine Ensures.bind (flows_maybeCommit (y := y) _) fun q hq => Ensures.pure ?_
    exact (happ.trans (flows_putProgress hget (pr.flows_maybeUpdate _))).trans hq

/-- `become_leader`. -/
theorem flows_becomeLeader (r : Raft) : Ensures r.becomeLeader (Flows y r) := by
  unfold becomeLeader
  refine Ensures.ite (fun _ => Ensures.error) fun _ => ?_
  dsimp only
  split
  · exact Ensures.error
  · next p hself =>
    have htake : Flows y r r.takeLead := (r.flows_reset r.term).trans (.of_eq rfl rfl rfl rfl)
    have hget : r.takeLead.getProgress r.takeLead.id = some p := by
      rw [getProgress, hself, Option.some_or]
    have hmem : r.takeLead.id ∈ r.takeLead.prs := by
      rw [← AList.lookup_isSome, hself]
      rfl
    have hput : Flows y r.takeLead (r.takeLead.putProgress r.takeLead.id p.becomeReplicate) :=
      flows_putProgress hget p.flows_becomeReplicate
    rw [putProgress, if_pos hmem] at hput
    have helected : Flows y r (r.elected p) := (htake.trans hput).trans (.of_eq rfl rfl rfl rfl)
    refine Ensures.bind ((r.elected p).flows_appendEntry (y := y) [{}]) fun q hq => ?_
    refine Ensures.ite (fun _ => Ensures.error) fun _ => Ensures.pure ?_
    obtain ⟨size, hsize⟩ := q.2.reduceUncommittedSize_eq [{}]
    rw [hsize]
    exact (helected.trans hq).trans (.of_eq rfl rfl rfl rfl)

/-- The requests for votes. -/
theorem flows_requestVotes (r : Raft) {voteMsg : MessageType} (hvote : voteMsg ≠ .msgApp) (term : ℕ)
    (ctx : Bytes) : Ensures (r.requestVotes voteMsg term ctx) (Flows y r) := by
  unfold requestVotes
  refine Ensures.foldlM _ (fun r₁ id _ h₁ => ?_) r (.refl y r)
  refine Ensures.ite (fun _ => Ensures.ok h₁) fun _ => ?_
  exact (flows_sendOther hvote).mono fun r₂ h₂ => h₁.trans h₂

/-- `campaign` for the votes of the next term. -/
theorem flows_campaignElection (r : Raft) (ctx : Bytes) : Ensures (r.campaignElection ctx) (Flows y r) := by
  unfold campaignElection becomeCandidate
  refine Ensures.bind (P := Flows y r) ?_ fun r₁ h₁ => ?_
  · refine Ensures.ite (fun _ => Ensures.error) fun _ => Ensures.ok ?_
    exact (r.flows_reset (r.term + 1)).trans (.of_eq rfl rfl rfl rfl)
  have hpoll : Flows y r (r₁.poll r₁.id true).2 := h₁.trans (.of_eq rfl rfl rfl rfl)
  refine Ensures.ite (fun _ => ?_) fun _ => ?_
  · exact (flows_becomeLeader _).mono fun r' hr' => hpoll.trans hr'
  · exact (flows_requestVotes _ (by decide) _ _).mono fun r' hr' => hpoll.trans hr'

/-- `campaign` for pre-votes. -/
theorem flows_campaignPreElection (r : Raft) : Ensures r.campaignPreElection (Flows y r) := by
  unfold campaignPreElection becomePreCandidate
  refine Ensures.bind (P := Flows y r) ?_ fun r₁ h₁ => ?_
  · exact Ensures.ite (fun _ => Ensures.error) fun _ => Ensures.ok (.of_eq rfl rfl rfl rfl)
  have hpoll : Flows y r (r₁.poll r₁.id true).2 := h₁.trans (.of_eq rfl rfl rfl rfl)
  refine Ensures.ite (fun _ => ?_) fun _ => ?_
  · exact (flows_campaignElection _ []).mono fun r' hr' => hpoll.trans hr'
  · exact (flows_requestVotes _ (by decide) _ _).mono fun r' hr' => hpoll.trans hr'

/-- `step` on a request to campaign. -/
theorem flows_stepHup (r : Raft) : Ensures r.stepHup (Flows y r) := by
  unfold stepHup
  refine Ensures.ite (fun _ => Ensures.pure (.refl y r)) fun _ => ?_
  refine Ensures.bind Ensures.any fun p _ => ?_
  dsimp only
  refine Ensures.ite (fun _ => Ensures.error) fun _ => ?_
  refine Ensures.ite (fun _ => Ensures.pure (.refl y r)) fun _ => ?_
  cases r.preVote with
  | true => exact r.flows_campaignPreElection
  | false => exact r.flows_campaignElection []

/-! ## The messages of a leader -/

/-- `handle_append_entries`. -/
theorem flows_handleAppendEntries (r : Raft) (m : Message) :
    Ensures (r.handleAppendEntries m) (Flows y r) := by
  unfold handleAppendEntries
  refine Ensures.ite (fun _ => flows_sendOther nofun) fun _ => ?_
  refine Ensures.bind Ensures.any fun ⟨last, l⟩ _ => ?_
  have hlog : Flows y r { r with raftLog := l } := .of_eq rfl rfl rfl rfl
  dsimp only
  split
  · exact (flows_sendOther (by simp)).mono fun r' hr' => hlog.trans hr'
  · exact (flows_sendOther (by simp)).mono fun r' hr' => hlog.trans hr'

/-- `handle_heartbeat`. -/
theorem flows_handleHeartbeat (r : Raft) (m : Message) : Ensures (r.handleHeartbeat m) (Flows y r) := by
  unfold handleHeartbeat
  refine Ensures.bind Ensures.any fun l _ => ?_
  have hlog : Flows y r { r with raftLog := l } := .of_eq rfl rfl rfl rfl
  exact (flows_sendOther (by simp)).mono fun r' hr' => hlog.trans hr'

/-- `set_progress` starts the progress of a node anew. -/
theorem flows_setProgress (r : Raft) (id matched next : ℕ) (b : Bool) :
    Ensures (r.setProgress id matched next b) (Flows y r) := by
  have hrenewed : ∀ {r' : Raft} {p : Progress}, r'.maxInflight = r.maxInflight → r'.msgs = r.msgs →
      r'.getProgress y = some p → p.state = .probe → p.paused = false →
        p.inflights = InFlights.new r'.maxInflight → Flows y r r' := by
    intro r' p hmax hmsgs hget hstate hpaused hinflights
    refine .single fun _ => ⟨_, .renewed hmax hget hstate hpaused hinflights ?_⟩
    unfold flown
    rw [hmsgs]
  unfold setProgress
  refine Ensures.ite (fun _ => Ensures.ok ?_) fun _ => ?_
  · by_cases hy : y = id
    · subst hy
      refine hrenewed (p := { Progress.new r.maxInflight with next := next, matched := matched }) rfl rfl ?_
        rfl rfl rfl
      rw [getProgress, AList.lookup_insert, Option.some_or]
    · refine .aside rfl ?_ (Or.inl rfl)
      unfold getProgress
      rw [AList.lookup_insert_ne hy, AList.lookup_erase_ne hy]
  · refine Ensures.ite (fun _ => Ensures.error) fun hnew => Ensures.ok ?_
    by_cases hy : y = id
    · subst hy
      refine hrenewed (p := { Progress.new r.maxInflight with
        next := next, matched := matched, isLearner := true }) rfl rfl ?_ rfl rfl rfl
      rw [getProgress, AList.lookup_eq_none.mpr hnew, Option.none_or, AList.lookup_insert]
    · refine .aside rfl ?_ (Or.inl rfl)
      unfold getProgress
      rw [AList.lookup_insert_ne hy]

/-- `restore`. -/
theorem flows_restore (r : Raft) (s : Snapshot) : Ensures (r.restore s) fun q => Flows y r q.2 := by
  have hnode : ∀ (nodes : List ℕ) (b : Bool) (r : Raft), Ensures (r.restoreNode nodes b) (Flows y r) := by
    intro nodes b r
    unfold restoreNode
    refine Ensures.foldlM _ (fun r₁ node _ h₁ => ?_) r (.refl y r)
    dsimp only
    refine Ensures.bind (flows_setProgress (y := y) _ _ _ _ _) fun r₂ h₂ => ?_
    refine Ensures.bind Ensures.any fun _ _ => Ensures.pure (h₁.trans (Flows.trans ?_ h₂))
    split_ifs
    · exact .of_eq rfl rfl rfl rfl
    · exact .refl y r₁
  unfold restore
  refine Ensures.ite (fun _ => Ensures.pure (.refl y r)) fun _ => ?_
  refine Ensures.ite (fun _ => ?_) fun _ => ?_
  · exact Ensures.bind Ensures.any fun l _ => Ensures.pure (.of_eq rfl rfl rfl rfl)
  refine Ensures.ite (fun _ => Ensures.pure (.refl y r)) fun _ => ?_
  have hempty : Flows y r { r with raftLog := r.raftLog.restore s, prs := ∅, learnerPrs := ∅ } := by
    refine .single fun _ => ⟨_, .gone rfl ?_ rfl⟩
    rw [getProgress, AList.lookup_empty]
    rfl
  refine Ensures.bind (hnode _ false _) fun r₁ h₁ => ?_
  exact Ensures.bind (hnode _ true r₁) fun r₂ h₂ => Ensures.pure (hempty.trans (h₁.trans h₂))

/-- `handle_snapshot`. -/
theorem flows_handleSnapshot (r : Raft) (m : Message) : Ensures (r.handleSnapshot m) (Flows y r) := by
  unfold handleSnapshot
  refine Ensures.bind (r.flows_restore (y := y) m.snapshot) fun q hq => ?_
  exact (flows_sendOther (by simp)).mono fun r' hr' => hq.trans hr'

/-! ## Stepping -/

/-- `step_leader`. -/
theorem flows_stepLeader (r : Raft) (m : Message) : Ensures (r.stepLeader m) fun q => Flows y r q.2 := by
  unfold stepLeader
  split
  · unfold bcastHeartbeat
    exact Ensures.bind (r.flows_bcastHeartbeatWithCtx _) fun r' hr' => Ensures.pure hr'
  · refine Ensures.pure ?_
    dsimp only
    split_ifs
    · exact .refl y r
    · exact r.flows_becomeFollower _ _
  · unfold stepLeaderProp
    refine Ensures.ite (fun _ => Ensures.error) fun _ => ?_
    refine Ensures.ite (fun _ => Ensures.pure (.refl y r)) fun _ => ?_
    refine Ensures.ite (fun _ => Ensures.pure (.refl y r)) fun _ => ?_
    generalize filterConfChanges r.raftLog.applied r.raftLog.lastIndex 0 r.pendingConfIndex m.entries = pair
    have hpending : Flows y r { r with pendingConfIndex := pair.1 } := .of_eq rfl rfl rfl rfl
    refine Ensures.bind (flows_appendEntry (y := y) _ pair.2) fun q hq => ?_
    refine Ensures.ite (fun _ => Ensures.pure (hpending.trans hq)) fun _ => ?_
    exact Ensures.bind q.2.flows_bcastAppend fun r' hr' => Ensures.pure ((hpending.trans hq).trans hr')
  · exact Ensures.bind (r.flows_stepLeaderReadIndex m) fun r' hr' => Ensures.pure hr'
  · exact Ensures.bind (r.flows_stepLeaderPeer m) fun r' hr' => Ensures.pure hr'

/-- `step_candidate`. -/
theorem flows_stepCandidate (r : Raft) (m : Message) : Ensures (r.stepCandidate m) fun q => Flows y r q.2 := by
  have hfollow : Flows y r (r.becomeFollower m.term m.fromId) := r.flows_becomeFollower _ _
  have hvote : Ensures (r.stepCandidateVoteResp m) (Flows y r) := by
    have hpoll : Flows y r (r.poll m.fromId (!m.reject)).2 := .of_eq rfl rfl rfl rfl
    unfold stepCandidateVoteResp
    dsimp only
    refine Ensures.ite (fun _ => ?_) fun _ => ?_
    · refine Ensures.ite (fun _ => ?_) fun _ => ?_
      · exact (flows_campaignElection _ []).mono fun r' hr' => hpoll.trans hr'
      refine Ensures.ite (fun _ => ?_) fun _ => Ensures.error
      refine Ensures.bind (flows_becomeLeader (y := y) _) fun r₁ h₁ => ?_
      exact r₁.flows_bcastAppend.mono fun r' hr' => (hpoll.trans h₁).trans hr'
    · refine Ensures.ite (fun _ => Ensures.pure ?_) fun _ => Ensures.pure hpoll
      exact hpoll.trans (flows_becomeFollower _ _ _)
  unfold stepCandidate
  split
  · exact Ensures.pure (.refl y r)
  · exact Ensures.bind (flows_handleAppendEntries _ m) fun r' hr' => Ensures.pure (hfollow.trans hr')
  · exact Ensures.bind (flows_handleHeartbeat _ m) fun r' hr' => Ensures.pure (hfollow.trans hr')
  · exact Ensures.bind (flows_handleSnapshot _ m) fun r' hr' => Ensures.pure (hfollow.trans hr')
  · exact Ensures.bind hvote fun r' hr' => Ensures.pure hr'
  · exact Ensures.bind hvote fun r' hr' => Ensures.pure hr'
  · exact Ensures.pure (.refl y r)

/-- `step_follower`. -/
theorem flows_stepFollower (r : Raft) (m : Message) : Ensures (r.stepFollower m) fun q => Flows y r q.2 := by
  have hheard : Flows y r { r with electionElapsed := 0, lead := m.fromId } := .of_eq rfl rfl rfl rfl
  have hsame : ∀ {st : Status}, Ensures (Pure.pure (st, r) : Result (Status × Raft))
      fun q => Flows y r q.2 := Ensures.pure (.refl y r)
  have hforward : ∀ x : Message, x.type ≠ .msgApp → Ensures (do
      let r' ← r.send x
      return (Status.ok, r')) fun q => Flows y r q.2 := fun x hx =>
    Ensures.bind (flows_sendOther hx) fun r' hr' => Ensures.pure hr'
  unfold stepFollower
  cases htype : m.type with
  | msgProp =>
    refine Ensures.ite (fun _ => hsame) fun _ => Ensures.ite (fun _ => hsame) fun _ => ?_
    exact hforward _ (by simp)
  | msgApp =>
    exact Ensures.bind (flows_handleAppendEntries _ m) fun r' hr' => Ensures.pure (hheard.trans hr')
  | msgHeartbeat =>
    exact Ensures.bind (flows_handleHeartbeat _ m) fun r' hr' => Ensures.pure (hheard.trans hr')
  | msgSnap =>
    exact Ensures.bind (flows_handleSnapshot _ m) fun r' hr' => Ensures.pure (hheard.trans hr')
  | msgTransferLeader | msgReadIndex =>
    exact Ensures.ite (fun _ => hsame) fun _ => hforward _ (by simp)
  | msgTimeoutNow =>
    refine Ensures.ite (fun _ => ?_) fun _ => hsame
    exact Ensures.bind (r.flows_campaignElection _) fun r' hr' => Ensures.pure hr'
  | msgReadIndexResp =>
    refine Ensures.pure ?_
    unfold stepFollowerReadIndexResp
    split
    · exact .of_eq rfl rfl rfl rfl
    · exact .refl y r
  | _ => exact hsame

/-- `step` on a request for a vote. -/
theorem flows_stepVote (r : Raft) (m : Message) : Ensures (r.stepVote m) (Flows y r) := by
  have hresp : Ensures (voteRespMsgType m.type) fun t => t ≠ .msgApp := by
    unfold voteRespMsgType
    split
    · exact Ensures.ok nofun
    · exact Ensures.ok nofun
    · exact Ensures.error
  unfold stepVote
  refine Ensures.ite (fun _ => Ensures.pure (.refl y r)) fun _ => ?_
  refine Ensures.bind hresp fun respType hrespType => ?_
  refine Ensures.ite (fun _ => ?_) fun _ => flows_sendOther hrespType
  refine Ensures.bind (flows_sendOther (y := y) hrespType) fun r₁ h₁ => ?_
  refine Ensures.ite (fun _ => Ensures.pure ?_) fun _ => Ensures.pure h₁
  exact h₁.trans (.of_eq rfl rfl rfl rfl)

/-- `step` past the check of the term. -/
theorem flows_stepBody (r : Raft) (m : Message) : Ensures (r.stepBody m) fun q => Flows y r q.2 := by
  unfold stepBody
  split
  · exact Ensures.bind r.flows_stepHup fun r' hr' => Ensures.pure hr'
  · exact Ensures.bind (r.flows_stepVote m) fun r' hr' => Ensures.pure hr'
  · exact Ensures.bind (r.flows_stepVote m) fun r' hr' => Ensures.pure hr'
  · unfold stepRole
    split
    · exact r.flows_stepLeader m
    · exact r.flows_stepCandidate m
    · exact r.flows_stepCandidate m
    · exact r.flows_stepFollower m

/-- `step`. -/
theorem flows_step (r : Raft) (m : Message) : Ensures (r.step m) fun q => Flows y r q.2 := by
  apply step_ensures
  · exact r.flows_stepBody m
  · intro lead _ _
    exact (flows_stepBody _ m).mono fun q hq => (r.flows_becomeFollower m.term lead).trans hq
  · exact .refl y r
  · unfold stepLowerTerm
    refine Ensures.ite (fun _ => flows_sendOther nofun) fun _ => ?_
    refine Ensures.ite (fun _ => flows_sendOther nofun) fun _ => ?_
    exact Ensures.bind Ensures.any fun _ _ => Ensures.pure (.refl y r)

/-- `tick`. -/
theorem flows_tick (r : Raft) : Ensures r.tick (Flows y r) := by
  have hstep : ∀ (r₁ r₂ : Raft) (m : Message), Flows y r r₁ → Flows y r₁ r₂ →
      Ensures (r₂.step m >>= fun p => pure p.2) (Flows y r) := fun r₁ r₂ m h₁ h₂ =>
    Ensures.bind (r₂.flows_step m) fun q hq => Ensures.pure ((h₁.trans h₂).trans hq)
  have hticked : ∀ n k, Flows y r { r with heartbeatElapsed := n, electionElapsed := k } :=
    fun n k => .of_eq rfl rfl rfl rfl
  by_cases hl : r.state = .leader
  · rw [tick_leader hl]
    unfold tickHeartbeat
    refine Ensures.bind (P := Flows y r) ?_ fun r₁ h₁ => ?_
    · unfold tickQuorum
      refine Ensures.ite (fun _ => ?_) fun _ => Ensures.pure (hticked _ _)
      refine Ensures.bind (P := Flows y r) ?_ fun r₁ h₁ => ?_
      · unfold tickCheckQuorum
        refine Ensures.ite (fun _ => ?_) fun _ => Ensures.pure (.of_eq rfl rfl rfl rfl)
        exact hstep r _ _ (.refl y r) (.of_eq rfl rfl rfl rfl)
      · refine Ensures.ite (fun _ => Ensures.pure ?_) fun _ => Ensures.pure h₁
        exact h₁.trans (.of_eq rfl rfl rfl rfl)
    · refine Ensures.ite (fun _ => Ensures.pure h₁) fun _ => ?_
      refine Ensures.ite (fun _ => ?_) fun _ => Ensures.pure h₁
      exact hstep r₁ _ _ h₁ (.of_eq rfl rfl rfl rfl)
  · rw [tick_election hl]
    unfold tickElection
    refine Ensures.ite (fun _ => ?_) fun _ => Ensures.pure (.of_eq rfl rfl rfl rfl)
    exact hstep r _ _ (.refl y r) (.of_eq rfl rfl rfl rfl)

/-! ## Changing the membership -/

/-- The end of `add_node_or_learner`. -/
theorem flows_markActive (r : Raft) (id : ℕ) (b : Bool) : Ensures (r.markActive id b) (Flows y r) := by
  unfold markActive
  refine Ensures.bind peerProgress_eq fun pr hget => Ensures.pure ?_
  refine Flows.trans ?_ (flows_putProgress hget (.same rfl rfl rfl))
  split_ifs
  · exact .of_eq rfl rfl rfl rfl
  · exact .refl y r

/-- `add_node_or_learner`. -/
theorem flows_addNodeOrLearner (r : Raft) (id : ℕ) (b : Bool) :
    Ensures (r.addNodeOrLearner id b) (Flows y r) := by
  unfold addNodeOrLearner
  cases hget : r.getProgress id with
  | none =>
    refine Ensures.bind (r.flows_setProgress (y := y) _ _ _ _) fun r₁ h₁ => ?_
    exact (r₁.flows_markActive id b).mono fun r' hr' => h₁.trans hr'
  | some pr =>
    refine Ensures.ite (fun _ => Ensures.pure (.refl y r)) fun _ => ?_
    refine Ensures.ite (fun _ => Ensures.pure (.refl y r)) fun _ => ?_
    refine (flows_markActive _ id b).mono fun r' hr' => Flows.trans ?_ hr'
    by_cases hy : y = id
    · subst hy
      have hsame : pr.Flows { pr with isLearner := false } := .same rfl rfl rfl
      refine .single fun g => ?_
      obtain ⟨g', hg⟩ := hsame g
      refine ⟨g', .peer rfl hget ?_ rfl hg⟩
      rw [getProgress, AList.lookup_insert, Option.some_or]
    · refine .aside rfl ?_ (Or.inl rfl)
      unfold getProgress
      rw [AList.lookup_insert_ne hy, AList.lookup_erase_ne hy]

/-- `remove_node`. -/
theorem flows_removeNode (r : Raft) (id : ℕ) : Ensures (r.removeNode id) (Flows y r) := by
  have hdel : Flows y r (r.delProgress id) := by
    by_cases hy : y = id
    · subst hy
      refine .single fun _ => ⟨_, .gone rfl ?_ rfl⟩
      unfold delProgress getProgress
      rw [AList.lookup_erase, AList.lookup_erase]
      rfl
    · refine .aside rfl ?_ (Or.inl rfl)
      unfold delProgress getProgress
      rw [AList.lookup_erase_ne hy, AList.lookup_erase_ne hy]
  have hend : ∀ r₁, Flows y r r₁ → Ensures (if r₁.state = .leader ∧ r₁.leadTransferee = id then
      (Pure.pure r₁.abortLeaderTransfer : Result Raft) else Pure.pure r₁) (Flows y r) := fun r₁ h₁ => by
    refine Ensures.ite (fun _ => Ensures.pure ?_) fun _ => Ensures.pure h₁
    exact h₁.trans (.of_eq rfl rfl rfl rfl)
  unfold removeNode
  refine Ensures.ite (fun _ => Ensures.pure hdel) fun _ => ?_
  refine Ensures.bind (flows_maybeCommit (y := y) _) fun q hq => ?_
  refine Ensures.ite (fun _ => ?_) fun _ => Ensures.bind (Ensures.pure (hdel.trans hq)) hend
  exact Ensures.bind (flows_bcastAppend (y := y) _) fun r₁ h₁ => hend r₁ ((hdel.trans hq).trans h₁)

end Raft

namespace Host

/-- The account of a peer is kept along every event. -/
theorem flows_handle {h h' : Host} {e : HostEvent} (y : ℕ) (hh : h.handle e = .ok h') :
    Raft.Flows y h.node.raft h'.node.raft := by
  have hmessage : ∀ {m : Message}, e.cause = some (.step m) → Raft.Flows y h.node.raft h'.node.raft := by
    intro m hc
    obtain heq | ⟨status, hstep⟩ := stepped hc hh
    · rw [heq]
      exact .refl y _
    · exact h.node.raft.flows_step m _ hstep
  cases e with
  | step m | call m => exact hmessage rfl
  | tick =>
    obtain ⟨n, hn, hh⟩ := bind_eq_ok.mp hh
    cases hh
    obtain ⟨r, hr, hn⟩ := bind_eq_ok.mp hn
    cases hn
    exact h.node.raft.flows_tick r hr
  | applyConfChange cc =>
    obtain ⟨p, hp, hh⟩ := bind_eq_ok.mp hh
    cases hh
    refine (Ensures.mono ?_ fun q hq => hq : Ensures (h.node.applyConfChange cc)
      fun q => Raft.Flows y h.node.raft q.2.raft) p hp
    have hadd : ∀ b, Ensures (h.node.raft.addNodeOrLearner cc.nodeId b) (Raft.Flows y h.node.raft) :=
      fun b => h.node.raft.flows_addNodeOrLearner cc.nodeId b
    have hremove : Ensures (h.node.raft.removeNode cc.nodeId) (Raft.Flows y h.node.raft) :=
      h.node.raft.flows_removeNode cc.nodeId
    unfold RawNode.applyConfChange
    refine Ensures.ite (fun _ => Ensures.pure (.refl y _)) fun _ => ?_
    refine Ensures.ite (fun _ => Ensures.bind (hadd false) fun r' hr' => Ensures.pure hr') fun _ => ?_
    refine Ensures.ite (fun _ => Ensures.bind (hadd true) fun r' hr' => Ensures.pure hr') fun _ => ?_
    refine Ensures.ite (fun _ => Ensures.bind hremove fun r' hr' => Ensures.pure hr') fun _ => ?_
    exact Ensures.ite (fun _ => Ensures.pure (.refl y _)) fun _ => Ensures.bind Ensures.throw fun _ hr' => hr'
  | _ =>
    obtain ⟨l, msgs, readStates, size, heq, -, hmsgs, -⟩ := (handled hh).frame rfl
    rw [heq]
    refine .aside rfl rfl ?_
    obtain rfl | rfl := hmsgs
    · exact Or.inl rfl
    · exact Or.inr rfl

end Host

end RaftCpp
