import RaftCpp.Library.AssocMap
import RaftCpp.Raft.Tenure

/-!
# Whom a leader has heard from

A leader notes in the progress of each peer that it has heard from the peer. None of its handlers takes
such a note back, as long as the node leads its term.
-/

namespace RaftCpp

open Outcome

variable {c : Cause} {r r' r'' : Raft}

/-- The progress of a peer that was heard from stays one of a peer that was. -/
structure Progress.Extends (p p' : Progress) : Prop where
  /-- A voter stays a voter, and a learner a learner. -/
  isLearner : p'.isLearner = p.isLearner
  /-- The peer was heard from, if it was before. -/
  recentActive : p.recentActive = true → p'.recentActive = true

/-- The peers are the same, and those that were heard from before still count as such. -/
structure KeepsActive (r r' : Raft) : Prop where
  /-- The identity. -/
  id : r'.id = r.id
  /-- The number of voters that decide. -/
  quorum : r'.quorum = r.quorum
  /-- The voters. -/
  prs : ∀ y p, r.prs.lookup y = some p → ∃ p', r'.prs.lookup y = some p' ∧ p.Extends p'
  /-- The learners. -/
  learnerPrs : ∀ y p, r.learnerPrs.lookup y = some p →
    ∃ p', r'.learnerPrs.lookup y = some p' ∧ p.Extends p'

namespace Progress.Extends

variable {p p' p'' : Progress}

/-- Nothing changes. -/
theorem refl (p : Progress) : p.Extends p := ⟨rfl, fun h => h⟩

/-- One change after another. -/
theorem trans (h : p.Extends p') (h' : p'.Extends p'') : p.Extends p'' :=
  ⟨h'.isLearner.trans h.isLearner, fun ha => h'.recentActive (h.recentActive ha)⟩

/-- The peer is heard from. -/
theorem active (p : Progress) : p.Extends { p with recentActive := true } := ⟨rfl, fun _ => rfl⟩

/-- Neither flag changes. -/
theorem of_eq (hl : p'.isLearner = p.isLearner) (ha : p'.recentActive = p.recentActive) :
    p.Extends p' := ⟨hl, fun h => ha.trans h⟩

/-- `become_probe`. -/
theorem becomeProbe (p : Progress) : p.Extends p.becomeProbe := by
  unfold Progress.becomeProbe
  split_ifs
  · exact ⟨rfl, fun h => h⟩
  · exact ⟨rfl, fun h => h⟩

/-- `maybe_update`. -/
theorem maybeUpdate (p : Progress) (n : ℕ) : p.Extends (p.maybeUpdate n).2 := by
  unfold Progress.maybeUpdate
  dsimp only
  split_ifs <;> exact ⟨rfl, fun h => h⟩

/-- `maybe_decreases_to`. -/
theorem maybeDecreasesTo (p : Progress) (rejected last : ℕ) :
    p.Extends (p.maybeDecreasesTo rejected last).2 := by
  unfold Progress.maybeDecreasesTo
  split_ifs <;> exact ⟨rfl, fun h => h⟩

end Progress.Extends

namespace KeepsActive

/-- Nothing changes. -/
theorem refl (r : Raft) : KeepsActive r r :=
  ⟨rfl, rfl, fun _ p hp => ⟨p, hp, .refl p⟩, fun _ p hp => ⟨p, hp, .refl p⟩⟩

/-- One change after another. -/
theorem trans (h : KeepsActive r r') (h' : KeepsActive r' r'') : KeepsActive r r'' := by
  constructor
  · exact h'.id.trans h.id
  · exact h'.quorum.trans h.quorum
  · intro y p hp
    obtain ⟨p', hp', hext⟩ := h.prs y p hp
    obtain ⟨p'', hp'', hext'⟩ := h'.prs y p' hp'
    exact ⟨p'', hp'', hext.trans hext'⟩
  · intro y p hp
    obtain ⟨p', hp', hext⟩ := h.learnerPrs y p hp
    obtain ⟨p'', hp'', hext'⟩ := h'.learnerPrs y p' hp'
    exact ⟨p'', hp'', hext.trans hext'⟩

/-- Something else changes. -/
theorem of_eq (hid : r'.id = r.id) (hprs : r'.prs = r.prs) (hlprs : r'.learnerPrs = r.learnerPrs) :
    KeepsActive r r' := by
  constructor
  · exact hid
  · unfold Raft.quorum
    rw [hprs]
  · intro y p hp
    exact ⟨p, by rw [hprs, hp], .refl p⟩
  · intro y p hp
    exact ⟨p, by rw [hlprs, hp], .refl p⟩

/-- Whether `check_quorum_active` counts a peer. -/
def counts (r : Raft) (y : ℕ) (p : Progress) : Bool :=
  y == r.id || (p.recentActive && !p.isLearner)

/-- A peer that was counted before is counted. -/
theorem counts_of_extends (h : KeepsActive r r') {y : ℕ} {p p' : Progress} (hext : p.Extends p')
    (hp : counts r y p = true) : counts r' y p' = true := by
  unfold counts at hp ⊢
  rw [h.id, hext.isLearner]
  simp only [Bool.or_eq_true, Bool.and_eq_true] at hp ⊢
  exact hp.imp_right fun hp => ⟨hext.recentActive hp.1, hp.2⟩

/-- The quorum that was active before is active. -/
theorem checkQuorumActive (h : KeepsActive r r') (hact : r.checkQuorumActive = true) :
    r'.checkQuorumActive = true := by
  have hprs : r.prs.entries.countP (fun e => counts r e.1 e.2) ≤
      r'.prs.entries.countP fun e => counts r' e.1 e.2 :=
    AList.countP_le_countP (counts r) (counts r') fun y p hlook hp => by
      obtain ⟨p', hlook', hext⟩ := h.prs y p hlook
      exact ⟨p', hlook', h.counts_of_extends hext hp⟩
  have hlprs : r.learnerPrs.entries.countP (fun e => counts r e.1 e.2) ≤
      r'.learnerPrs.entries.countP fun e => counts r' e.1 e.2 :=
    AList.countP_le_countP (counts r) (counts r') fun y p hlook hp => by
      obtain ⟨p', hlook', hext⟩ := h.learnerPrs y p hlook
      exact ⟨p', hlook', h.counts_of_extends hext hp⟩
  have hle : r.quorum ≤ (r.prs.entries ++ r.learnerPrs.entries).countP fun e => counts r e.1 e.2 :=
    of_decide_eq_true hact
  refine decide_eq_true ?_
  show r'.quorum ≤ (r'.prs.entries ++ r'.learnerPrs.entries).countP fun e => counts r' e.1 e.2
  rw [List.countP_append] at hle ⊢
  rw [h.quorum]
  omega

end KeepsActive

namespace Raft

/-! ## What a leader does to the progress of its peers -/

/-- Writing a progress. -/
theorem keeps_putProgress {y : ℕ} {p p' : Progress} (hget : r.getProgress y = some p)
    (hext : p.Extends p') : KeepsActive r (r.putProgress y p') := by
  have hq : (r.putProgress y p').quorum = r.quorum :=
    congrArg Outline.quorum (r.putProgress_outline y p')
  have hid : (r.putProgress y p').id = r.id := congrArg Outline.id (r.putProgress_outline y p')
  unfold getProgress at hget
  unfold putProgress at hq hid ⊢
  split_ifs at hq hid ⊢ with h₁ h₂
  · obtain ⟨q, hq'⟩ := Option.isSome_iff_exists.mp (AList.lookup_isSome.mpr h₁)
    rw [hq', Option.some_or] at hget
    cases hget
    refine ⟨hid, hq, fun z q hz => ?_, fun z q hz => ⟨q, hz, .refl q⟩⟩
    by_cases hzy : z = y
    · subst hzy
      rw [hq'] at hz
      cases hz
      exact ⟨p', AList.lookup_insert _, hext⟩
    · exact ⟨q, by rw [AList.lookup_insert_ne hzy, hz], .refl q⟩
  · rw [AList.lookup_eq_none.mpr h₁, Option.none_or] at hget
    refine ⟨hid, hq, fun z q hz => ⟨q, hz, .refl q⟩, fun z q hz => ?_⟩
    by_cases hzy : z = y
    · subst hzy
      rw [hget] at hz
      cases hz
      exact ⟨p', AList.lookup_insert _, hext⟩
    · exact ⟨q, by rw [AList.lookup_insert_ne hzy, hz], .refl q⟩
  · exact KeepsActive.refl r

end Raft

/-- A change of the progress of a peer. -/
theorem PeerMove.extends {s : Raft} {y : ℕ} {p p' : Progress} (h : PeerMove c s r y p p') :
    p.Extends p' := by
  cases h with
  | heard => exact .active p
  | probe => exact .becomeProbe p
  | own | acked => exact .maybeUpdate p _
  | rejected => exact .maybeDecreasesTo p _ _
  | _ => exact .of_eq rfl rfl

/-- Changes of the progress of a peer. -/
theorem PeerCourse.extends {s : Raft} {y : ℕ} {p p' : Progress} (h : PeerCourse c s r y p p') :
    p.Extends p' := by
  induction h with
  | refl => exact .refl p
  | tail _ hmove ih => exact ih.trans hmove.extends

/-- The reads and the messages do not count as a change. -/
theorem Raft.OnlyReads.keepsActive (h : r.OnlyReads r') : KeepsActive r r' := by
  obtain ⟨rs, ms, ro, rfl⟩ := h
  exact .of_eq rfl rfl rfl

/-- A move of a leader. -/
theorem LeaderMove.keepsActive {s : Raft} (h : LeaderMove c s r r') : KeepsActive r r' := by
  cases h with
  | send x hx hne h =>
    obtain ⟨rfl, -⟩ := Raft.send_eq h
    exact .of_eq rfl rfl rfl
  | peer y p p' hget h => exact Raft.keeps_putProgress hget h.extends
  | serve m hc htype hnow h => exact (Raft.onlyReads_serve m hnow _ h).keepsActive
  | confirm m hc htype hknown h => exact (Raft.onlyReads_ackRead m _ h).keepsActive
  | _ => exact .of_eq rfl rfl rfl

/-- Moves of a leader. -/
theorem LeaderCourse.keepsActive {s : Raft} (h : LeaderCourse c s r r') : KeepsActive r r' := by
  induction h with
  | refl => exact .refl r
  | tail _ hmove ih => exact ih.trans hmove.keepsActive

end RaftCpp
