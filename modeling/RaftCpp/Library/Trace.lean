import Mathlib.Data.List.Basic
import Mathlib.Data.List.Induction
import Mathlib.Logic.Function.Basic

/-!
# Runs of a machine, with their steps

A machine takes a state and an event to the next state, or fails. A trace lists the steps of a run that
did not fail, each with the state before it, the event, and the state after it, so that a property of a
run can be stated of its steps.
-/

universe u v w

variable {σ : Type u} {ε : Type v} {κ : Type w}

/-- One step of a run. -/
structure Turn (σ : Type u) (ε : Type v) where
  /-- The state before the step. -/
  before : σ
  /-- The event. -/
  event : ε
  /-- The state after the step. -/
  after : σ

/-- A run from one state to another, with its steps in order. -/
inductive Trace (step : σ → ε → Except κ σ) : σ → List (Turn σ ε) → σ → Prop
  /-- The run without a step. -/
  | nil (s : σ) : Trace step s [] s
  /-- A step, and a run after it. -/
  | cons {s s' s'' : σ} {e : ε} {ts : List (Turn σ ε)} (h : step s e = .ok s')
      (t : Trace step s' ts s'') : Trace step s (⟨s, e, s'⟩ :: ts) s''

namespace Trace

variable {step : σ → ε → Except κ σ} {s s' s'' : σ} {ts ts' : List (Turn σ ε)}

/-- A run after a run. -/
theorem append (h : Trace step s ts s') (h' : Trace step s' ts' s'') :
    Trace step s (ts ++ ts') s'' := by
  induction h with
  | nil _ => exact h'
  | cons hstep _ ih => exact cons hstep (ih h')

/-- A run in two parts passes through a state between them. -/
theorem of_append (h : Trace step s (ts ++ ts') s'') :
    ∃ s', Trace step s ts s' ∧ Trace step s' ts' s'' := by
  induction ts generalizing s with
  | nil => exact ⟨s, nil s, h⟩
  | cons t ts ih =>
    cases h with
    | cons hstep h =>
      obtain ⟨s', hts, hts'⟩ := ih h
      exact ⟨s', cons hstep hts, hts'⟩

/-- Each step of a run is a step of the machine. -/
theorem step_mem (h : Trace step s ts s') {t : Turn σ ε} (ht : t ∈ ts) :
    step t.before t.event = .ok t.after := by
  induction h with
  | nil _ => cases ht
  | cons hstep _ ih =>
    rcases List.mem_cons.mp ht with rfl | ht
    · exact hstep
    · exact ih ht

/-- What holds before every step and at the end of a run holds after every step. -/
theorem after {P : σ → Prop} (h : Trace step s ts s') (hP : ∀ t ∈ ts, P t.before) (hs' : P s') :
    ∀ t ∈ ts, P t.after := by
  induction h with
  | nil _ => exact nofun
  | @cons s s₁ s'' e us _ hrest ih =>
    intro t ht
    obtain rfl | ht := List.mem_cons.mp ht
    · -- The state after the first step is the one before the second, or the last one.
      cases hrest with
      | nil _ => exact hs'
      | cons _ _ => exact hP ⟨s₁, _, _⟩ (List.mem_cons_of_mem _ List.mem_cons_self)
    · exact ih (fun t ht => hP t (List.mem_cons_of_mem _ ht)) hs' t ht

/-- What each step keeps, as long as it meets a condition, holds throughout a run whose steps all meet
it. -/
theorem invariant {P : σ → Prop} {Q : Turn σ ε → Prop}
    (hstep : ∀ t : Turn σ ε, step t.before t.event = .ok t.after → Q t → P t.before → P t.after)
    (h : Trace step s ts s') (hQ : ∀ t ∈ ts, Q t) (hs : P s) :
    (∀ t ∈ ts, P t.before) ∧ P s' := by
  induction h with
  | nil _ => exact ⟨nofun, hs⟩
  | cons h₁ _ ih =>
    have hnext := hstep ⟨_, _, _⟩ h₁ (hQ _ List.mem_cons_self) hs
    obtain ⟨hts, hlast⟩ := ih (fun t ht => hQ t (List.mem_cons_of_mem _ ht)) hnext
    refine ⟨fun t ht => ?_, hlast⟩
    rcases List.mem_cons.mp ht with rfl | ht
    · exact hs
    · exact hts t ht

/-- At every step, a property holds of the steps before it and of the step itself. -/
def Along (P : List (Turn σ ε) → Turn σ ε → Prop) (ts : List (Turn σ ε)) : Prop :=
  ∀ us t vs, ts = us ++ t :: vs → P us t

instance (P : List (Turn σ ε) → Turn σ ε → Prop) [∀ us t, Decidable (P us t)] (ts : List (Turn σ ε)) :
    Decidable (Along P ts) :=
  decidable_of_iff (∀ i : Fin ts.length, P (ts.take i) ts[i]) <| by
    constructor
    · rintro h us t vs rfl
      have hpos := h ⟨us.length, by simp⟩
      simpa using hpos
    · intro h i
      refine h _ _ (ts.drop (i + 1)) ?_
      rw [Fin.getElem_fin, List.getElem_cons_drop, List.take_append_drop]

/-- What each step keeps of the steps so far and the state, as long as it meets a condition, holds throughout a
run whose steps all meet it. -/
theorem along {P : List (Turn σ ε) → σ → Prop} {Q : List (Turn σ ε) → Turn σ ε → Prop}
    (hstep : ∀ (us : List (Turn σ ε)) (t : Turn σ ε), step t.before t.event = .ok t.after → Q us t →
      P us t.before → P (us ++ [t]) t.after)
    (h : Trace step s ts s') (hQ : Along Q ts) (hs : P [] s) :
    Along (fun us t => P us t.before) ts ∧ P ts s' := by
  have hfrom : ∀ us₀, (∀ us t vs, ts = us ++ t :: vs → Q (us₀ ++ us) t) → P us₀ s →
      (∀ us t vs, ts = us ++ t :: vs → P (us₀ ++ us) t.before) ∧ P (us₀ ++ ts) s' := by
    clear hQ hs
    induction h with
    | nil _ =>
      intro us₀ _ hs
      refine ⟨fun us t vs heq => ?_, ?_⟩
      · exact absurd heq.symm (List.append_ne_nil_of_right_ne_nil _ (List.cons_ne_nil _ _))
      · rwa [List.append_nil]
    | @cons s s₁ s'' e ts h₁ _ ih =>
      intro us₀ hQ hs
      have hfirst := hQ [] ⟨s, e, s₁⟩ ts rfl
      rw [List.append_nil] at hfirst
      obtain ⟨hbefore, hlast⟩ := ih (us₀ ++ [⟨s, e, s₁⟩]) (fun us t vs heq => by
        rw [List.append_assoc]
        exact hQ _ t vs (by rw [heq]; rfl)) (hstep us₀ ⟨s, e, s₁⟩ h₁ hfirst hs)
      rw [List.append_cons]
      refine ⟨fun us t vs heq => ?_, hlast⟩
      cases us with
      | nil =>
        obtain ⟨rfl, -⟩ := List.cons.inj heq
        rw [List.append_nil]
        exact hs
      | cons u us =>
        obtain ⟨rfl, rfl⟩ := List.cons.inj heq
        rw [List.append_cons]
        exact hbefore us t vs rfl
  obtain ⟨hbefore, hlast⟩ := hfrom [] hQ hs
  exact ⟨hbefore, hlast⟩

/-- What each step keeps of the steps so far and the state, as long as it meets a condition, holds at the end
of a run whose steps all meet it. -/
theorem history {P : List (Turn σ ε) → σ → Prop} {Q : Turn σ ε → Prop}
    (hstep : ∀ (us : List (Turn σ ε)) (t : Turn σ ε), step t.before t.event = .ok t.after → Q t →
      P us t.before → P (us ++ [t]) t.after)
    (h : Trace step s ts s') (hQ : ∀ t ∈ ts, Q t) (hs : P [] s) : P ts s' := by
  have hall : Along (fun _ t => Q t) ts := by
    rintro us t vs rfl
    exact hQ t (List.mem_append_right _ List.mem_cons_self)
  exact (along hstep h hall hs).2

/-- Where each step has a property exactly when it meets a condition, all steps of a run have the
property exactly when they all meet the condition. -/
theorem forall_iff {P Q : Turn σ ε → Prop}
    (hstep : ∀ t : Turn σ ε, step t.before t.event = .ok t.after → (P t ↔ Q t))
    (h : Trace step s ts s') : (∀ t ∈ ts, P t) ↔ ∀ t ∈ ts, Q t :=
  forall₂_congr fun t ht => hstep t (h.step_mem ht)

/-! ## Conservation -/

section Conservation

variable {α : Type*} {held : σ → List α} {put taken lost : Turn σ ε → List α}

/-- Where each step takes from the front of what is held and puts at its end, a run as a whole does. -/
theorem balance (h : Trace step s ts s')
    (hts : ∀ t ∈ ts, held t.before ++ put t = taken t ++ held t.after) :
    held s ++ ts.flatMap put = ts.flatMap taken ++ held s' := by
  induction h with
  | nil s => simp
  | @cons s s' s'' e ts _ _ ih =>
    have ih := ih fun t ht => hts t (List.mem_cons_of_mem _ ht)
    have h₁ := hts ⟨s, e, s'⟩ List.mem_cons_self
    calc held s ++ (put ⟨s, e, s'⟩ ++ ts.flatMap put)
        = held s ++ put ⟨s, e, s'⟩ ++ ts.flatMap put := (List.append_assoc _ _ _).symm
      _ = taken ⟨s, e, s'⟩ ++ held s' ++ ts.flatMap put := by rw [h₁]
      _ = taken ⟨s, e, s'⟩ ++ (held s' ++ ts.flatMap put) := List.append_assoc _ _ _
      _ = taken ⟨s, e, s'⟩ ++ (ts.flatMap taken ++ held s'') := by rw [ih]
      _ = taken ⟨s, e, s'⟩ ++ ts.flatMap taken ++ held s'' := (List.append_assoc _ _ _).symm

/-- Where a step may also lose something, the numbers say how much a run has lost. -/
theorem balance_length (h : Trace step s ts s')
    (hts : ∀ t ∈ ts, held t.before ++ put t = taken t ++ lost t ++ held t.after) :
    (held s).length + (ts.flatMap put).length =
      (ts.flatMap taken).length + (ts.flatMap lost).length + (held s').length := by
  induction h with
  | nil s => simp
  | @cons s s' s'' e ts _ _ ih =>
    have ih := ih fun t ht => hts t (List.mem_cons_of_mem _ ht)
    have h₁ := congrArg List.length (hts ⟨s, e, s'⟩ List.mem_cons_self)
    simp only [List.length_append, List.flatMap_cons] at h₁ ⊢
    omega

/-- Nothing was lost in a run exactly if what was held and put is what was taken and is held. -/
theorem balance_iff (h : Trace step s ts s')
    (hts : ∀ t ∈ ts, held t.before ++ put t = taken t ++ lost t ++ held t.after) :
    held s ++ ts.flatMap put = ts.flatMap taken ++ held s' ↔ ∀ t ∈ ts, lost t = [] := by
  constructor
  · intro heq
    have hlen := h.balance_length hts
    have heq := congrArg List.length heq
    simp only [List.length_append] at heq
    have hnil : ts.flatMap lost = [] := List.length_eq_zero_iff.mp (by omega)
    exact List.flatMap_eq_nil_iff.mp hnil
  · intro hlost
    refine h.balance fun t ht => ?_
    rw [hts t ht, hlost t ht, List.append_nil]

end Conservation

/-! ## Running a machine -/

/-- The run through a list of events, up to the first one on which the machine fails. -/
def run (step : σ → ε → Except κ σ) : σ → List ε → List (Turn σ ε) × σ
  | s, [] => ([], s)
  | s, e :: es =>
    match step s e with
    | .ok s' => (⟨s, e, s'⟩ :: (run step s' es).1, (run step s' es).2)
    | .error _ => ([], s)

/-- Running a machine gives a trace. -/
theorem of_run (step : σ → ε → Except κ σ) :
    ∀ (s : σ) (es : List ε), Trace step s (run step s es).1 (run step s es).2
  | s, [] => nil s
  | s, e :: es => by
    unfold run
    cases h : step s e with
    | ok s' => exact cons h (of_run step s' es)
    | error _ => exact nil s

/-- The run through a script, whose events depend on the states in which they happen. -/
def play (step : σ → ε → Except κ σ) : σ → List (σ → ε) → List (Turn σ ε) × σ
  | s, [] => ([], s)
  | s, f :: fs =>
    match step s (f s) with
    | .ok s' => (⟨s, f s, s'⟩ :: (play step s' fs).1, (play step s' fs).2)
    | .error _ => ([], s)

/-- Playing a script gives a trace. -/
theorem of_play (step : σ → ε → Except κ σ) :
    ∀ (s : σ) (fs : List (σ → ε)), Trace step s (play step s fs).1 (play step s fs).2
  | s, [] => nil s
  | s, f :: fs => by
    unfold play
    cases h : step s (f s) with
    | ok s' => exact cons h (of_play step s' fs)
    | error _ => exact nil s

end Trace

/-! ## Lives -/

/-- Where a machine is stopped and started again, each of its runs is a life. This is a property of each life,
given those before it. -/
def EachLife {α : Type u} (P : List α → α → Prop) (lives : List α) : Prop :=
  ∀ earlier l later, lives = earlier ++ l :: later → P earlier l

namespace EachLife

variable {α : Type u} {P Q : List α → α → Prop} {lives earlier later : List α} {l : α}

/-- No life at all. -/
theorem nil : EachLife P [] :=
  fun _ _ _ heq => absurd heq.symm (List.append_ne_nil_of_right_ne_nil _ (List.cons_ne_nil _ _))

/-- One more life. -/
theorem concat (h : EachLife P lives) (hl : P lives l) : EachLife P (lives ++ [l]) := by
  intro earlier l' later heq
  rcases later.eq_nil_or_concat' with rfl | ⟨later, last, rfl⟩
  · obtain ⟨rfl, hlast⟩ := List.append_inj' heq rfl
    cases hlast
    exact hl
  · rw [← List.cons_append, ← List.append_assoc] at heq
    exact h earlier l' later (List.append_inj' heq rfl).1

/-- The first lives. -/
theorem of_append (h : EachLife P (lives ++ later)) : EachLife P lives := by
  rintro earlier l between rfl
  exact h earlier l (between ++ later) (by rw [List.append_assoc, List.cons_append])

/-- The last life. -/
theorem last (h : EachLife P (lives ++ [l])) : P lives l := h lives l [] rfl

/-- A property that does not depend on the lives before. -/
theorem forall_iff {P : α → Prop} : EachLife (fun _ l => P l) lives ↔ ∀ l ∈ lives, P l := by
  constructor
  · intro h l hl
    obtain ⟨earlier, later, heq⟩ := List.append_of_mem hl
    exact h earlier l later heq
  · rintro h earlier l later rfl
    exact h l (List.mem_append_right _ List.mem_cons_self)

/-- Two properties of each life. -/
theorem and (h : EachLife P lives) (h' : EachLife Q lives) :
    EachLife (fun earlier l => P earlier l ∧ Q earlier l) lives :=
  fun earlier l later heq => ⟨h earlier l later heq, h' earlier l later heq⟩

/-- What each life has if those before it have it, each life has. -/
theorem induct (h : EachLife P lives) (hstep : ∀ earlier l, EachLife Q earlier → P earlier l → Q earlier l) :
    EachLife Q lives := by
  induction lives using List.reverseRecOn with
  | nil => exact nil
  | append_singleton lives l ih =>
    have hlives := ih h.of_append
    exact hlives.concat (hstep lives l hlives h.last)

end EachLife
