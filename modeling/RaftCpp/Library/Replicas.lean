import Mathlib.Data.Finset.Insert
import Mathlib.Data.List.Infix
import Mathlib.Logic.Function.Basic
import Mathlib.Logic.Relation

/-!
# Replicas of a state machine

Commands are decided one after the other, and every replica runs the decided commands in their order, at a pace
of its own. So the state of each replica is the one that a first part of the decided commands leads to, and
replicas that have run as many commands are in the same state.
-/

universe u v w

/-- The commands that are decided, and how many of them each replica has run. -/
structure Replicas (ι : Type u) (ε : Type v) where
  /-- The commands, in their order. -/
  history : List ε := []
  /-- The number of commands that a replica has run. -/
  position : ι → ℕ := fun _ => 0

namespace Replicas

variable {ι : Type u} {ε : Type v} {σ : Type w} [DecidableEq ι]

/-- What can happen. -/
inductive Step : Replicas ι ε → Replicas ι ε → Prop
  /-- A command is decided. -/
  | decide {a : Replicas ι ε} (e : ε) : Step a { a with history := a.history ++ [e] }
  /-- A replica runs the next command. -/
  | run {a : Replicas ι ε} (i : ι) (h : a.position i < a.history.length) :
    Step a { a with position := Function.update a.position i (a.position i + 1) }

/-- What can happen over time. -/
abbrev Run : Replicas ι ε → Replicas ι ε → Prop := Relation.ReflTransGen Step

/-- The state of a replica, where a command leads from one state to another. -/
def state (a : Replicas ι ε) (step : σ → ε → σ) (start : σ) (i : ι) : σ :=
  (a.history.take (a.position i)).foldl step start

variable {a a' : Replicas ι ε}

/-- A longer list of decided commands is reached by deciding. -/
theorem run_decide {history : List ε} (h : a.history <+: history) : Run a { a with history := history } := by
  obtain ⟨es, rfl⟩ := h
  induction es using List.reverseRecOn with
  | nil =>
    rw [List.append_nil]
  | append_singleton es e ih =>
    rw [← List.append_assoc]
    exact ih.tail (Step.decide e)

/-- A later position of a replica is reached by running. -/
theorem run_run {i : ι} {k : ℕ} (hle : a.position i ≤ k) (hk : k ≤ a.history.length) :
    Run a { a with position := Function.update a.position i k } := by
  induction k, hle using Nat.le_induction with
  | base =>
    rw [Function.update_eq_self]
  | succ k hle ih =>
    have hlt : ({ a with position := Function.update a.position i k } : Replicas ι ε).position i <
        a.history.length := by
      dsimp only
      rw [Function.update_self]
      exact hk
    have hstep := Step.run i hlt
    dsimp only at hstep
    rw [Function.update_idem, Function.update_self] at hstep
    exact (ih (Nat.le_of_succ_le hk)).tail hstep

/-- Where commands were only added, and finitely many replicas have only gone forward, this has happened step
by step. -/
theorem run_of_le (S : Finset ι) (hhistory : a.history <+: a'.history)
    (hle : ∀ i, a.position i ≤ a'.position i) (hvalid : ∀ i, a'.position i ≤ a'.history.length)
    (hS : ∀ i, i ∉ S → a'.position i = a.position i) : Run a a' := by
  -- The commands are decided first, and then one replica after the other goes forward.
  have hgo : ∀ T : Finset ι, Run a
      { history := a'.history, position := fun i => if i ∈ T then a'.position i else a.position i } := by
    intro T
    induction T using Finset.induction_on with
    | empty => exact run_decide hhistory
    | insert j T hj ih =>
      have hstart : (if j ∈ T then a'.position j else a.position j) ≤ a'.position j := by
        rw [if_neg hj]
        exact hle j
      have hnext := ih.trans (run_run hstart (hvalid j))
      have hpositions : (Function.update (fun i => if i ∈ T then a'.position i else a.position i) j
          (a'.position j)) = fun i => if i ∈ insert j T then a'.position i else a.position i := by
        funext i
        by_cases hi : i = j
        · subst hi
          rw [Function.update_self, if_pos (Finset.mem_insert_self i T)]
        · rw [Function.update_of_ne hi]
          simp only [Finset.mem_insert, hi, false_or]
      rw [hpositions] at hnext
      exact hnext
  have hlast : (fun i => if i ∈ S then a'.position i else a.position i) = a'.position := by
    funext i
    split_ifs with hi
    · rfl
    · exact (hS i hi).symm
  have hrun := hgo S
  rw [hlast] at hrun
  exact hrun

/-- Nothing that was decided is taken back, and no replica undoes a command. -/
theorem Run.mono (h : Run a a') : a.history <+: a'.history ∧ ∀ i, a.position i ≤ a'.position i := by
  induction h with
  | refl => exact ⟨List.prefix_rfl, fun _ => Nat.le_refl _⟩
  | @tail b c _ hstep ih =>
    cases hstep with
    | decide e => exact ⟨ih.1.trans (List.prefix_append _ _), ih.2⟩
    | run i hlt =>
      refine ⟨ih.1, fun j => (ih.2 j).trans ?_⟩
      dsimp only
      by_cases hj : j = i
      · rw [hj, Function.update_self]
        exact Nat.le_succ _
      · rw [Function.update_of_ne hj]

/-- A replica that has run as many commands as another one, or more, is in a state that the other one's state
leads to. -/
theorem Run.state (h : Run a a') (step : σ → ε → σ) (start : σ) {i j : ι}
    (hle : a.position i ≤ a'.position j) (hvalid : a.position i ≤ a.history.length) :
    a'.state step start j =
      ((a'.history.take (a'.position j)).drop (a.position i)).foldl step (a.state step start i) := by
  obtain ⟨es, hes⟩ := h.mono.1
  have htake : a.history.take (a.position i) = (a'.history.take (a'.position j)).take (a.position i) := by
    rw [List.take_take, Nat.min_eq_left hle, ← hes, List.take_append_of_le_length hvalid]
  unfold Replicas.state
  rw [htake, ← List.foldl_append, List.take_append_drop]

end Replicas
