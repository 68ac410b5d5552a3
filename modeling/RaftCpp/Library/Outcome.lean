import Mathlib.Tactic.SplitIfs

/-!
# Partial correctness of computations that may fail

A computation that may fail is an `Except`. `Ensures x P` says that whenever `x` returns, its result
satisfies `P`; it promises nothing of a computation that fails. `Secures bad x P` says in addition that
`x` does not fail in one of the ways `bad`. The rules below follow the ways computations are built, so
that a specification of each function is enough to specify its callers.
-/

namespace Outcome

universe u

variable {ε : Type*} {α β : Type u}

/-- Whenever the computation returns, its result satisfies `P`. -/
def Ensures (x : Except ε α) (P : α → Prop) : Prop := ∀ a, x = .ok a → P a

namespace Ensures

/-- A pure result satisfies what holds of it. -/
theorem pure {a : α} {P : α → Prop} (h : P a) : Ensures (Pure.pure a : Except ε α) P := by
  rintro _ ⟨⟩
  exact h

/-- A returned result satisfies what holds of it. -/
theorem ok {a : α} {P : α → Prop} (h : P a) : Ensures (Except.ok a : Except ε α) P :=
  Ensures.pure h

/-- A failure returns nothing. -/
theorem error {e : ε} {P : α → Prop} : Ensures (Except.error e : Except ε α) P := by
  rintro _ ⟨⟩

/-- A thrown failure returns nothing. -/
theorem throw {e : ε} {P : α → Prop} : Ensures (MonadExcept.throw e : Except ε α) P := by
  rintro _ ⟨⟩

/-- Every result satisfies what holds of everything. -/
theorem any {x : Except ε α} : Ensures x fun _ => True := fun _ _ => True.intro

/-- Sequencing: what the first computation ensures is what the second may assume. -/
theorem bind {x : Except ε α} {f : α → Except ε β} {P : α → Prop} {Q : β → Prop}
    (hx : Ensures x P) (hf : ∀ a, P a → Ensures (f a) Q) : Ensures (x >>= f) Q := by
  intro b hb
  cases x with
  | error e => cases hb
  | ok a => exact hf a (hx a rfl) b hb

/-- Sequencing: the second computation may assume what the first one returned. -/
theorem bindEq {x : Except ε α} {f : α → Except ε β} {Q : β → Prop}
    (hf : ∀ a, x = .ok a → Ensures (f a) Q) : Ensures (x >>= f) Q :=
  bind (P := fun a => x = .ok a) (fun _ h => h) hf

/-- A weaker condition is ensured as well. -/
theorem mono {x : Except ε α} {P Q : α → Prop} (hx : Ensures x P) (h : ∀ a, P a → Q a) :
    Ensures x Q := fun a ha => h a (hx a ha)

/-- Two conditions ensured separately are ensured together. -/
theorem and {x : Except ε α} {P Q : α → Prop} (hP : Ensures x P) (hQ : Ensures x Q) :
    Ensures x fun a => P a ∧ Q a := fun a ha => ⟨hP a ha, hQ a ha⟩

/-- A branch ensures what both of its sides ensure. -/
theorem ite {c : Prop} [Decidable c] {x y : Except ε α} {P : α → Prop}
    (hx : c → Ensures x P) (hy : ¬c → Ensures y P) : Ensures (if c then x else y) P := by
  split_ifs with h
  · exact hx h
  · exact hy h

end Ensures

/-- A sequence of two computations returns exactly when both do, the second on the result of the
first. -/
theorem bind_eq_ok {x : Except ε α} {f : α → Except ε β} {b : β} :
    (x >>= f) = .ok b ↔ ∃ a, x = .ok a ∧ f a = .ok b := by
  cases x with
  | error e => simp [Bind.bind, Except.bind]
  | ok a => simp [Bind.bind, Except.bind]

/-- A fold of computations over a list keeps an invariant that every step keeps. -/
theorem Ensures.foldlM {f : α → β → Except ε α} {P : α → Prop} :
    ∀ (l : List β), (∀ a, ∀ b ∈ l, P a → Ensures (f a b) P) → ∀ a, P a → Ensures (l.foldlM f a) P
  | [], _, _, ha => Ensures.pure ha
  | b :: l, hf, a, ha => by
    rw [List.foldlM_cons]
    refine Ensures.bind (hf a b List.mem_cons_self ha) fun a' ha' => ?_
    exact Ensures.foldlM l (fun a b hb => hf a b (List.mem_cons_of_mem _ hb)) a' ha'

/-! ## Computations that return -/

/-- The computation returns, and its result satisfies `P`. -/
def Returns (x : Except ε α) (P : α → Prop) : Prop := ∃ a, x = .ok a ∧ P a

instance (x : Except ε α) (P : α → Prop) [DecidablePred P] : Decidable (Returns x P) :=
  match x with
  | .ok a => decidable_of_iff (P a) ⟨fun h => ⟨a, rfl, h⟩, fun ⟨_, ha, h⟩ => Except.ok.inj ha ▸ h⟩
  | .error _ => .isFalse fun ⟨_, ha, _⟩ => by cases ha

namespace Returns

/-- A pure result is returned. -/
theorem pure {a : α} {P : α → Prop} (h : P a) : Returns (Pure.pure a : Except ε α) P := ⟨a, rfl, h⟩

/-- Sequencing: the second computation returns from what the first one returned. -/
theorem bind {x : Except ε α} {f : α → Except ε β} {P : α → Prop} {Q : β → Prop} (hx : Returns x P)
    (hf : ∀ a, P a → Returns (f a) Q) : Returns (x >>= f) Q := by
  obtain ⟨a, rfl, ha⟩ := hx
  exact hf a ha

/-- Sequencing, after a result that is known. -/
theorem bindOk {x : Except ε α} {f : α → Except ε β} {a : α} {Q : β → Prop} (hx : x = .ok a)
    (hf : Returns (f a) Q) : Returns (x >>= f) Q := by
  rw [hx]
  exact hf

/-- What is returned satisfies a weaker condition as well. -/
theorem mono {x : Except ε α} {P Q : α → Prop} (hx : Returns x P) (h : ∀ a, P a → Q a) : Returns x Q := by
  obtain ⟨a, hok, ha⟩ := hx
  exact ⟨a, hok, h a ha⟩

end Returns

/-! ## Ruling out failures -/

/-- Whenever the computation returns, its result satisfies `P`, and where it fails, it does not fail in
one of the ways that are ruled out. -/
structure Secures (bad : ε → Prop) (x : Except ε α) (P : α → Prop) : Prop where
  /-- The result satisfies the condition. -/
  ensures : Ensures x P
  /-- The failure is not one of those. -/
  avoids : ∀ e, x = .error e → ¬bad e

namespace Secures

variable {bad : ε → Prop}

/-- A pure result fails in no way. -/
theorem pure {a : α} {P : α → Prop} (h : P a) : Secures bad (Pure.pure a : Except ε α) P :=
  ⟨Ensures.pure h, fun _ he => by cases he⟩

/-- A returned result fails in no way. -/
theorem ok {a : α} {P : α → Prop} (h : P a) : Secures bad (Except.ok a : Except ε α) P :=
  Secures.pure h

/-- A failure that is not ruled out. -/
theorem error {e : ε} {P : α → Prop} (h : ¬bad e) : Secures bad (Except.error e : Except ε α) P := by
  constructor
  · exact Ensures.error
  · rintro _ ⟨⟩
    exact h

/-- Sequencing: what the first computation secures is what the second may assume. -/
theorem bind {x : Except ε α} {f : α → Except ε β} {P : α → Prop} {Q : β → Prop}
    (hx : Secures bad x P) (hf : ∀ a, P a → Secures bad (f a) Q) : Secures bad (x >>= f) Q := by
  constructor
  · exact Ensures.bind hx.ensures fun a ha => (hf a ha).ensures
  · intro e he
    cases x with
    | error e' =>
      cases he
      exact hx.avoids e rfl
    | ok a => exact (hf a (hx.ensures a rfl)).avoids e he

/-- A weaker condition is secured as well. -/
theorem mono {x : Except ε α} {P Q : α → Prop} (hx : Secures bad x P) (h : ∀ a, P a → Q a) :
    Secures bad x Q := ⟨hx.ensures.mono h, hx.avoids⟩

/-- Two conditions, one of them secured and the other ensured. -/
theorem and {x : Except ε α} {P Q : α → Prop} (hP : Secures bad x P) (hQ : Ensures x Q) :
    Secures bad x fun a => P a ∧ Q a := ⟨hP.ensures.and hQ, hP.avoids⟩

/-- A branch secures what both of its sides secure. -/
theorem ite {c : Prop} [Decidable c] {x y : Except ε α} {P : α → Prop}
    (hx : c → Secures bad x P) (hy : ¬c → Secures bad y P) :
    Secures bad (if c then x else y) P := by
  split_ifs with h
  · exact hx h
  · exact hy h

/-- A fold of computations over a list keeps an invariant that every step keeps. -/
theorem foldlM {f : α → β → Except ε α} {P : α → Prop} :
    ∀ (l : List β), (∀ a, ∀ b ∈ l, P a → Secures bad (f a b) P) → ∀ a, P a →
      Secures bad (l.foldlM f a) P
  | [], _, _, ha => Secures.pure ha
  | b :: l, hf, a, ha => by
    rw [List.foldlM_cons]
    refine Secures.bind (hf a b List.mem_cons_self ha) fun a' ha' => ?_
    exact Secures.foldlM l (fun a b hb => hf a b (List.mem_cons_of_mem _ hb)) a' ha'

end Secures

/-! ## Avoiding one failure -/

/-- The computation does not fail in the given way. -/
def Avoids (e : ε) (x : Except ε α) : Prop := x ≠ .error e

section Avoids

variable {e : ε} {x : Except ε α}

instance [DecidableEq ε] : Decidable (Avoids e x) :=
  match x with
  | .ok _ => .isTrue nofun
  | .error e' => decidable_of_iff (e' ≠ e) (by simp [Avoids])

/-- A pure result is no failure. -/
@[simp] theorem avoids_pure (a : α) : Avoids e (Pure.pure a : Except ε α) := nofun

/-- A returned result is no failure. -/
@[simp] theorem avoids_ok (a : α) : Avoids e (Except.ok a : Except ε α) := nofun

/-- Another failure is not this one. -/
@[simp] theorem avoids_error {e' : ε} : Avoids e (Except.error e' : Except ε α) ↔ e' ≠ e := by
  simp [Avoids]

/-- Another thrown failure is not this one. -/
@[simp] theorem avoids_throw {e' : ε} : Avoids e (throw e' : Except ε α) ↔ e' ≠ e := avoids_error

/-- A sequence avoids a failure if both of its parts do, the second on every result of the first. -/
@[simp] theorem avoids_bind {f : α → Except ε β} :
    Avoids e (x >>= f) ↔ Avoids e x ∧ ∀ a, x = .ok a → Avoids e (f a) := by
  cases x with
  | error e' => simp [Avoids, Bind.bind, Except.bind]
  | ok a => simp [Avoids, Bind.bind, Except.bind]

/-- What is made of a result is no failure. -/
@[simp] theorem avoids_map {g : α → β} : Avoids e (g <$> x) ↔ Avoids e x := by
  cases x with
  | error e' => simp [Avoids, Functor.map, Except.map]
  | ok a => simp [Avoids, Functor.map, Except.map]

/-- A branch avoids a failure if the side that is taken does. -/
@[simp] theorem avoids_ite {c : Prop} [Decidable c] {y : Except ε α} :
    Avoids e (if c then x else y) ↔ (c → Avoids e x) ∧ (¬c → Avoids e y) := by
  split_ifs with h
  · simp [h]
  · simp [h]

/-- A fold avoids a failure that its steps avoid. -/
@[simp] theorem avoids_foldlM {f : α → β → Except ε α} (hf : ∀ a b, Avoids e (f a b)) (l : List β) (a : α) :
    Avoids e (l.foldlM f a) := by
  induction l generalizing a with
  | nil => exact avoids_pure a
  | cons b l ih => exact avoids_bind.mpr ⟨hf a b, fun a' _ => ih a'⟩

/-- A computation that avoids a failure secures what it ensures. -/
theorem Avoids.secures {P : α → Prop} (h : Avoids e x) (hP : Ensures x P) : Secures (· = e) x P :=
  ⟨hP, fun e' he heq => h (by rw [he, heq])⟩

/-- Sequencing: the second computation may assume what the first one returned. -/
theorem Avoids.bindEq {f : α → Except ε β} {Q : β → Prop} (h : Avoids e x)
    (hf : ∀ a, x = .ok a → Secures (· = e) (f a) Q) : Secures (· = e) (x >>= f) Q :=
  Secures.bind (h.secures (P := fun a => x = .ok a) fun _ ha => ha) hf

end Avoids

/-! ## Failing in some ways only -/

/-- Where the computation fails, the failure satisfies `P`. -/
def FailsOnly (P : ε → Prop) (x : Except ε α) : Prop := ∀ e, x = .error e → P e

section FailsOnly

variable {P Q : ε → Prop} {x : Except ε α}

/-- A pure result is no failure. -/
@[simp] theorem failsOnly_pure (a : α) : FailsOnly P (Pure.pure a : Except ε α) := nofun

/-- A returned result is no failure. -/
@[simp] theorem failsOnly_ok (a : α) : FailsOnly P (Except.ok a : Except ε α) := nofun

/-- A failure. -/
@[simp] theorem failsOnly_error {e : ε} : FailsOnly P (Except.error e : Except ε α) ↔ P e := by
  simp [FailsOnly]

/-- A thrown failure. -/
@[simp] theorem failsOnly_throw {e : ε} : FailsOnly P (throw e : Except ε α) ↔ P e := failsOnly_error

/-- A sequence fails in these ways if both of its parts do, the second on every result of the first. -/
@[simp] theorem failsOnly_bind {f : α → Except ε β} :
    FailsOnly P (x >>= f) ↔ FailsOnly P x ∧ ∀ a, x = .ok a → FailsOnly P (f a) := by
  cases x with
  | error e => simp [FailsOnly, Bind.bind, Except.bind]
  | ok a => simp [FailsOnly, Bind.bind, Except.bind]

/-- What is made of a result is no failure. -/
@[simp] theorem failsOnly_map {g : α → β} : FailsOnly P (g <$> x) ↔ FailsOnly P x := by
  cases x with
  | error e => simp [FailsOnly, Functor.map, Except.map]
  | ok a => simp [FailsOnly, Functor.map, Except.map]

/-- A branch fails in these ways if the side that is taken does. -/
@[simp] theorem failsOnly_ite {c : Prop} [Decidable c] {y : Except ε α} :
    FailsOnly P (if c then x else y) ↔ (c → FailsOnly P x) ∧ (¬c → FailsOnly P y) := by
  split_ifs with h
  · simp [h]
  · simp [h]

/-- A fold fails in the ways in which its steps fail. -/
@[simp] theorem failsOnly_foldlM {f : α → β → Except ε α} (hf : ∀ a b, FailsOnly P (f a b)) (l : List β)
    (a : α) : FailsOnly P (l.foldlM f a) := by
  induction l generalizing a with
  | nil => exact failsOnly_pure a
  | cons b l ih => exact failsOnly_bind.mpr ⟨hf a b, fun a' _ => ih a'⟩

/-- More ways. -/
theorem FailsOnly.mono (h : FailsOnly P x) (hPQ : ∀ e, P e → Q e) : FailsOnly Q x :=
  fun e he => hPQ e (h e he)

/-- The other ways are avoided. -/
theorem FailsOnly.avoids {e : ε} (h : FailsOnly P x) (hne : ¬P e) : Avoids e x :=
  fun he => hne (h e he)

/-- A computation that fails in these ways only secures what it ensures against the others. -/
theorem FailsOnly.secures {R : α → Prop} (h : FailsOnly P x) (hR : Ensures x R) :
    Secures (fun e => ¬P e) x R := ⟨hR, fun e he hne => hne (h e he)⟩

end FailsOnly

end Outcome
