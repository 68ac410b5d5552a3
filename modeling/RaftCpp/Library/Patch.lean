import Mathlib.Data.Option.Basic

/-!
# Maps changed by patches

A patch says of each key whether it is touched, and if so, what becomes of it. Of the patches that are
applied one after the other, the last one that touches a key decides.
-/

/-- For each key, nothing if the key is left alone, and otherwise its new value, if it keeps one. -/
abbrev Patch (κ ν : Type*) := κ → Option (Option ν)

namespace Patch

variable {κ ν : Type*}

/-- The map after a patch. -/
def apply (m : κ → Option ν) (p : Patch κ ν) : κ → Option ν := fun k => (p k).getD (m k)

/-- The patch that does what two patches do one after the other. -/
def andThen (p q : Patch κ ν) : Patch κ ν := fun k => (q k).or (p k)

/-- The patch that does what a list of patches does. -/
def combine (ps : List (Patch κ ν)) : Patch κ ν := ps.foldl andThen fun _ => none

/-- Two patches one after the other. -/
theorem apply_andThen (m : κ → Option ν) (p q : Patch κ ν) :
    apply m (p.andThen q) = apply (apply m p) q := by
  funext k
  unfold apply andThen
  cases q k <;> rfl

/-- A list of patches behind a patch. -/
theorem foldl_andThen (p : Patch κ ν) (ps : List (Patch κ ν)) :
    ps.foldl andThen p = p.andThen (combine ps) := by
  induction ps generalizing p with
  | nil =>
    funext k
    exact (Option.none_or).symm
  | cons q ps ih =>
    have hq : combine (q :: ps) = q.andThen (combine ps) := by
      rw [combine, List.foldl_cons, ih]
      funext k
      unfold andThen
      rw [Option.or_none]
    rw [List.foldl_cons, ih, hq]
    funext k
    exact Option.or_assoc.symm

/-- A list of patches does what their combination does. -/
theorem foldl_apply (m : κ → Option ν) (ps : List (Patch κ ν)) :
    ps.foldl apply m = apply m (combine ps) := by
  induction ps generalizing m with
  | nil => rfl
  | cons p ps ih =>
    have hp : combine (p :: ps) = p.andThen (combine ps) := by
      rw [combine, List.foldl_cons, foldl_andThen]
      funext k
      unfold andThen
      rw [Option.or_none]
    rw [List.foldl_cons, ih, hp, apply_andThen]

/-- The combination of two lists of patches. -/
theorem combine_append (ps qs : List (Patch κ ν)) :
    combine (ps ++ qs) = (combine ps).andThen (combine qs) := by
  rw [combine, List.foldl_append, foldl_andThen]
  rfl

end Patch
