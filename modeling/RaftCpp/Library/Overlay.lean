import Mathlib.Algebra.Group.Nat.Defs
import Mathlib.Data.List.Basic
import Mathlib.Data.List.Induction
import Mathlib.Tactic.SplitIfs

/-!
# Vectors rebuilt from positioned writes

A write puts a value at a position of a vector and drops what was behind it. Where the vector is shorter,
the gap is filled with nulls. A journal holds values that carry their positions, counted from one; it is
replayed into a vector that starts behind a base, so that the values at or below the base are skipped.
-/

namespace Overlay

variable {α : Type*}

/-- Cut a vector to a length, or fill it up with nulls. -/
def resize (xs : List (Option α)) (n : ℕ) : List (Option α) :=
  xs.take n ++ List.replicate (n - xs.length) none

/-- Put a value at a position, counted from zero. -/
def write (xs : List (Option α)) (i : ℕ) (a : α) : List (Option α) := resize xs i ++ [some a]

/-- Replay a journal into a vector that starts behind the base. -/
def replay (pos : α → ℕ) (base : ℕ) (xs : List (Option α)) (as : List α) : List (Option α) :=
  as.foldl (fun xs a => if pos a > base then write xs (pos a - base - 1) a else xs) xs

/-- Values that stand next to each other, from a position on. -/
def Consecutive (pos : α → ℕ) (first : ℕ) (as : List α) : Prop :=
  ∀ (j : ℕ) (a : α), as[j]? = some a → pos a = first + j

/-- The vector holds the values of a view up to the position `last`, and no null. -/
structure Covers (pos : α → ℕ) (base : ℕ) (view : ℕ → Option α) (last : ℕ)
    (xs : List (Option α)) : Prop where
  /-- Every element is a value that stands at its position. -/
  complete : ∀ (j : ℕ) (x : Option α), xs[j]? = some x → ∃ a, x = some a ∧ pos a = base + 1 + j
  /-- The values are those of the view. -/
  agrees : ∀ i, base < i → i ≤ last → xs[i - base - 1]? = some (view i)

variable {pos : α → ℕ} {base : ℕ} {xs : List (Option α)} {as : List α} {first : ℕ}

/-- Cutting a vector at a position inside of it. -/
theorem resize_of_le {n : ℕ} (h : n ≤ xs.length) : resize xs n = xs.take n := by
  rw [resize, Nat.sub_eq_zero_of_le h, List.replicate_zero, List.append_nil]

/-- The values of the vector stand at their positions. -/
def Positioned (pos : α → ℕ) (base : ℕ) (xs : List (Option α)) : Prop :=
  ∀ (j : ℕ) (a : α), xs[j]? = some (some a) → pos a = base + 1 + j

/-- A write keeps the values at their positions. -/
theorem Positioned.write (h : Positioned pos base xs) {a : α} (ha : base < pos a) :
    Positioned pos base (write xs (pos a - base - 1) a) := by
  intro j b hb
  have hlen : (resize xs (pos a - base - 1)).length = pos a - base - 1 := by
    rw [resize, List.length_append, List.length_take, List.length_replicate]
    omega
  unfold Overlay.write at hb
  by_cases hj : j < pos a - base - 1
  · rw [List.getElem?_append_left (by omega), resize] at hb
    by_cases hx : j < xs.length
    · rw [List.getElem?_append_left (by rw [List.length_take]; omega), List.getElem?_take_of_lt hj] at hb
      exact h j b hb
    · -- The gap holds no value.
      rw [List.getElem?_append_right (by rw [List.length_take]; omega)] at hb
      have hmem := List.eq_of_mem_replicate (List.mem_of_getElem? hb)
      cases hmem
  · rw [List.getElem?_append_right (by omega), hlen] at hb
    have hj0 := (List.getElem?_eq_some_iff.mp hb).1
    rw [List.length_singleton] at hj0
    obtain rfl : j = pos a - base - 1 := by omega
    rw [Nat.sub_self] at hb
    cases hb
    omega

/-- Replaying two journals one after the other. -/
theorem replay_append (as bs : List α) :
    replay pos base xs (as ++ bs) = replay pos base (replay pos base xs as) bs :=
  List.foldl_append

/-- The values after the first one. -/
theorem Consecutive.tail {a : α} (h : Consecutive pos first (a :: as)) :
    Consecutive pos (first + 1) as := by
  intro j b hb
  rw [h (j + 1) b hb]
  omega

/-- Where the first of the values leaves no gap, the vector is cut there and continued by them. -/
theorem replay_consecutive (h : Consecutive pos first as) (hgap : first ≤ base + xs.length + 1) :
    replay pos base xs as =
      if as.drop (base + 1 - first) = [] then xs
      else xs.take (first - base - 1) ++ (as.drop (base + 1 - first)).map some := by
  induction as generalizing xs first with
  | nil => simp [replay]
  | cons a as ih =>
    have ha : pos a = first := h 0 a rfl
    have hcons : replay pos base xs (a :: as) =
        replay pos base (if pos a > base then write xs (pos a - base - 1) a else xs) as := rfl
    rw [hcons, ha]
    by_cases hbase : first > base
    · -- The value is written, and the rest continues behind it.
      have hwrite : write xs (first - base - 1) a = xs.take (first - base - 1) ++ [some a] := by
        rw [write, resize_of_le (by omega)]
      have hlen : (xs.take (first - base - 1) ++ [some a]).length = first - base := by
        rw [List.length_append, List.length_take, List.length_singleton]
        omega
      rw [if_pos hbase, hwrite, ih h.tail (by omega), show base + 1 - (first + 1) = 0 by omega,
        show base + 1 - first = 0 by omega, List.drop_zero, List.drop_zero,
        if_neg (List.cons_ne_nil a as)]
      split
      · next hnil => rw [hnil, List.map_cons, List.map_nil]
      · rw [List.take_of_length_le (by omega), List.map_cons, List.append_assoc,
          List.singleton_append]
    · rw [if_neg hbase, ih h.tail (by omega), show base + 1 - first = base + 1 - (first + 1) + 1 by omega,
        List.drop_succ_cons, show first + 1 - base - 1 = first - base - 1 by omega]

/-- The view after values were written from a position on. -/
def overwrite (view : ℕ → Option α) (first : ℕ) (as : List α) (i : ℕ) : Option α :=
  if i < first then view i else as[i - first]?

/-- Replaying values that leave no gap to what is covered covers them too. -/
theorem Covers.replay {view : ℕ → Option α} {last : ℕ} (hx : Covers pos base view last xs)
    (h : Consecutive pos first as) (hgap : first ≤ last + 1) (hne : as ≠ []) :
    Covers pos base (overwrite view first as) (first + as.length - 1) (replay pos base xs as) := by
  have hpos := List.length_pos_iff.mpr hne
  have hlast : first ≤ base + xs.length + 1 := by
    by_cases hb : last ≤ base
    · omega
    · have hget := hx.agrees last (by omega) (Nat.le_refl last)
      have := (List.getElem?_eq_some_iff.mp hget).1
      omega
  rw [replay_consecutive h hlast]
  split
  · next hnil =>
    -- All of the values are skipped.
    rw [List.drop_eq_nil_iff] at hnil
    constructor
    · exact hx.complete
    · intro i hi hle
      omega
  · next hnil =>
    rw [List.drop_eq_nil_iff] at hnil
    have hlen : (xs.take (first - base - 1)).length = first - base - 1 := by
      rw [List.length_take]
      omega
    constructor
    · intro j x hj
      by_cases hlt : j < first - base - 1
      · rw [List.getElem?_append_left (by omega), List.getElem?_take_of_lt hlt] at hj
        exact hx.complete j x hj
      · rw [List.getElem?_append_right (by omega), hlen, List.getElem?_map, List.getElem?_drop,
          Option.map_eq_some_iff] at hj
        obtain ⟨a, ha, rfl⟩ := hj
        refine ⟨a, rfl, ?_⟩
        rw [h _ a ha]
        omega
    · intro i hi hle
      unfold overwrite
      by_cases hlt : i < first
      · rw [if_pos hlt, List.getElem?_append_left (by omega), List.getElem?_take_of_lt (by omega)]
        exact hx.agrees i hi (by omega)
      · have hidx : base + 1 - first + (i - base - 1 - (first - base - 1)) = i - first := by omega
        rw [if_neg hlt, List.getElem?_append_right (by omega), hlen, List.getElem?_map,
          List.getElem?_drop, hidx, List.getElem?_eq_getElem (by omega), Option.map_some]

/-! ## Journals without gaps -/

/-- The position of the last value that a journal leaves, or the base. -/
def last (pos : α → ℕ) (base : ℕ) (as : List α) : ℕ :=
  as.foldl (fun n a => if pos a > base then pos a else n) base

/-- No value of the journal leaves a gap when it is written. -/
def Gapless (pos : α → ℕ) (base : ℕ) (as : List α) : Prop :=
  ∀ bs a cs, as = bs ++ a :: cs → pos a ≤ last pos base bs + 1

/-- One more value. -/
theorem last_concat (a : α) :
    last pos base (as ++ [a]) = if pos a > base then pos a else last pos base as := by
  unfold last
  rw [List.foldl_append]
  rfl

/-- The last value is not below the base. -/
theorem base_le_last (pos : α → ℕ) (base : ℕ) (as : List α) : base ≤ last pos base as := by
  induction as using List.reverseRecOn with
  | nil => exact Nat.le_refl base
  | append_singleton as a ih =>
    rw [last_concat]
    split_ifs with ha
    · exact Nat.le_of_lt ha
    · exact ih

/-- From a higher base, the last value is not lower. -/
theorem last_mono (pos : α → ℕ) {base base' : ℕ} (hle : base ≤ base') (as : List α) :
    last pos base as ≤ last pos base' as := by
  induction as using List.reverseRecOn with
  | nil => exact hle
  | append_singleton as a ih =>
    have hbase' := base_le_last pos base' as
    rw [last_concat, last_concat]
    split_ifs <;> omega

/-- From a higher base, there is no gap either. -/
theorem Gapless.mono {base' : ℕ} (h : Gapless pos base as) (hle : base ≤ base') : Gapless pos base' as := by
  intro bs a cs heq
  have hlast := last_mono pos hle bs
  have hgap := h bs a cs heq
  omega

/-- An empty journal. -/
theorem gapless_nil : Gapless pos base [] :=
  fun _ _ _ heq => absurd heq.symm (List.append_ne_nil_of_right_ne_nil _ (List.cons_ne_nil _ _))

/-- One more value that leaves no gap. -/
theorem Gapless.concat (h : Gapless pos base as) {a : α} (ha : pos a ≤ last pos base as + 1) :
    Gapless pos base (as ++ [a]) := by
  intro bs b cs heq
  rcases cs.eq_nil_or_concat' with rfl | ⟨cs, c, rfl⟩
  · obtain ⟨rfl, hab⟩ := List.append_inj' heq rfl
    cases hab
    exact ha
  · rw [← List.cons_append, ← List.append_assoc] at heq
    exact h bs b cs (List.append_inj' heq rfl).1

/-- Values next to each other, the first of which leaves no gap: neither do the others, and the last value is
not before theirs. -/
theorem Gapless.append (h : Gapless pos base as) {bs : List α} (hbs : Consecutive pos first bs)
    (hgap : first ≤ last pos base as + 1) :
    Gapless pos base (as ++ bs) ∧ first + bs.length ≤ last pos base (as ++ bs) + 1 := by
  induction bs using List.reverseRecOn with
  | nil =>
    rw [List.append_nil]
    exact ⟨h, hgap⟩
  | append_singleton bs b ih =>
    have hfront : Consecutive pos first bs := fun j c hc => hbs j c (by
      rw [List.getElem?_append_left (List.getElem?_eq_some_iff.mp hc).1]
      exact hc)
    obtain ⟨hgapless, hlen⟩ := ih hfront
    have hb : pos b = first + bs.length := hbs bs.length b List.getElem?_concat_length
    have hbase := base_le_last pos base (as ++ bs)
    rw [← List.append_assoc, last_concat, List.length_append, List.length_singleton]
    refine ⟨hgapless.concat (by omega), ?_⟩
    split_ifs <;> omega

/-- A journal without gaps is replayed into a vector without nulls, which reaches up to its last value. -/
theorem Gapless.replay (h : Gapless pos base as) :
    ∃ bs : List α, replay pos base [] as = bs.map some ∧ base + bs.length = last pos base as := by
  induction as using List.reverseRecOn with
  | nil => exact ⟨[], rfl, rfl⟩
  | append_singleton as a ih =>
    obtain ⟨bs, hbs, hlen⟩ := ih fun bs b cs heq => h bs b (cs ++ [a]) (by rw [heq, List.append_assoc]; rfl)
    have hgap := h as a [] rfl
    have hstep : Overlay.replay pos base [] (as ++ [a]) =
        if pos a > base then write (bs.map some) (pos a - base - 1) a else bs.map some := by
      rw [replay_append, hbs]
      rfl
    rw [hstep, last_concat]
    split_ifs with ha
    · refine ⟨bs.take (pos a - base - 1) ++ [a], ?_, ?_⟩
      · rw [write, resize_of_le (by rw [List.length_map]; omega), List.map_append, List.map_take]
        rfl
      · rw [List.length_append, List.length_take, List.length_singleton]
        omega
    · exact ⟨bs, rfl, hlen⟩

/-- Where the first of some values next to each other leaves a gap, there is a null. -/
theorem none_mem_replay {a : α} (h : Consecutive pos first (a :: as)) (hgap : base + xs.length + 1 < first) :
    none ∈ replay pos base xs (a :: as) := by
  have ha : pos a = first := h 0 a rfl
  have hcons : replay pos base xs (a :: as) = replay pos base (write xs (first - base - 1) a) as := by
    show replay pos base (if pos a > base then write xs (pos a - base - 1) a else xs) as = _
    rw [ha, if_pos (by omega)]
  have hnone : none ∈ write xs (first - base - 1) a := by
    refine List.mem_append_left _ (List.mem_append_right _ (List.mem_replicate.mpr ⟨?_, rfl⟩))
    omega
  have hlen : (write xs (first - base - 1) a).length = first - base := by
    rw [write, resize, List.length_append, List.length_append, List.length_take, List.length_replicate,
      List.length_singleton]
    omega
  -- The others only continue the vector.
  rw [hcons, replay_consecutive h.tail (by omega)]
  split
  · exact hnone
  · rw [List.take_of_length_le (by omega)]
    exact List.mem_append_left _ hnone

end Overlay
