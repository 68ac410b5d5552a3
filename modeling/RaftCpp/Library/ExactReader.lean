import Mathlib.Algebra.Group.Nat.Defs

/-!
# Readers of a stream that ask for an exact number of elements

A reader waits for a number of elements that depends on its state, takes them all at once, and then waits
again, or reads no more. The elements come in chunks of any size: those of a chunk that are too few are kept,
and those that are too many are left for the next wait. How the stream is cut into chunks makes no
difference.
-/

universe u v

variable {σ α : Type u} {ε : Type v}

/-- A reader. -/
structure ExactReader (σ : Type u) (ε : Type v) (α : Type u) where
  /-- How many elements it waits for, if it still reads. -/
  need : σ → Option ℕ
  /-- It does not wait for nothing. -/
  need_pos : ∀ s n, need s = some n → 0 < n
  /-- What it does with them. -/
  take : σ → List α → Except ε σ

/-- A reader while it waits. -/
structure Reading (σ α : Type u) where
  /-- The state. -/
  state : σ
  /-- The elements that came so far. -/
  got : List α := []

namespace ExactReader

variable (R : ExactReader σ ε α)

/-- What a reader does with a chunk, for at most the given number of waits. -/
def receive : ℕ → Reading σ α → List α → Except ε (Reading σ α)
  | 0, s, _ => .ok s
  | fuel + 1, s, xs =>
    match R.need s.state with
    | none => .ok s
    | some n =>
      if xs.length < n - s.got.length then .ok { s with got := s.got ++ xs }
      else do
        let state ← R.take s.state (s.got ++ xs.take (n - s.got.length))
        receive fuel { state := state } (xs.drop (n - s.got.length))

/-- What a reader does with a chunk. Every wait but the last ends with at least one element of it. -/
def feed (s : Reading σ α) (xs : List α) : Except ε (Reading σ α) := R.receive (xs.length + 1) s xs

/-- What a reader does with a stream that comes in chunks. -/
def feedAll (s : Reading σ α) (chunks : List (List α)) : Except ε (Reading σ α) := chunks.foldlM R.feed s

/-- The reader has fewer elements than it waits for. -/
def Waits (s : Reading σ α) : Prop := ∀ n, R.need s.state = some n → s.got.length < n

variable {R} {s s' : Reading σ α} {n : ℕ} {xs ys : List α}

/-- A reader that starts to wait. -/
theorem waits_start (state : σ) : R.Waits { state := state } := fun n hn => R.need_pos state n hn

/-- More waits than there are elements make no difference. -/
theorem receive_eq : ∀ {k fuel : ℕ} {s : Reading σ α} {xs : List α}, R.Waits s → xs.length < k →
    xs.length < fuel → R.receive fuel s xs = R.receive k s xs
  | k + 1, fuel + 1, s, xs, hs, hk, hfuel => by
    unfold receive
    cases hneed : R.need s.state with
    | none => rfl
    | some n =>
      have hlt := hs n hneed
      dsimp only
      by_cases hshort : xs.length < n - s.got.length
      · rw [if_pos hshort, if_pos hshort]
      · -- The elements that are taken leave fewer for the waits that are left.
        have hdrop : (xs.drop (n - s.got.length)).length < k ∧
            (xs.drop (n - s.got.length)).length < fuel := by
          rw [List.length_drop]
          omega
        rw [if_neg hshort, if_neg hshort]
        refine congrArg (R.take s.state _ >>= ·) (funext fun state => ?_)
        exact receive_eq (waits_start state) hdrop.1 hdrop.2

/-- A reader that reads no more leaves the stream alone. -/
theorem feed_of_none (hneed : R.need s.state = none) (xs : List α) : R.feed s xs = .ok s := by
  unfold feed receive
  rw [hneed]

/-- Elements that are too few are kept. -/
theorem feed_of_lt (hneed : R.need s.state = some n) (hlt : s.got.length + xs.length < n) :
    R.feed s xs = .ok { s with got := s.got ++ xs } := by
  unfold feed receive
  rw [hneed]
  exact if_pos (by omega)

/-- Elements that complete what the reader waits for are taken, and those after them are left. -/
theorem feed_of_eq (hs : R.Waits s) (hneed : R.need s.state = some n)
    (heq : s.got.length + xs.length = n) (ys : List α) :
    R.feed s (xs ++ ys) = R.take s.state (s.got ++ xs) >>= fun state => R.feed { state := state } ys := by
  have hlt := hs n hneed
  have hk : n - s.got.length = xs.length := by omega
  unfold feed
  rw [receive, hneed]
  dsimp only
  rw [hk, if_neg (by rw [List.length_append]; omega), List.take_left, List.drop_left]
  refine congrArg (R.take s.state _ >>= ·) (funext fun state => ?_)
  refine receive_eq (waits_start state) (Nat.lt_succ_self _) ?_
  rw [List.length_append]
  omega

/-- A reader that keeps elements that are too few still waits. -/
theorem waits_append (hneed : R.need s.state = some n) (hlt : s.got.length + xs.length < n) :
    R.Waits { s with got := s.got ++ xs } := by
  intro n' hn'
  obtain rfl : n = n' := Option.some.inj (hneed.symm.trans hn')
  rw [List.length_append]
  exact hlt

/-- A chunk with enough elements, in two parts of which the first completes what the reader waits for. -/
theorem Waits.exists_split (hs : R.Waits s) (xs : List α) (hneed : R.need s.state = some n)
    (hle : n ≤ s.got.length + xs.length) :
    ∃ zs ws, xs = zs ++ ws ∧ s.got.length + zs.length = n ∧ ws.length < xs.length := by
  have hlt := hs n hneed
  refine ⟨xs.take (n - s.got.length), xs.drop (n - s.got.length), ?_, ?_, ?_⟩
  · exact (List.take_append_drop _ xs).symm
  · rw [List.length_take]
    omega
  · rw [List.length_drop]
    omega

/-- A chunk leaves the reader waiting. -/
theorem waits_feed {s s' : Reading σ α} {xs : List α} (hs : R.Waits s) (h : R.feed s xs = .ok s') :
    R.Waits s' := by
  cases hneed : R.need s.state with
  | none =>
    rw [feed_of_none hneed] at h
    cases h
    exact hs
  | some n =>
    by_cases hshort : s.got.length + xs.length < n
    · rw [feed_of_lt hneed hshort] at h
      cases h
      exact waits_append hneed hshort
    · obtain ⟨zs, ws, heq, hzs, hlt⟩ := hs.exists_split xs hneed (Nat.le_of_not_lt hshort)
      rw [heq, feed_of_eq hs hneed hzs] at h
      cases hx : R.take s.state (s.got ++ zs) with
      | error e =>
        rw [hx] at h
        cases h
      | ok state =>
        rw [hx] at h
        exact waits_feed (waits_start state) h
termination_by xs.length

/-- A chunk in two parts is read as the one part and then the other. -/
theorem feed_append {s : Reading σ α} (hs : R.Waits s) (xs ys : List α) :
    R.feed s (xs ++ ys) = R.feed s xs >>= fun s' => R.feed s' ys := by
  cases hneed : R.need s.state with
  | none =>
    rw [feed_of_none hneed, feed_of_none hneed]
    exact (feed_of_none hneed ys).symm
  | some n =>
    by_cases hshort : s.got.length + xs.length < n
    · -- The first part is too short: the second one continues what was kept.
      rw [feed_of_lt hneed hshort]
      show R.feed s (xs ++ ys) = R.feed { s with got := s.got ++ xs } ys
      have hwaits := waits_append hneed hshort
      have hgot : (s.got ++ xs).length = s.got.length + xs.length := List.length_append
      by_cases hboth : s.got.length + xs.length + ys.length < n
      · rw [feed_of_lt hneed (by rw [List.length_append]; omega),
          feed_of_lt (s := { s with got := s.got ++ xs }) hneed (by rw [hgot]; exact hboth)]
        simp only [List.append_assoc]
      · obtain ⟨zs, ws, rfl, hzs, -⟩ := hwaits.exists_split ys hneed
          (by rw [hgot]; exact Nat.le_of_not_lt hboth)
        rw [hgot] at hzs
        rw [← List.append_assoc, feed_of_eq hs hneed (by rw [List.length_append]; omega),
          feed_of_eq hwaits hneed (by rw [hgot]; exact hzs)]
        simp only [List.append_assoc]
    · obtain ⟨zs, ws, heq, hzs, hlt⟩ := hs.exists_split xs hneed (Nat.le_of_not_lt hshort)
      rw [heq, List.append_assoc, feed_of_eq hs hneed hzs, feed_of_eq hs hneed hzs]
      cases R.take s.state (s.got ++ zs) with
      | error e => rfl
      | ok state => exact feed_append (waits_start state) ws ys
termination_by xs.length

/-- No elements change nothing. -/
theorem feed_nil (hs : R.Waits s) : R.feed s [] = .ok s := by
  cases hneed : R.need s.state with
  | none => exact feed_of_none hneed []
  | some n =>
    rw [feed_of_lt hneed (by exact hs n hneed)]
    simp only [List.append_nil]

/-- How a stream is cut into chunks makes no difference. -/
theorem feedAll_eq (hs : R.Waits s) (chunks : List (List α)) :
    R.feedAll s chunks = R.feed s chunks.flatten := by
  induction chunks generalizing s with
  | nil => exact (feed_nil hs).symm
  | cons chunk chunks ih =>
    rw [List.flatten_cons, feed_append hs]
    unfold feedAll
    rw [List.foldlM_cons]
    cases hx : R.feed s chunk with
    | error e => rfl
    | ok s' => exact ih (waits_feed hs hx)

end ExactReader
