import Mathlib.Order.Nat
import RaftCpp.Library.Outcome
import RaftCpp.Library.Ring
import RaftCpp.Raft.Progress

/-!
# The window of a peer

The window of the append messages on their way to a peer is a queue in a ring buffer. The vector behind it grows
until it has the size of the window, and the queue goes around its end only then.
-/

namespace RaftCpp

open Outcome

namespace InFlights

variable {f : InFlights}

/-- The window is one. -/
structure Valid (f : InFlights) : Prop where
  /-- There is room for a message. -/
  size_pos : 1 ≤ f.size
  /-- The vector can be doubled in 32 bits. -/
  size_lt : f.size < 2^31
  /-- It holds no more messages than it has room for. -/
  count_le : f.count ≤ f.size
  /-- They start inside. -/
  start_lt : f.start < f.size
  /-- The vector is not larger. -/
  length_le : f.buffer.length ≤ f.size
  /-- The messages do not go around its end before it has its full size. -/
  held : f.start + f.count ≤ f.buffer.length ∨ f.buffer.length = f.size

/-- The messages on their way, by the index of the last entry of each. -/
def contents (f : InFlights) : List ℕ := Ring.values 0 f.buffer f.size f.start f.count

/-- Their number. -/
@[simp] theorem length_contents (f : InFlights) : f.contents.length = f.count := Ring.length_values

/-- The window is full when there are as many as its size. -/
theorem isFull_iff : f.isFull = true ↔ f.contents.length = f.size := by
  rw [length_contents]
  unfold isFull
  rw [beq_iff_eq]
  exact eq_comm

/-- The constructor. -/
theorem valid_new {n : ℕ} (hpos : 1 ≤ n) (hlt : n < 2^31) : (new n).Valid ∧ (new n).size = n := by
  have hsize : (new n).size = n := Nat.mod_eq_of_lt (by omega)
  refine ⟨⟨?_, ?_, Nat.zero_le _, ?_, Nat.zero_le _, Or.inl (Nat.zero_le _)⟩, hsize⟩
  · rwa [hsize]
  · rwa [hsize]
  · show 0 < (new n).size
    omega

/-- `reset` leaves no message. -/
theorem Valid.reset (h : f.Valid) : f.reset.Valid :=
  { size_pos := h.size_pos
    size_lt := h.size_lt
    count_le := Nat.zero_le _
    start_lt := h.size_pos
    length_le := h.length_le
    held := Or.inl (Nat.zero_le _) }

/-- It leaves no message. -/
@[simp] theorem contents_reset (f : InFlights) : f.reset.contents = [] := rfl

/-- The messages are inside of the vector. -/
theorem Valid.pos_lt (h : f.Valid) {k : ℕ} (hk : k < f.count) :
    Ring.pos f.size f.start k < f.buffer.length := by
  have hcount := h.count_le
  have hstart := h.start_lt
  obtain hheld | hfull := h.held
  · have hlength := h.length_le
    unfold Ring.pos
    rw [if_neg (by omega)]
    omega
  · rw [hfull]
    exact Ring.pos_lt hstart (by omega)

/-- What `add` makes of the vector: it has room for another message, and what was in it is still there. -/
theorem Valid.grown (h : f.Valid) (hcount : f.count < f.size) :
    ∃ ys, f.grown (Ring.pos f.size f.start f.count) = f.buffer ++ ys ∧
      (f.buffer ++ ys).length ≤ f.size ∧ Ring.pos f.size f.start f.count < (f.buffer ++ ys).length ∧
      (f.start + f.count + 1 ≤ (f.buffer ++ ys).length ∨ (f.buffer ++ ys).length = f.size) := by
  have hstart := h.start_lt
  have hsize := h.size_lt
  have hlength := h.length_le
  have hheld := h.held
  have hlt := Ring.pos_lt hstart hcount.le
  by_cases hgrows : Ring.pos f.size f.start f.count ≥ f.buffer.length
  · -- The vector is too short, so the messages do not go around its end.
    have hpos : Ring.pos f.size f.start f.count = f.start + f.count := by
      unfold Ring.pos at hgrows ⊢
      split_ifs at hgrows ⊢ <;> omega
    have hend : f.start + f.count = f.buffer.length := by omega
    have hdouble : f.buffer.length * 2 % 2^32 = f.buffer.length * 2 := Nat.mod_eq_of_lt (by omega)
    unfold InFlights.grown
    rw [if_pos hgrows, hdouble]
    generalize hn : (if f.buffer.length * 2 = 0 then 1
      else if f.buffer.length * 2 > f.size then f.size else f.buffer.length * 2) = n
    have hroom : f.buffer.length < n ∧ n ≤ f.size := by
      split_ifs at hn <;> omega
    refine ⟨List.replicate (n - f.buffer.length) 0, ?_, ?_, ?_, ?_⟩
    · dsimp only
      rw [hn, List.take_of_length_le hroom.1.le]
    all_goals
      rw [List.length_append, List.length_replicate]
      omega
  · refine ⟨[], ?_, ?_, ?_, ?_⟩
    · unfold InFlights.grown
      rw [if_neg hgrows, List.append_nil]
    all_goals
      rw [List.append_nil]
    · exact hlength
    · omega
    · unfold Ring.pos at hgrows
      split_ifs at hgrows <;> omega

/-- `add` puts a message at the end of a window that is not full. -/
theorem Valid.add (h : f.Valid) (hfull : f.isFull = false) (inflight : ℕ) :
    ∃ f', f.add inflight = .ok f' ∧ f'.Valid ∧ f'.size = f.size ∧
      f'.contents = f.contents ++ [inflight] := by
  have hcount : f.count < f.size := by
    refine lt_of_le_of_ne h.count_le fun heq => ?_
    rw [isFull_iff.mpr (by rw [length_contents, heq])] at hfull
    cases hfull
  have hstart := h.start_lt
  have hsize := h.size_lt
  have hmod : (f.start + f.count) % 2^32 = f.start + f.count := Nat.mod_eq_of_lt (by omega)
  obtain ⟨ys, hgrown, hle, hlt, hheld⟩ := h.grown hcount
  refine ⟨{ f with
    buffer := (f.buffer ++ ys).set (Ring.pos f.size f.start f.count) inflight, count := f.count + 1 }, ?_, ?_,
    rfl, Ring.values_set hcount hlt fun k hk => h.pos_lt hk⟩
  · have hnext : (if (f.start + f.count) % 2^32 ≥ f.size then (f.start + f.count) % 2^32 - f.size
        else (f.start + f.count) % 2^32) = Ring.pos f.size f.start f.count := by
      rw [hmod]
      rfl
    unfold InFlights.add
    rw [hfull, if_neg (by decide)]
    dsimp only
    rw [hnext, hgrown, if_pos hlt]
  · refine ⟨h.size_pos, hsize, hcount, hstart, ?_, ?_⟩
    · rwa [List.length_set]
    · rwa [List.length_set]

/-- The loop of `free_to`: it steps over the messages whose index is at most the given one, and inside of the
vector. -/
theorem Valid.freeLoop (h : f.Valid) (upTo : ℕ) : ∀ (left i idx : ℕ), idx < f.size → left ≤ f.size →
    (idx + left ≤ f.buffer.length ∨ f.buffer.length = f.size) →
      ∃ k idx', f.freeLoop upTo left i idx = .ok (i + k, idx') ∧ k ≤ left ∧ idx' < f.size ∧
        (idx' + (left - k) ≤ f.buffer.length ∨ f.buffer.length = f.size) ∧
        Ring.values 0 f.buffer f.size idx' (left - k) =
          (Ring.values 0 f.buffer f.size idx left).dropWhile (· ≤ upTo)
  | 0, i, idx, hidx, _, hheld => ⟨0, idx, rfl, le_refl _, hidx, hheld, rfl⟩
  | left + 1, i, idx, hidx, hleft, hheld => by
    have hlength := h.length_le
    have hlt : idx < f.buffer.length := by omega
    have hget : f.buffer[idx]? = some (f.buffer.getD idx 0) := by
      rw [List.getD_eq_getElem?_getD, List.getElem?_eq_getElem hlt]
      rfl
    rw [Ring.values_cons hidx hleft]
    unfold InFlights.freeLoop
    rw [hget]
    dsimp only
    by_cases hupTo : upTo < f.buffer.getD idx 0
    · rw [if_pos hupTo, List.dropWhile_cons_of_neg (by simpa using hupTo)]
      exact ⟨0, idx, rfl, Nat.zero_le _, hidx, hheld, Ring.values_cons hidx hleft⟩
    · rw [if_neg hupTo, List.dropWhile_cons_of_pos (by simpa using hupTo)]
      have hnext : Ring.pos f.size idx 1 + left ≤ f.buffer.length ∨ f.buffer.length = f.size := by
        refine hheld.imp_left fun hle => ?_
        unfold Ring.pos
        split_ifs <;> omega
      obtain ⟨k, idx', hloop, hk, hidx', hheld', hvalues⟩ :=
        h.freeLoop upTo left (i + 1) (Ring.pos f.size idx 1) (Ring.pos_lt hidx h.size_pos) (by omega) hnext
      refine ⟨k + 1, idx', ?_, by omega, hidx', ?_, ?_⟩
      · rw [show i + (k + 1) = i + 1 + k by omega]
        exact hloop
      · rwa [Nat.add_sub_add_right]
      · rwa [Nat.add_sub_add_right]

/-- `free_to` removes the messages at the front whose index is at most the given one. -/
theorem Valid.freeTo (h : f.Valid) (upTo : ℕ) :
    ∃ f', f.freeTo upTo = .ok f' ∧ f'.Valid ∧ f'.size = f.size ∧
      f'.contents = f.contents.dropWhile (· ≤ upTo) := by
  unfold InFlights.freeTo
  by_cases hzero : f.count = 0
  · have hnil : f.contents = [] := by
      rw [← List.length_eq_zero_iff, length_contents, hzero]
    rw [if_pos hzero]
    exact ⟨f, rfl, h, rfl, by rw [hnil]; rfl⟩
  have hcount : 0 < f.count := Nat.pos_of_ne_zero hzero
  have hfirst := h.pos_lt hcount
  rw [Ring.pos_zero h.start_lt] at hfirst
  have helem : elemAt f.buffer f.start = .ok (f.buffer.getD f.start 0) := by
    unfold elemAt
    rw [List.getD_eq_getElem?_getD, List.getElem?_eq_getElem hfirst]
    rfl
  rw [if_neg hzero]
  by_cases hupTo : upTo < f.buffer.getD f.start 0
  · -- The first message stays, and so do the others.
    refine ⟨f, bind_eq_ok.mpr ⟨_, helem, if_pos hupTo⟩, h, rfl, ?_⟩
    obtain ⟨n, hn⟩ := Nat.exists_eq_add_of_lt hcount
    rw [Nat.zero_add] at hn
    have hle := h.count_le
    rw [contents, hn, Ring.values_cons h.start_lt (by omega), List.dropWhile_cons_of_neg (by simpa using hupTo)]
  · obtain ⟨k, idx', hloop, hk, hidx', hheld, hvalues⟩ :=
      h.freeLoop upTo f.count 0 f.start h.start_lt h.count_le h.held
    refine ⟨{ f with count := f.count - k, start := if f.count - k = 0 then 0 else idx' }, ?_, ?_, rfl, ?_⟩
    · rw [Nat.zero_add] at hloop
      refine bind_eq_ok.mpr ⟨_, helem, ?_⟩
      rw [if_neg hupTo]
      exact bind_eq_ok.mpr ⟨_, hloop, rfl⟩
    · refine ⟨h.size_pos, h.size_lt, (Nat.sub_le _ _).trans h.count_le, ?_, h.length_le, ?_⟩
      · dsimp only
        split_ifs
        · exact h.size_pos
        · exact hidx'
      · refine hheld.imp_left fun hle => ?_
        dsimp only
        split_ifs <;> omega
    · refine Eq.trans ?_ hvalues
      unfold contents
      dsimp only
      split_ifs with hnone
      · rw [hnone, Ring.values_zero, Ring.values_zero]
      · rfl

/-- `free_first_one` removes the first message, and those behind it whose index is at most the same. -/
theorem Valid.freeFirstOne (h : f.Valid) {x : ℕ} {xs : List ℕ} (hx : f.contents = x :: xs) :
    f.freeFirstOne = f.freeTo x := by
  have hcount : f.count = xs.length + 1 := by
    rw [← length_contents, hx, List.length_cons]
  have hle := h.count_le
  have hfirst := h.pos_lt (k := 0) (by omega)
  rw [Ring.pos_zero h.start_lt] at hfirst
  rw [contents, hcount, Ring.values_cons h.start_lt (by omega)] at hx
  obtain ⟨hhead, -⟩ := List.cons_eq_cons.mp hx
  have helem : elemAt f.buffer f.start = .ok x := by
    unfold elemAt
    rw [← hhead, List.getD_eq_getElem?_getD, List.getElem?_eq_getElem hfirst]
    rfl
  unfold InFlights.freeFirstOne
  rw [helem]
  rfl

/-! ## Runs -/

/-- What is done with a window. -/
inductive Operation
  /-- `add`. -/
  | add (inflight : ℕ)
  /-- `free_to`. -/
  | freeTo (upTo : ℕ)
  /-- `free_first_one`. -/
  | freeFirstOne
  /-- `reset`. -/
  | reset
deriving DecidableEq, Repr

/-- An operation on the window. -/
def perform (f : InFlights) : Operation → Result InFlights
  | .add inflight => f.add inflight
  | .freeTo upTo => f.freeTo upTo
  | .freeFirstOne => f.freeFirstOne
  | .reset => .ok f.reset

namespace Operation

/-- What an operation does to a queue. -/
def onQueue (xs : List ℕ) : Operation → List ℕ
  | add x => xs ++ [x]
  | freeTo x => xs.dropWhile (· ≤ x)
  | freeFirstOne => xs.dropWhile (· ≤ xs.headD 0)
  | reset => []

/-- An operation is allowed: nothing is added to a full window, and there is a first message to free. -/
def Allowed (size : ℕ) (xs : List ℕ) : Operation → Prop
  | add _ => xs.length < size
  | freeFirstOne => xs ≠ []
  | freeTo _ | reset => True

/-- Operations that are allowed one after the other. -/
def AllAllowed (size : ℕ) : List ℕ → List Operation → Prop
  | _, [] => True
  | xs, op :: ops => op.Allowed size xs ∧ AllAllowed size (op.onQueue xs) ops

instance (size : ℕ) (xs : List ℕ) (op : Operation) : Decidable (op.Allowed size xs) :=
  match op with
  | add _ => inferInstanceAs (Decidable (xs.length < size))
  | freeFirstOne => inferInstanceAs (Decidable (xs ≠ []))
  | freeTo _ | reset => .isTrue trivial

instance decidableAllAllowed (size : ℕ) : ∀ xs ops, Decidable (AllAllowed size xs ops)
  | _, [] => .isTrue trivial
  | xs, op :: ops =>
    haveI := decidableAllAllowed size (op.onQueue xs) ops
    inferInstanceAs (Decidable (op.Allowed size xs ∧ AllAllowed size (op.onQueue xs) ops))

/-- In a queue that does not decrease, `free_first_one` frees the first message and those equal to it. -/
theorem onQueue_freeFirstOne {xs : List ℕ} (h : xs.Pairwise (· ≤ ·)) :
    freeFirstOne.onQueue xs = xs.dropWhile (· = xs.headD 0) := by
  have hdrop : ∀ (x : ℕ) (ys : List ℕ), (∀ y ∈ ys, x ≤ y) →
      ys.dropWhile (· ≤ x) = ys.dropWhile (· = x) := by
    intro x ys hys
    induction ys with
    | nil => rfl
    | cons y ys ih =>
      have hle := hys y List.mem_cons_self
      by_cases heq : y = x
      · rw [List.dropWhile_cons_of_pos (by simpa using heq.le),
          List.dropWhile_cons_of_pos (by simpa using heq)]
        exact ih fun y' hy' => hys y' (List.mem_cons_of_mem _ hy')
      · rw [List.dropWhile_cons_of_neg (by simp; omega), List.dropWhile_cons_of_neg (by simpa using heq)]
  cases xs with
  | nil => rfl
  | cons x xs =>
    refine hdrop x (x :: xs) fun y hy => ?_
    obtain rfl | hy := List.mem_cons.mp hy
    · exact le_refl y
    · exact (List.pairwise_cons.mp h).1 y hy

end Operation

/-- An operation does to the window what it does to the queue. -/
theorem Valid.perform (h : f.Valid) {op : Operation} (hop : op.Allowed f.size f.contents) :
    ∃ f', f.perform op = .ok f' ∧ f'.Valid ∧ f'.size = f.size ∧ f'.contents = op.onQueue f.contents := by
  cases op with
  | add inflight =>
    have hfull : f.isFull = false := by
      rw [Bool.eq_false_iff, ne_eq, isFull_iff]
      exact Nat.ne_of_lt hop
    exact h.add hfull inflight
  | freeTo upTo => exact h.freeTo upTo
  | freeFirstOne =>
    obtain ⟨x, xs, hx⟩ := List.exists_cons_of_ne_nil hop
    obtain ⟨f', hf', hvalid, hsize, hcontents⟩ := h.freeTo x
    refine ⟨f', ?_, hvalid, hsize, ?_⟩
    · rw [← hf']
      exact h.freeFirstOne hx
    · rw [hcontents, hx]
      rfl
  | reset => exact ⟨f.reset, rfl, h.reset, rfl, rfl⟩

/-- So do operations one after the other. -/
theorem Valid.performs (h : f.Valid) {ops : List Operation}
    (hops : Operation.AllAllowed f.size f.contents ops) :
    ∃ f', ops.foldlM InFlights.perform f = .ok f' ∧ f'.Valid ∧ f'.size = f.size ∧
      f'.contents = ops.foldl Operation.onQueue f.contents := by
  induction ops generalizing f with
  | nil => exact ⟨f, rfl, h, rfl, rfl⟩
  | cons op ops ih =>
    obtain ⟨hop, hops⟩ := hops
    obtain ⟨f₁, hf₁, hvalid₁, hsize₁, hcontents₁⟩ := h.perform hop
    rw [← hsize₁, ← hcontents₁] at hops
    obtain ⟨f', hf', hvalid, hsize, hcontents⟩ := ih hvalid₁ hops
    refine ⟨f', ?_, hvalid, hsize.trans hsize₁, ?_⟩
    · rw [List.foldlM_cons]
      exact bind_eq_ok.mpr ⟨f₁, hf₁, hf'⟩
    · rw [hcontents, hcontents₁, List.foldl_cons]

/-- A window stands for a queue. -/
structure Denotes (f : InFlights) (size : ℕ) (xs : List ℕ) : Prop where
  /-- The messages of the window are those of the queue. -/
  contents : f.contents = xs
  /-- There are at most as many as the size. -/
  length_le : xs.length ≤ size
  /-- It is full when there are as many as that. -/
  isFull : f.isFull = true ↔ xs.length = size
  /-- The messages that `free_first_one` would free, where they do not decrease. -/
  freeFirstOne : xs.Pairwise (· ≤ ·) → Operation.freeFirstOne.onQueue xs = xs.dropWhile (· = xs.headD 0)

/-- Operations on a new window that are allowed do not fail, and do to it what they do to a queue. -/
theorem window_is_queue {size : ℕ} (hpos : 1 ≤ size) (hlt : size < 2^31) {ops : List Operation}
    (hops : Operation.AllAllowed size [] ops) :
    ∃ f, ops.foldlM InFlights.perform (InFlights.new size) = .ok f ∧
      f.Denotes size (ops.foldl Operation.onQueue []) := by
  obtain ⟨hvalid, hsize⟩ := valid_new hpos hlt
  rw [← hsize] at hops
  obtain ⟨f, hf, hvalid', hsize', hcontents⟩ := hvalid.performs hops
  rw [hsize] at hsize'
  refine ⟨f, hf, hcontents, ?_, ?_, Operation.onQueue_freeFirstOne⟩
  · rw [show ops.foldl Operation.onQueue [] = f.contents from hcontents.symm, length_contents, ← hsize']
    exact hvalid'.count_le
  · rw [show ops.foldl Operation.onQueue [] = f.contents from hcontents.symm, ← hsize']
    exact isFull_iff

/-- A window of three messages that grows, is freed at its front, and goes around its end. -/
theorem window_is_queue_three :
    let ops : List Operation := [.add 1, .add 2, .freeTo 1, .add 2, .add 4, .freeFirstOne, .add 5]
    ∃ f, ops.foldlM InFlights.perform (InFlights.new 3) = .ok f ∧ f.Denotes 3 [4, 5] :=
  window_is_queue (by decide) (by decide) (by decide)

end InFlights

end RaftCpp
