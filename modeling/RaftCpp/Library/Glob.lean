import Mathlib.Data.List.Basic
import Mathlib.Tactic.SplitIfs

/-!
# Glob patterns

A pattern is a row of tokens: a star stands for any bytes, and each other token for one byte. How a byte is
compared with those of a pattern, and what lies between the two ends of a range, is a parameter.
-/

namespace Glob

/-- `'*'`. -/
def asterisk : UInt8 := 42

/-- `'?'`. -/
def question : UInt8 := 63

/-- `'['`. -/
def opening : UInt8 := 91

/-- `'\\'`. -/
def backslash : UInt8 := 92

/-- `']'`. -/
def closing : UInt8 := 93

/-- `'^'`. -/
def caret : UInt8 := 94

/-- `'-'`. -/
def dash : UInt8 := 45

/-- What can stand in a class. -/
inductive Item
  /-- A byte behind a backslash. -/
  | escaped (b : UInt8)
  /-- Another byte. -/
  | byte (b : UInt8)
  /-- The bytes between two. -/
  | range (first last : UInt8)
deriving DecidableEq, Repr

/-- The parts of a pattern. -/
inductive Token
  /-- Any bytes. -/
  | star
  /-- Any byte. -/
  | any
  /-- A byte of a class, or one that is not in it. -/
  | oneOf (negated : Bool) (items : List Item)
  /-- This byte. -/
  | byte (b : UInt8)
deriving DecidableEq, Repr

/-- An item before others. -/
def addItem (i : Item) (p : List Item × List UInt8) : List Item × List UInt8 := (i :: p.1, p.2)

/-- The items of a class, and what follows it. A byte and a dash with another byte behind them are a range,
whatever the other byte is. A class without an end goes on to the end of the pattern. -/
def items : List UInt8 → List Item × List UInt8
  | [] => ([], [])
  | b :: ps =>
    if b = closing then ([], ps)
    else
      match ps with
      | [] => ([.byte b], [])
      | e :: qs =>
        if b = backslash then addItem (.escaped e) (items qs)
        else
          match qs with
          | [] => addItem (.byte b) (items [e])
          | last :: rs =>
            if e = dash then addItem (.range b last) (items rs)
            else addItem (.byte b) (items (e :: last :: rs))

section Items

variable {b e last : UInt8} {ps : List UInt8}

/-- A class ends at a bracket. -/
theorem items_closing : items (closing :: ps) = ([], ps) := by
  unfold items
  rfl

/-- A byte at the end of the pattern. -/
theorem items_singleton (hb : b ≠ closing) : items [b] = ([.byte b], []) := by
  rw [items, if_neg hb]

/-- A byte behind a backslash. -/
theorem items_escaped : items (backslash :: e :: ps) = addItem (.escaped e) (items ps) := by
  conv_lhs => unfold items
  rfl

/-- A range. -/
theorem items_range (hb : b ≠ closing) (hback : b ≠ backslash) :
    items (b :: dash :: last :: ps) = addItem (.range b last) (items ps) := by
  conv_lhs => unfold items
  rw [if_neg hb]
  dsimp only
  rw [if_neg hback, if_pos rfl]

/-- Another byte. -/
theorem items_byte (hb : b ≠ closing) (hback : b ≠ backslash) (hrange : e = dash → ps = []) :
    items (b :: e :: ps) = addItem (.byte b) (items (e :: ps)) := by
  conv_lhs => unfold items
  rw [if_neg hb]
  dsimp only
  rw [if_neg hback]
  cases ps with
  | nil => rfl
  | cons last ps =>
    dsimp only
    rw [if_neg fun h => absurd (hrange h) (List.cons_ne_nil _ _)]

end Items

/-- What follows the bracket of a class: whether the class is negated, and the rest. -/
def negation (ps : List UInt8) : Bool × List UInt8 :=
  if ps.head? = some caret then (true, ps.tail) else (false, ps)

/-- Something follows a class only if it is a part of what follows the bracket. -/
theorem length_items (ps : List UInt8) : (items ps).2.length ≤ ps.length := by
  fun_induction items ps <;> simp_all [addItem] <;> omega

/-- The rest is not longer. -/
theorem length_negation (ps : List UInt8) : (negation ps).2.length ≤ ps.length := by
  unfold negation
  split_ifs
  · rw [List.length_tail]
    omega
  · exact Nat.le_refl _

/-- The tokens of a pattern. A backslash at its end stands for itself. -/
def tokens : List UInt8 → List Token
  | [] => []
  | b :: ps =>
    if b = asterisk then .star :: tokens ps
    else if b = question then .any :: tokens ps
    else if b = opening then
      .oneOf (negation ps).1 (items (negation ps).2).1 :: tokens (items (negation ps).2).2
    else if b = backslash ∧ ps ≠ [] then .byte (ps.headD 0) :: tokens ps.tail
    else .byte b :: tokens ps
termination_by ps => ps.length
decreasing_by
  · exact Nat.lt_succ_self _
  · exact Nat.lt_succ_self _
  · exact Nat.lt_succ_of_le (Nat.le_trans (length_items _) (length_negation ps))
  · rw [List.length_tail, List.length_cons]
    omega
  · exact Nat.lt_succ_self _

/-- How the bytes of a text are compared with those of a pattern. -/
structure Comparison where
  /-- Whether a byte of the pattern stands for a byte of the text. -/
  same : UInt8 → UInt8 → Bool
  /-- Whether a byte of the text is between two bytes of the pattern. -/
  between : UInt8 → UInt8 → UInt8 → Bool

/-- The bytes by their values, where the ends of a range come in either order. -/
def bytewise : Comparison where
  same b k := b == k
  between first last k := (first ≤ k && k ≤ last) || (last ≤ k && k ≤ first)

section Matching

variable {c : Comparison} {ps : List UInt8} {ts : List Token} {t : Token} {k : UInt8} {ks : List UInt8}

/-- Whether an item stands for a byte. -/
def Item.accepts (c : Comparison) (k : UInt8) : Item → Bool
  | .escaped b => b == k
  | .byte b => c.same b k
  | .range first last => c.between first last k

/-- Whether a token stands for a byte alone. -/
def Token.accepts (c : Comparison) (k : UInt8) : Token → Bool
  | .star => false
  | .any => true
  | .oneOf negated is => is.any (Item.accepts c k) != negated
  | .byte b => c.same b k

/-- A text matches a pattern as a whole. -/
inductive Matches (c : Comparison) : List Token → List UInt8 → Prop
  /-- Nothing is left of either. -/
  | nil : Matches c [] []
  /-- A star stands for any bytes. -/
  | star {ts : List Token} {ks : List UInt8} (xs : List UInt8) (h : Matches c ts ks) :
    Matches c (.star :: ts) (xs ++ ks)
  /-- Another token stands for a byte. -/
  | one {t : Token} {ts : List Token} {k : UInt8} {ks : List UInt8} (hk : t.accepts c k = true)
    (h : Matches c ts ks) : Matches c (t :: ts) (k :: ks)

/-- Without a pattern there is no text. -/
theorem matches_nil_left : Matches c [] ks ↔ ks = [] := by
  constructor
  · rintro ⟨⟩
    rfl
  · rintro rfl
    exact .nil

/-- A token that is not a star stands for the first byte. -/
theorem matches_cons (ht : t ≠ .star) :
    Matches c (t :: ts) (k :: ks) ↔ t.accepts c k = true ∧ Matches c ts ks := by
  constructor
  · intro h
    generalize hw : k :: ks = ws at h
    cases h with
    | star => exact absurd rfl ht
    | one hk h =>
      cases hw
      exact ⟨hk, h⟩
  · rintro ⟨hk, h⟩
    exact .one hk h

/-- It does not stand for nothing. -/
theorem not_matches_cons_nil (ht : t ≠ .star) : ¬Matches c (t :: ts) [] := by
  intro h
  generalize hw : ([] : List UInt8) = ws at h
  cases h with
  | star => exact ht rfl
  | one => cases hw

/-- A star stands for some of the first bytes. -/
theorem matches_star : Matches c (.star :: ts) ks ↔ ∃ n ≤ ks.length, Matches c ts (ks.drop n) := by
  constructor
  · intro h
    generalize hw : ks = ws at h
    cases h with
    | star xs h =>
      refine ⟨xs.length, ?_, ?_⟩
      · rw [List.length_append]
        omega
      · rwa [List.drop_left]
    | one hk => cases hk
  · rintro ⟨n, -, h⟩
    rw [← List.take_append_drop n ks]
    exact .star _ h

/-- A star at the end stands for the rest. -/
theorem matches_star_nil : Matches c [.star] ks := by
  rw [← List.append_nil ks]
  exact .star ks .nil

/-- Two stars are one. -/
theorem matches_star_star : Matches c (.star :: .star :: ts) ks ↔ Matches c (.star :: ts) ks := by
  constructor
  · intro h
    obtain ⟨n, hn, h⟩ := matches_star.mp h
    obtain ⟨m, hm, h⟩ := matches_star.mp h
    rw [List.drop_drop] at h
    rw [List.length_drop] at hm
    exact matches_star.mpr ⟨n + m, by omega, h⟩
  · intro h
    exact .star [] h

/-- Nothing matches the patterns of stars alone. -/
theorem matches_nil : Matches c ts [] ↔ ∀ t ∈ ts, t = .star := by
  induction ts with
  | nil => exact ⟨fun _ => nofun, fun _ => .nil⟩
  | cons t ts ih =>
    rw [List.forall_mem_cons, ← ih]
    constructor
    · intro h
      by_cases ht : t = .star
      · subst ht
        obtain ⟨n, -, h⟩ := matches_star.mp h
        rw [List.drop_nil] at h
        exact ⟨rfl, h⟩
      · exact absurd h (not_matches_cons_nil ht)
    · rintro ⟨rfl, h⟩
      exact .star [] h

/-- Two comparisons that agree on the tokens of a pattern have the same texts match it. -/
theorem Matches.congr {c' : Comparison} (h : ∀ t ∈ ts, ∀ k, t.accepts c k = t.accepts c' k) :
    Matches c ts ks ↔ Matches c' ts ks := by
  have himp : ∀ {c c' : Comparison} {ts ks}, Matches c ts ks →
      (∀ t ∈ ts, ∀ k, t.accepts c k = t.accepts c' k) → Matches c' ts ks := by
    intro c c' ts ks hmatches
    induction hmatches with
    | nil => exact fun _ => .nil
    | star xs _ ih => exact fun h => .star xs (ih fun t ht => h t (List.mem_cons_of_mem _ ht))
    | one hk _ ih =>
      intro h
      refine .one ?_ (ih fun t ht => h t (List.mem_cons_of_mem _ ht))
      rwa [← h _ List.mem_cons_self]
  exact ⟨fun hm => himp hm h, fun hm => himp hm fun t ht k => (h t ht k).symm⟩

/-- A pattern has nothing but stars when its tokens are stars. -/
theorem tokens_stars : (∀ t ∈ tokens ps, t = .star) ↔ ∀ b ∈ ps, b = asterisk := by
  induction ps with
  | nil =>
    rw [tokens]
    exact ⟨fun _ => nofun, fun _ => nofun⟩
  | cons b ps ih =>
    rw [List.forall_mem_cons, ← ih]
    by_cases hb : b = asterisk
    · rw [tokens, if_pos hb, List.forall_mem_cons]
      simp only [hb, true_and]
    · -- The first token is another one.
      have hfirst : ∃ t ts, tokens (b :: ps) = t :: ts ∧ t ≠ .star := by
        rw [tokens, if_neg hb]
        split_ifs <;> exact ⟨_, _, rfl, nofun⟩
      obtain ⟨t, ts, heq, ht⟩ := hfirst
      rw [heq]
      exact ⟨fun h => absurd (h t List.mem_cons_self) ht, fun h => absurd h.1 hb⟩

end Matching

/-- A class with a range and a byte, and then anything. -/
example : items [97, 45, 99, 92, 93, 93, 42] = ([.range 97 99, .escaped 93], [42]) := by decide

end Glob
