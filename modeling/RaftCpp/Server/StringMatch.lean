import Mathlib.Data.List.TakeWhile
import Mathlib.Order.Nat
import RaftCpp.Library.Glob
import RaftCpp.Library.Outcome
import RaftCpp.Raft.Proto

/-!
# The matcher of keys

`string_match_len` of `raft-kv/server/redis_store.cpp`. A pointer and the length that goes with it are kept in
step by hand. Every read is checked here against the buffer of the pattern, which a NUL follows, and against
the key, and no length may become negative.
-/

namespace RaftCpp

open Outcome Glob

/-- What must not happen to the matcher. -/
inductive MatchFault
  /-- It reads outside of the buffer of the pattern. -/
  | outsidePattern
  /-- It reads outside of the key. -/
  | outsideKey
  /-- A length becomes negative. -/
  | negativeLength
  /-- It does not come to an end. -/
  | unfinished
deriving DecidableEq, Repr

/-- A pointer into a buffer, as an offset, and the length that goes with it. -/
structure Cursor where
  /-- The offset. -/
  ptr : ℤ
  /-- The length. -/
  len : ℤ
deriving DecidableEq, Repr

/-- The pointer goes so many bytes on, and the length goes down by as many. -/
def Cursor.move (c : Cursor) (k : ℤ) : Except MatchFault Cursor :=
  if c.len < k then .error .negativeLength else .ok { ptr := c.ptr + k, len := c.len - k }

/-- The pointer goes a byte on if the condition holds. -/
def Cursor.moveIf (c : Cursor) (cond : Prop) [Decidable cond] : Except MatchFault Cursor :=
  if cond then c.move 1 else .ok c

/-- The value of a `char`, which the platform may take as signed. -/
def charValue (signed : Bool) (b : UInt8) : ℤ := if signed ∧ 128 ≤ b.toNat then b.toNat - 256 else b.toNat

/-- `tolower`, in the C locale. -/
def tolower (c : ℤ) : ℤ := if 65 ≤ c ∧ c ≤ 90 then c + 32 else c

/-- Whether a byte of the pattern and one of the key are the same. -/
def sameChar (signed nocase : Bool) (b k : UInt8) : Bool :=
  if nocase then tolower (charValue signed b) == tolower (charValue signed k) else b == k

/-- Whether a byte of the key is in a range. -/
def inRange (signed nocase : Bool) (first last k : UInt8) : Bool :=
  let start := charValue signed first
  let stop := charValue signed last
  let (start, stop) := if start > stop then (stop, start) else (start, stop)
  let lower (c : ℤ) : ℤ := if nocase then tolower c else c
  lower start ≤ lower (charValue signed k) && lower (charValue signed k) ≤ lower stop

section Matcher

variable (pattern key : Bytes) (signed nocase : Bool)

/-- A byte of the buffer of the pattern, which a NUL ends. -/
def patternAt (i : ℤ) : Except MatchFault UInt8 :=
  if 0 ≤ i ∧ i ≤ pattern.length then .ok (pattern.getD i.toNat 0) else .error .outsidePattern

/-- A byte of the key. -/
def keyAt (i : ℤ) : Except MatchFault UInt8 :=
  if 0 ≤ i ∧ i < key.length then .ok (key.getD i.toNat 0) else .error .outsideKey

/-- The loop over the stars behind a star. -/
def skipStars : ℕ → Cursor → Except MatchFault Cursor
  | 0, _ => .error .unfinished
  | fuel + 1, p => do
    let next ← patternAt pattern (p.ptr + 1)
    if next = asterisk then
      let p ← p.move 1
      skipStars fuel p
    else return p

/-- The loop over the stars at the end of the key. -/
def skipTrailing : ℕ → Cursor → Except MatchFault Cursor
  | 0, _ => .error .unfinished
  | fuel + 1, p => do
    let first ← patternAt pattern p.ptr
    if first = asterisk then
      let p ← p.move 1
      skipTrailing fuel p
    else return p

/-- The loop over the items of a class. At the end of the pattern it steps back to the last byte. -/
def classLoop (s : Cursor) : ℕ → Cursor → Bool → Except MatchFault (Cursor × Bool)
  | 0, _, _ => .error .unfinished
  | fuel + 1, p, matched => do
    let first ← patternAt pattern p.ptr
    if first = backslash ∧ 2 ≤ p.len then
      let p ← p.move 1
      let escaped ← patternAt pattern p.ptr
      let k ← keyAt key s.ptr
      let p ← p.move 1
      classLoop s fuel p (matched || escaped == k)
    else if first = closing then return (p, matched)
    else if p.len = 0 then
      let p ← p.move (-1)
      return (p, matched)
    else
      let next ← patternAt pattern (p.ptr + 1)
      if next = dash ∧ 3 ≤ p.len then
        let last ← patternAt pattern (p.ptr + 2)
        let k ← keyAt key s.ptr
        let p ← p.move 2
        let p ← p.move 1
        classLoop s fuel p (matched || inRange signed nocase first last k)
      else
        let k ← keyAt key s.ptr
        let p ← p.move 1
        classLoop s fuel p (matched || sameChar signed nocase first k)

/-- The case of a class, from the bracket on. It leaves the pattern at the last byte of the class, unless it
returns 0. -/
def matchClass (fuel : ℕ) (p s : Cursor) : Except MatchFault (Option Cursor) := do
  let p ← p.move 1
  let next ← patternAt pattern p.ptr
  let p ← p.moveIf (next = caret)
  let (p, matched) ← classLoop pattern key signed nocase s fuel p false
  if matched = decide (next = caret) then return none else return some p

/-- The case of a byte that stands for itself, and that of a backslash, which goes on to the byte behind it. -/
def matchByte (p s : Cursor) (first : UInt8) : Except MatchFault (Option Cursor) := do
  let p ← p.moveIf (first = backslash ∧ 2 ≤ p.len)
  let b ← patternAt pattern p.ptr
  let k ← keyAt key s.ptr
  if sameChar signed nocase b k then return some p else return none

/-- The cases of the `switch` for one byte of the key. -/
def matchOne (fuel : ℕ) (p s : Cursor) (first : UInt8) : Except MatchFault (Option Cursor) :=
  if first = question then
    if s.len = 0 then .ok none else .ok (some p)
  else if first = opening then matchClass pattern key signed nocase fuel p s
  else matchByte pattern key signed nocase p s first

/-- The loop of a star, which calls the matcher with what follows the star and each rest of the key. -/
def starLoop (call : Cursor → Except MatchFault Bool) : ℕ → Cursor → Except MatchFault Bool
  | 0, _ => .error .unfinished
  | fuel + 1, s => do
    if s.len = 0 then return false
    let found ← call s
    if found then return true
    let s ← s.move 1
    starLoop call fuel s

/-- `string_match_len`, with a bound for its loops and for the depth of its calls. -/
def stringMatchLen : ℕ → Cursor → Cursor → Except MatchFault Bool
  | 0, _, _ => .error .unfinished
  | fuel + 1, p, s => do
    if p.len ≠ 0 ∧ s.len ≠ 0 then
      let first ← patternAt pattern p.ptr
      if first = asterisk then
        let p ← skipStars pattern fuel p
        if p.len = 1 then return true
        let rest ← p.move 1
        starLoop (fun s => stringMatchLen fuel rest s) fuel s
      else
        let p ← matchOne pattern key signed nocase fuel p s first
        match p with
        | none => return false
        | some p =>
          let s ← s.move 1
          let p ← p.move 1
          if s.len = 0 then
            let p ← skipTrailing pattern fuel p
            return p.len = 0
          stringMatchLen fuel p s
    else return p.len = 0 ∧ s.len = 0

/-- A bound that is enough: every loop and every call goes on in the pattern or in the key. -/
def matchFuel : ℕ := pattern.length + key.length + 2

/-- A call of `string_match_len` with the whole pattern and the whole key. -/
def matchKey : Except MatchFault Bool :=
  stringMatchLen pattern key signed nocase (matchFuel pattern key) { ptr := 0, len := pattern.length }
    { ptr := 0, len := key.length }

end Matcher

/-! ## Cursors on the rest of a buffer -/

/-- A cursor stands at the rest of a buffer. -/
def Cursor.On (c : Cursor) (whole rest : Bytes) : Prop :=
  ∃ before, whole = before ++ rest ∧ c.ptr = before.length ∧ c.len = rest.length

section On

variable {c : Cursor} {whole rest : Bytes} {b : UInt8}

/-- It begins with the whole. -/
theorem Cursor.on_start (whole : Bytes) : Cursor.On { ptr := 0, len := whole.length } whole whole :=
  ⟨[], rfl, rfl, rfl⟩

/-- Its length is that of the rest. -/
theorem Cursor.On.len_eq (h : c.On whole rest) : c.len = rest.length := by
  obtain ⟨-, -, -, hlen⟩ := h
  exact hlen

/-- A byte on. -/
theorem Cursor.On.next (h : c.On whole (b :: rest)) :
    Cursor.On { ptr := c.ptr + 1, len := c.len - 1 } whole rest := by
  obtain ⟨before, rfl, hptr, hlen⟩ := h
  refine ⟨before ++ [b], by rw [List.append_assoc, List.singleton_append], ?_, ?_⟩
  · dsimp only
    rw [hptr, List.length_append]
    rfl
  · dsimp only
    rw [hlen, List.length_cons]
    omega

/-- To move a byte on does not make the length negative. -/
theorem Cursor.On.move (h : c.On whole (b :: rest)) : Returns (c.move 1) fun c' => c'.On whole rest := by
  have hlen := h.len_eq
  rw [List.length_cons] at hlen
  refine ⟨_, ?_, h.next⟩
  unfold Cursor.move
  rw [if_neg (by omega)]

/-- To move two bytes on does not either. -/
theorem Cursor.On.move_two {b' : UInt8} (h : c.On whole (b :: b' :: rest)) :
    Returns (c.move 2) fun c' => c'.On whole rest := by
  have hlen := h.len_eq
  rw [List.length_cons, List.length_cons] at hlen
  refine ⟨_, ?_, h.next.next⟩
  unfold Cursor.move
  rw [if_neg (by omega)]
  have hptr : c.ptr + 2 = c.ptr + 1 + 1 := by omega
  have hrest : c.len - 2 = c.len - 1 - 1 := by omega
  rw [hptr, hrest]

/-- At the end, a byte back is the last one. -/
theorem Cursor.On.move_back (h : c.On whole []) (hne : whole ≠ []) :
    Returns (c.move (-1)) fun c' => ∃ b, c'.On whole [b] := by
  obtain ⟨before, hwhole, hptr, hlen⟩ := h
  rw [List.append_nil] at hwhole
  subst hwhole
  have hpos := List.length_pos_of_ne_nil hne
  unfold Cursor.move
  rw [if_neg (by rw [hlen]; decide)]
  refine ⟨_, rfl, whole.getLast hne, whole.dropLast, (List.dropLast_append_getLast hne).symm, ?_, ?_⟩
  · dsimp only
    rw [hptr, List.length_dropLast]
    omega
  · dsimp only
    rw [hlen]
    rfl

/-- The byte at a cursor in the pattern, or the NUL behind it. -/
theorem Cursor.On.patternAt (h : c.On whole rest) : patternAt whole c.ptr = .ok (rest.headD 0) := by
  obtain ⟨before, rfl, hptr, -⟩ := h
  unfold RaftCpp.patternAt
  rw [hptr, List.length_append, if_pos (by omega), Int.toNat_natCast]
  congr 1
  rw [List.getD_eq_getElem?_getD, List.getElem?_append_right (Nat.le_refl _), Nat.sub_self]
  cases rest <;> rfl

/-- The byte at a cursor in the key. -/
theorem Cursor.On.keyAt (h : c.On whole (b :: rest)) : keyAt whole c.ptr = .ok b := by
  obtain ⟨before, rfl, hptr, -⟩ := h
  unfold RaftCpp.keyAt
  rw [hptr, List.length_append, List.length_cons, if_pos (by omega), Int.toNat_natCast]
  congr 1
  rw [List.getD_eq_getElem?_getD, List.getElem?_append_right (Nat.le_refl _), Nat.sub_self]
  rfl

end On

/-! ## What the matcher returns -/

/-- The bytes as the matcher compares them. -/
def comparison (signed nocase : Bool) : Comparison :=
  { same := sameChar signed nocase, between := inRange signed nocase }

section Spec

variable {pattern key : Bytes} {signed nocase : Bool} {p s : Cursor} {ps ks : Bytes} {b k : UInt8} {fuel : ℕ}

/-- The stars behind a star are passed over. -/
theorem skipStars_spec (hp : p.On pattern (asterisk :: ps)) (hfuel : ps.length < fuel) :
    Returns (skipStars pattern fuel p) fun p' => p'.On pattern (asterisk :: ps.dropWhile (· = asterisk)) := by
  induction fuel generalizing p ps with
  | zero => omega
  | succ fuel ih =>
    refine Returns.bindOk hp.next.patternAt ?_
    cases ps with
    | nil => exact Returns.pure hp
    | cons b ps =>
      rw [List.headD_cons]
      by_cases hb : b = asterisk
      · subst hb
        rw [if_pos rfl, List.dropWhile_cons_of_pos (by decide)]
        refine Returns.bind hp.move fun p' hp' => ?_
        exact ih hp' (Nat.lt_of_succ_lt_succ hfuel)
      · rw [if_neg hb, List.dropWhile_cons_of_neg (by simpa using hb)]
        exact Returns.pure hp

/-- The stars at the end of the key are passed over. -/
theorem skipTrailing_spec (hp : p.On pattern ps) (hfuel : ps.length < fuel) :
    Returns (skipTrailing pattern fuel p) fun p' => p'.On pattern (ps.dropWhile (· = asterisk)) := by
  induction fuel generalizing p ps with
  | zero => omega
  | succ fuel ih =>
    refine Returns.bindOk hp.patternAt ?_
    cases ps with
    | nil => exact Returns.pure hp
    | cons b ps =>
      rw [List.headD_cons]
      by_cases hb : b = asterisk
      · subst hb
        rw [if_pos rfl, List.dropWhile_cons_of_pos (by decide)]
        refine Returns.bind hp.move fun p' hp' => ?_
        exact ih hp' (Nat.lt_of_succ_lt_succ hfuel)
      · rw [if_neg hb, List.dropWhile_cons_of_neg (by simpa using hb)]
        exact Returns.pure hp

/-- At the end of the pattern, a class ends. -/
theorem classLoop_nil (hp : p.On pattern []) (hne : pattern ≠ []) (matched : Bool) :
    Returns (classLoop pattern key signed nocase s (fuel + 1) p matched) fun r =>
      (∃ b, r.1.On pattern [b]) ∧ r.2 = matched := by
  have hlen : p.len = 0 := hp.len_eq
  refine Returns.bindOk hp.patternAt ?_
  rw [List.headD_nil, if_neg (fun h => absurd h.1 (by decide)), if_neg (by decide), if_pos hlen]
  refine Returns.bind (hp.move_back hne) fun p' hp' => ?_
  exact Returns.pure ⟨hp', rfl⟩

/-- A byte of a class that is neither escaped nor the first one of a range. -/
theorem classLoop_byte {P : Cursor × Bool → Prop} {matched : Bool} (hs : s.On key (k :: ks))
    (hp : p.On pattern (b :: ps)) (hb : b ≠ closing) (hescape : b = backslash → ps = [])
    (hrange : ps.headD 0 = dash → ps.length < 2)
    (hrest : ∀ p' : Cursor, p'.On pattern ps → Returns (classLoop pattern key signed nocase s fuel p'
      (matched || (Item.byte b).accepts (comparison signed nocase) k)) P) :
    Returns (classLoop pattern key signed nocase s (fuel + 1) p matched) P := by
  have hlen := hp.len_eq
  rw [List.length_cons] at hlen
  refine Returns.bindOk hp.patternAt ?_
  rw [List.headD_cons, if_neg, if_neg hb, if_neg (by omega)]
  · refine Returns.bindOk hp.next.patternAt ?_
    rw [if_neg]
    · refine Returns.bindOk hs.keyAt ?_
      exact Returns.bind hp.move hrest
    · rintro ⟨hdash, hle⟩
      have hlt := hrange hdash
      omega
  · rintro ⟨hback, hle⟩
    rw [hescape hback, List.length_nil] at hlen
    omega

/-- The loop over a class comes to its end, and finds out whether an item stands for the byte. -/
theorem classLoop_spec (hs : s.On key (k :: ks)) (hne : pattern ≠ []) (hp : p.On pattern ps)
    (hfuel : ps.length < fuel) (matched : Bool) :
    Returns (classLoop pattern key signed nocase s fuel p matched) fun r =>
      (∃ b, r.1.On pattern (b :: (items ps).2)) ∧
        r.2 = (matched || (items ps).1.any (Item.accepts (comparison signed nocase) k)) := by
  -- The cases are those of the items, and each of them goes once around the loop.
  induction ps using items.induct generalizing fuel p matched with
  | case1 =>
    obtain ⟨fuel, rfl⟩ := Nat.exists_eq_succ_of_ne_zero (Nat.ne_of_gt hfuel)
    refine (classLoop_nil hp hne matched).mono fun r hr => ⟨hr.1, ?_⟩
    rw [hr.2]
    exact (Bool.or_false _).symm
  | case2 ps =>
    obtain ⟨fuel, rfl⟩ := Nat.exists_eq_succ_of_ne_zero (Nat.ne_of_gt (Nat.zero_lt_of_lt hfuel))
    refine Returns.bindOk hp.patternAt ?_
    rw [List.headD_cons, if_neg (fun h => absurd h.1 (by decide)), if_pos rfl, items_closing]
    exact Returns.pure ⟨⟨_, hp⟩, (Bool.or_false _).symm⟩
  | case3 b hb =>
    obtain ⟨fuel, rfl⟩ := Nat.exists_eq_succ_of_ne_zero (Nat.ne_of_gt (Nat.zero_lt_of_lt hfuel))
    refine classLoop_byte hs hp hb (fun _ => rfl) (fun h => absurd h (by decide)) fun p' hp' => ?_
    obtain ⟨fuel, rfl⟩ := Nat.exists_eq_succ_of_ne_zero (Nat.ne_of_gt (Nat.lt_of_succ_lt_succ hfuel))
    refine (classLoop_nil hp' hne _).mono fun r hr => ?_
    rw [items_singleton hb]
    refine ⟨hr.1, ?_⟩
    rw [hr.2, List.any_cons, List.any_nil, Bool.or_false]
  | case4 e ps hb ih =>
    obtain ⟨fuel, rfl⟩ := Nat.exists_eq_succ_of_ne_zero (Nat.ne_of_gt (Nat.zero_lt_of_lt hfuel))
    have hlen := hp.len_eq
    rw [List.length_cons, List.length_cons] at hlen hfuel
    refine Returns.bindOk hp.patternAt ?_
    rw [List.headD_cons, if_pos ⟨rfl, by omega⟩, items_escaped]
    refine Returns.bind hp.move fun p' hp' => ?_
    refine Returns.bindOk hp'.patternAt ?_
    refine Returns.bindOk hs.keyAt ?_
    refine Returns.bind hp'.move fun p'' hp'' => ?_
    refine (ih hp'' (by omega) _).mono fun r hr => ⟨hr.1, ?_⟩
    rw [hr.2, Bool.or_assoc]
    rfl
  | case5 b hb e hback ih =>
    obtain ⟨fuel, rfl⟩ := Nat.exists_eq_succ_of_ne_zero (Nat.ne_of_gt (Nat.zero_lt_of_lt hfuel))
    refine classLoop_byte hs hp hb (fun h => absurd h hback) (fun _ => Nat.lt_succ_self _) fun p' hp' => ?_
    rw [items_byte hb hback fun _ => rfl]
    refine (ih hp' (Nat.lt_of_succ_lt_succ hfuel) _).mono fun r hr => ⟨hr.1, ?_⟩
    rw [hr.2, Bool.or_assoc]
    rfl
  | case6 b hb hback last ps ih =>
    obtain ⟨fuel, rfl⟩ := Nat.exists_eq_succ_of_ne_zero (Nat.ne_of_gt (Nat.zero_lt_of_lt hfuel))
    have hlen := hp.len_eq
    rw [List.length_cons, List.length_cons, List.length_cons] at hlen hfuel
    refine Returns.bindOk hp.patternAt ?_
    rw [List.headD_cons, if_neg (fun h => hback h.1), if_neg hb, if_neg (by omega),
      items_range hb hback]
    refine Returns.bindOk hp.next.patternAt ?_
    rw [List.headD_cons, if_pos ⟨rfl, by omega⟩]
    have htwo : p.ptr + 2 = p.ptr + 1 + 1 := by omega
    have hlast := hp.next.next.patternAt
    rw [htwo]
    refine Returns.bindOk hlast ?_
    refine Returns.bindOk hs.keyAt ?_
    refine Returns.bind hp.move_two fun p' hp' => ?_
    refine Returns.bind hp'.move fun p'' hp'' => ?_
    refine (ih hp'' (by omega) _).mono fun r hr => ⟨hr.1, ?_⟩
    rw [hr.2, Bool.or_assoc]
    rfl
  | case7 b hb e hback last ps hdash ih =>
    obtain ⟨fuel, rfl⟩ := Nat.exists_eq_succ_of_ne_zero (Nat.ne_of_gt (Nat.zero_lt_of_lt hfuel))
    refine classLoop_byte hs hp hb (fun h => absurd h hback) (fun h => absurd h hdash) fun p' hp' => ?_
    rw [items_byte hb hback fun h => absurd h hdash]
    refine (ih hp' (Nat.lt_of_succ_lt_succ hfuel) _).mono fun r hr => ⟨hr.1, ?_⟩
    rw [hr.2, Bool.or_assoc]
    rfl

/-- What the cases of the `switch` return: whether the token at a cursor stands for a byte, and where the
pattern goes on. -/
def Stands (c : Comparison) (pattern : Bytes) (k : UInt8) (t : Token) (rest : Bytes) (r : Option Cursor) :
    Prop :=
  if t.accepts c k then ∃ p b, r = some p ∧ p.On pattern (b :: rest) else r = none

/-- A class. -/
theorem matchClass_spec (hs : s.On key (k :: ks)) (hp : p.On pattern (opening :: ps))
    (hfuel : ps.length < fuel) :
    Returns (matchClass pattern key signed nocase fuel p s) (Stands (comparison signed nocase) pattern k
      (.oneOf (negation ps).1 (items (negation ps).2).1) (items (negation ps).2).2) := by
  have hne : pattern ≠ [] := fun h => by
    obtain ⟨before, heq, -⟩ := hp
    rw [h] at heq
    exact absurd heq.symm (List.append_ne_nil_of_right_ne_nil _ (List.cons_ne_nil _ _))
  refine Returns.bind hp.move fun p₁ hp₁ => ?_
  refine Returns.bindOk hp₁.patternAt ?_
  -- The caret is passed over.
  have hcaret : Returns (p₁.moveIf (ps.headD 0 = caret)) fun p₂ =>
      p₂.On pattern (negation ps).2 ∧ (negation ps).1 = decide (ps.headD 0 = caret) := by
    unfold Cursor.moveIf negation
    cases ps with
    | nil => exact Returns.pure ⟨hp₁, rfl⟩
    | cons e ps =>
      rw [List.headD_cons, List.head?_cons]
      by_cases he : e = caret
      · rw [if_pos he, if_pos (congrArg some he), decide_eq_true he]
        exact hp₁.move.mono fun p₂ hp₂ => ⟨hp₂, rfl⟩
      · rw [if_neg he, if_neg fun h => he (Option.some.inj h), decide_eq_false he]
        exact Returns.pure ⟨hp₁, rfl⟩
  refine Returns.bind hcaret ?_
  rintro p₂ ⟨hp₂, hnegated⟩
  have hrest := length_negation ps
  refine Returns.bind (classLoop_spec hs hne hp₂ (by omega) false) ?_
  rintro ⟨p₃, matched⟩ ⟨⟨e, hp₃⟩, hmatched⟩
  dsimp only at hmatched ⊢
  rw [Bool.false_or] at hmatched
  unfold Stands
  rw [← hnegated, Token.accepts, ← hmatched]
  by_cases hsame : matched = (negation ps).1
  · rw [if_pos hsame]
    refine Returns.pure ?_
    rw [if_neg (by rw [bne_iff_ne]; exact fun h => h hsame)]
  · rw [if_neg hsame]
    refine Returns.pure ?_
    rw [if_pos (bne_iff_ne.mpr hsame)]
    exact ⟨p₃, e, rfl, hp₃⟩

variable (signed nocase) in
/-- A byte, at once or behind a backslash. -/
theorem matchByte_spec (hs : s.On key (k :: ks)) (hp : p.On pattern (b :: ps)) :
    Returns (matchByte pattern key signed nocase p s b)
      (if b = backslash ∧ ps ≠ [] then Stands (comparison signed nocase) pattern k (.byte (ps.headD 0)) ps.tail
      else Stands (comparison signed nocase) pattern k (.byte b) ps) := by
  have hlen := hp.len_eq
  rw [List.length_cons] at hlen
  -- A byte is compared where the cursor is then.
  have hbyte : ∀ {p' : Cursor} {b' : UInt8} {rest : Bytes}, p'.On pattern (b' :: rest) → Returns (do
      let b ← patternAt pattern p'.ptr
      let k ← keyAt key s.ptr
      if sameChar signed nocase b k then return some p' else return none)
        (Stands (comparison signed nocase) pattern k (.byte b') rest) := by
    intro p' b' rest hp'
    refine Returns.bindOk hp'.patternAt ?_
    refine Returns.bindOk hs.keyAt ?_
    rw [List.headD_cons]
    unfold Stands Token.accepts
    show Returns (if sameChar signed nocase b' k then pure (some p') else pure none) fun r =>
      if sameChar signed nocase b' k then _ else r = none
    split_ifs
    · exact Returns.pure ⟨p', b', rfl, hp'⟩
    · exact Returns.pure rfl
  unfold matchByte Cursor.moveIf
  cases ps with
  | nil =>
    rw [List.length_nil] at hlen
    rw [if_neg (by omega), if_neg fun h => h.2 rfl]
    exact hbyte hp
  | cons e ps =>
    rw [List.length_cons] at hlen
    by_cases hb : b = backslash
    · rw [if_pos ⟨hb, by omega⟩, if_pos ⟨hb, List.cons_ne_nil _ _⟩]
      exact Returns.bind hp.move fun p' hp' => hbyte hp'
    · rw [if_neg fun h => hb h.1, if_neg fun h => hb h.1]
      exact hbyte hp

variable (signed nocase) in
/-- The cases of the `switch` stand for one token. -/
theorem matchOne_spec (hs : s.On key (k :: ks)) (hp : p.On pattern (b :: ps)) (hb : b ≠ asterisk)
    (hfuel : ps.length < fuel) :
    ∃ t rest, tokens (b :: ps) = t :: tokens rest ∧ t ≠ .star ∧ rest.length ≤ ps.length ∧
      Returns (matchOne pattern key signed nocase fuel p s b)
        (Stands (comparison signed nocase) pattern k t rest) := by
  have hslen : s.len ≠ 0 := by
    rw [hs.len_eq, List.length_cons]
    omega
  unfold matchOne
  rw [tokens, if_neg hb]
  by_cases hquestion : b = question
  · rw [if_pos hquestion, if_pos hquestion, if_neg hslen]
    exact ⟨_, ps, rfl, (fun h => by cases h), le_refl _, Returns.pure ⟨p, b, rfl, hp⟩⟩
  rw [if_neg hquestion, if_neg hquestion]
  by_cases hopening : b = opening
  · subst hopening
    rw [if_pos rfl, if_pos rfl]
    refine ⟨_, _, rfl, (fun h => by cases h), ?_, matchClass_spec hs hp hfuel⟩
    exact (length_items _).trans (length_negation ps)
  rw [if_neg hopening, if_neg hopening]
  have hbyte := matchByte_spec signed nocase hs hp
  split_ifs at hbyte ⊢ with hback
  · refine ⟨_, _, rfl, (fun h => by cases h), ?_, hbyte⟩
    rw [List.length_tail]
    omega
  · exact ⟨_, ps, rfl, (fun h => by cases h), le_refl _, hbyte⟩

/-- The loop of a star finds out whether a rest of the key, but not the empty one, matches what follows. -/
theorem starLoop_spec {call : Cursor → Except MatchFault Bool} {Q : Bytes → Prop} {n : ℕ}
    (hcall : ∀ (s : Cursor) (k : UInt8) (ks : Bytes), s.On key (k :: ks) → ks.length < n →
      Returns (call s) fun r => r = true ↔ Q (k :: ks))
    (hs : s.On key ks) (hn : ks.length ≤ n) (hfuel : ks.length < fuel) :
    Returns (starLoop call fuel s) fun r => r = true ↔ ∃ n < ks.length, Q (ks.drop n) := by
  induction fuel generalizing s ks with
  | zero => omega
  | succ fuel ih =>
    have hlen := hs.len_eq
    unfold starLoop
    cases ks with
    | nil =>
      rw [List.length_nil] at hlen
      rw [if_pos (by omega)]
      refine Returns.pure ⟨(fun h => by cases h), ?_⟩
      rintro ⟨n, hn, -⟩
      exact absurd hn (Nat.not_lt_zero n)
    | cons k ks =>
      rw [List.length_cons] at hlen hn hfuel
      rw [if_neg (by omega)]
      refine Returns.bind (hcall s k ks hs hn) fun found hfound => ?_
      by_cases hq : Q (k :: ks)
      · rw [if_pos (hfound.mpr hq)]
        exact Returns.pure ⟨fun _ => ⟨0, Nat.succ_pos _, hq⟩, fun _ => rfl⟩
      · rw [if_neg fun h => hq (hfound.mp h)]
        refine Returns.bind hs.move fun s' hs' => ?_
        refine (ih hs' (by omega) (by omega)).mono fun r hr => hr.trans ?_
        constructor
        · rintro ⟨n, hn, h⟩
          exact ⟨n + 1, Nat.succ_lt_succ hn, h⟩
        · rintro ⟨n, hn, h⟩
          cases n with
          | zero => exact absurd h hq
          | succ n => exact ⟨n, Nat.lt_of_succ_lt_succ hn, h⟩

/-- A row of stars is a star. -/
theorem matches_dropWhile {c : Comparison} (ps ks : Bytes) :
    Matches c (tokens (asterisk :: ps)) ks ↔
      Matches c (.star :: tokens (ps.dropWhile (· = asterisk))) ks := by
  rw [tokens, if_pos rfl]
  induction ps with
  | nil => rfl
  | cons b ps ih =>
    by_cases hb : b = asterisk
    · subst hb
      rw [List.dropWhile_cons_of_pos (by decide), tokens, if_pos rfl, matches_star_star]
      exact ih
    · rw [List.dropWhile_cons_of_neg (by simpa using hb)]

/-- What is left behind stars stands for a byte at least. -/
theorem matches_drop_lt {c : Comparison} {ps ks : Bytes} (hne : ps.dropWhile (· = asterisk) ≠ []) :
    Matches c (.star :: tokens (ps.dropWhile (· = asterisk))) ks ↔
      ∃ n < ks.length, Matches c (tokens (ps.dropWhile (· = asterisk))) (ks.drop n) := by
  rw [matches_star]
  constructor
  · rintro ⟨n, hn, h⟩
    refine ⟨n, lt_of_le_of_ne hn fun heq => ?_, h⟩
    rw [heq, List.drop_length, matches_nil, tokens_stars] at h
    have hhead := List.head_dropWhile_not (· = asterisk) hne
    rw [h _ (List.head_mem hne)] at hhead
    exact absurd hhead (by decide)
  · rintro ⟨n, hn, h⟩
    exact ⟨n, hn.le, h⟩

/-- Nothing but stars is left when all stars at the end are passed over and nothing is left. -/
theorem dropWhile_eq_nil {ps : Bytes} : ps.dropWhile (· = asterisk) = [] ↔ ∀ b ∈ ps, b = asterisk := by
  rw [List.dropWhile_eq_nil_iff]
  simp only [decide_eq_true_eq]

/-- The matcher comes to an end without a fault. It finds out whether the key matches the pattern, but an empty
key only matches an empty pattern. -/
theorem stringMatchLen_spec (hp : p.On pattern ps) (hs : s.On key ks)
    (hfuel : ps.length + ks.length + 1 < fuel) :
    Returns (stringMatchLen pattern key signed nocase fuel p s) fun r =>
      r = true ↔ if ks = [] then ps = [] else Matches (comparison signed nocase) (tokens ps) ks := by
  induction fuel generalizing p s ps ks with
  | zero => omega
  | succ fuel ih =>
    have hplen := hp.len_eq
    have hslen := hs.len_eq
    unfold stringMatchLen
    cases ks with
    | nil =>
      rw [List.length_nil] at hslen
      rw [if_neg fun h => h.2 (by omega), if_pos rfl]
      refine Returns.pure ?_
      rw [decide_eq_true_eq, ← List.length_eq_zero_iff]
      omega
    | cons k ks =>
      rw [List.length_cons] at hslen hfuel
      rw [if_neg (List.cons_ne_nil k ks)]
      cases ps with
      | nil =>
        rw [List.length_nil] at hplen
        rw [if_neg fun h => h.1 (by omega), tokens, matches_nil_left]
        refine Returns.pure ?_
        rw [decide_eq_true_eq]
        refine ⟨fun h => ?_, fun h => by cases h⟩
        omega
      | cons b ps =>
        rw [List.length_cons] at hplen hfuel
        rw [if_pos ⟨by omega, by omega⟩]
        refine Returns.bindOk hp.patternAt ?_
        rw [List.headD_cons]
        by_cases hb : b = asterisk
        · subst hb
          rw [if_pos rfl, matches_dropWhile]
          refine Returns.bind (skipStars_spec hp (by omega)) fun p' hp' => ?_
          have hplen' := hp'.len_eq
          rw [List.length_cons] at hplen'
          by_cases hnil : ps.dropWhile (· = asterisk) = []
          · rw [hnil, List.length_nil] at hplen'
            rw [if_pos (by omega), hnil, tokens]
            exact Returns.pure ⟨fun _ => matches_star_nil, fun _ => rfl⟩
          · have hpos := List.length_pos_of_ne_nil hnil
            have hle := List.length_dropWhile_le (p := (· = asterisk)) ps
            rw [if_neg (by omega), matches_drop_lt hnil]
            refine Returns.bind hp'.move fun rest hrest => ?_
            refine starLoop_spec (fun s' k' ks' hs' hn => ?_) hs (le_refl _) (by rw [List.length_cons]; omega)
            rw [List.length_cons] at hn
            refine (ih hrest hs' (by rw [List.length_cons]; omega)).mono fun r hr => ?_
            rwa [if_neg (List.cons_ne_nil _ _)] at hr
        · rw [if_neg hb]
          have hpfuel : ps.length < fuel := by omega
          obtain ⟨t, rest, htokens, ht, hrest, hone⟩ := matchOne_spec signed nocase hs hp hb hpfuel
          rw [htokens, matches_cons ht]
          refine Returns.bind hone fun r hr => ?_
          unfold Stands at hr
          by_cases haccepts : t.accepts (comparison signed nocase) k = true
          · rw [if_pos haccepts] at hr
            obtain ⟨p', b', rfl, hp'⟩ := hr
            dsimp only
            refine Returns.bind hs.move fun s' hs' => ?_
            refine Returns.bind hp'.move fun p'' hp'' => ?_
            have hslen' := hs'.len_eq
            simp only [haccepts, true_and]
            cases ks with
            | nil =>
              rw [List.length_nil] at hslen'
              rw [if_pos (by omega), matches_nil, tokens_stars, ← dropWhile_eq_nil]
              refine Returns.bind (skipTrailing_spec hp'' (by omega)) fun p₃ hp₃ => Returns.pure ?_
              have hplen₃ := hp₃.len_eq
              rw [decide_eq_true_eq, ← List.length_eq_zero_iff]
              omega
            | cons k' ks =>
              rw [List.length_cons] at hslen' hfuel
              rw [if_neg (by omega)]
              refine (ih hp'' hs' (by rw [List.length_cons]; omega)).mono fun r hr => ?_
              rwa [if_neg (List.cons_ne_nil _ _)] at hr
          · rw [if_neg haccepts] at hr
            subst hr
            exact Returns.pure ⟨(fun h => by cases h), fun h => absurd h.1 haccepts⟩

variable (signed nocase) in
/-- What a call with the whole pattern and the whole key returns. -/
theorem matchKey_spec (hfuel : matchFuel pattern key ≤ fuel) :
    Returns (stringMatchLen pattern key signed nocase fuel { ptr := 0, len := pattern.length }
      { ptr := 0, len := key.length }) fun r => r = true ↔
        if key = [] then pattern = [] else Matches (comparison signed nocase) (tokens pattern) key :=
  stringMatchLen_spec (Cursor.on_start pattern) (Cursor.on_start key) hfuel

end Spec

/-- The matcher comes to an end, with the same result for every bound that is large enough. It reads no byte
outside of the buffers, in none of its calls, and no length becomes negative. -/
theorem match_in_bounds (pattern key : Bytes) (signed nocase : Bool) :
    ∃ r, ∀ fuel, matchFuel pattern key ≤ fuel →
      stringMatchLen pattern key signed nocase fuel { ptr := 0, len := pattern.length }
        { ptr := 0, len := key.length } = .ok r := by
  obtain ⟨r, -, hr⟩ := matchKey_spec signed nocase (le_refl (matchFuel pattern key))
  refine ⟨r, fun fuel hfuel => ?_⟩
  obtain ⟨r', hok, hr'⟩ := matchKey_spec signed nocase hfuel
  rw [hok, Bool.eq_iff_iff.mpr (hr'.trans hr.symm)]

/-! ## Patterns and bytes -/

/-- A range from one half of the bytes to the other. -/
def Item.Straddles : Item → Prop
  | .range first last => ¬(first.toNat < 128 ↔ last.toNat < 128)
  | _ => False

/-- A class with such a range. -/
def Token.Straddles : Token → Prop
  | .oneOf _ is => ∃ i ∈ is, Item.Straddles i
  | _ => False

/-- What is in a range does not depend on the sign of the bytes, if its ends have the same. -/
theorem inRange_eq {signed : Bool} {first last : UInt8}
    (h : signed = true → (first.toNat < 128 ↔ last.toNat < 128)) (k : UInt8) :
    inRange signed false first last k = bytewise.between first last k := by
  have hfirst := first.toNat_lt
  have hlast := last.toNat_lt
  have hk := k.toNat_lt
  rw [Bool.eq_iff_iff]
  simp only [inRange, bytewise, charValue, Bool.false_eq_true, if_false, Bool.and_eq_true, Bool.or_eq_true,
    decide_eq_true_eq, UInt8.le_iff_toNat_le]
  cases signed with
  | false =>
    simp only [Bool.false_eq_true, false_and, if_false]
    split_ifs <;> omega
  | true =>
    have hsame := h rfl
    simp only [true_and]
    split_ifs <;> omega

/-- The sign of the bytes makes no difference to a pattern without such ranges. -/
theorem matches_comparison {signed : Bool} {pattern key : Bytes}
    (h : signed = true → ∀ t ∈ tokens pattern, ¬Token.Straddles t) :
    Matches (comparison signed false) (tokens pattern) key ↔ Matches bytewise (tokens pattern) key := by
  refine Matches.congr fun t ht k => ?_
  cases t with
  | star => rfl
  | any => rfl
  | byte b => rfl
  | oneOf negated is =>
    have hitem : ∀ i ∈ is, i.accepts (comparison signed false) k = i.accepts bytewise k := by
      intro i hi
      cases i with
      | escaped b => rfl
      | byte b => rfl
      | range first last =>
        exact inRange_eq (fun hsigned => not_not.mp fun hstraddles => h hsigned _ ht ⟨_, hi, hstraddles⟩) k
    have hany : is.any (Item.accepts (comparison signed false) k) = is.any (Item.accepts bytewise k) := by
      rw [Bool.eq_iff_iff, List.any_eq_true, List.any_eq_true]
      exact exists_congr fun i => and_congr_right fun hi => by rw [hitem i hi]
    show (is.any _ != negated) = (is.any _ != negated)
    rw [hany]

/-- The matcher finds out whether the whole key matches the pattern, with two exceptions: an empty key and a
pattern of stars, and a range that has other bytes when the platform takes `char` as signed. -/
theorem glob_exact_iff (pattern key : Bytes) (signed : Bool) :
    (matchKey pattern key signed false = .ok true ↔ Matches bytewise (tokens pattern) key) ↔
      ¬(key = [] ∧ pattern ≠ [] ∧ ∀ b ∈ pattern, b = asterisk) ∧
        (Matches (comparison signed false) (tokens pattern) key ↔ Matches bytewise (tokens pattern) key) := by
  obtain ⟨r, hok, hr⟩ := matchKey_spec signed false (le_refl (matchFuel pattern key))
  have hcode : matchKey pattern key signed false = .ok true ↔
      if key = [] then pattern = [] else Matches (comparison signed false) (tokens pattern) key := by
    rw [← hr]
    unfold matchKey
    rw [hok, Except.ok.injEq]
  rw [hcode]
  by_cases hkey : key = []
  · subst hkey
    rw [if_pos rfl, matches_nil, matches_nil, tokens_stars]
    constructor
    · intro h
      exact ⟨fun hstars => hstars.2.1 (h.mpr hstars.2.2), Iff.rfl⟩
    · rintro ⟨h, -⟩
      constructor
      · rintro rfl
        exact nofun
      · intro hstars
        by_contra hne
        exact h ⟨rfl, hne, hstars⟩
  · rw [if_neg hkey]
    exact ⟨fun h => ⟨fun hstars => hkey hstars.1, h⟩, fun h => h.2⟩

/-- A star does not match the empty key. -/
theorem empty_key_unmatched : ¬∀ (pattern key : Bytes) (signed : Bool),
    matchKey pattern key signed false = .ok true ↔ Matches bytewise (tokens pattern) key := by
  intro hall
  have hmatches : Matches bytewise (tokens [asterisk]) [] := by
    rw [matches_nil, tokens_stars]
    exact fun b hb => List.mem_singleton.mp hb
  have htrue := (hall [asterisk] [] true).mpr hmatches
  have hfalse : matchKey [asterisk] [] true false = .ok false := by decide
  rw [hfalse] at htrue
  cases htrue

/-- The range from `a` to the byte `0xff` has no `b` where `char` is signed. -/
example : matchKey [opening, 97, dash, 255, closing] [98] true false = .ok false := by decide

end RaftCpp
