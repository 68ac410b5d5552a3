import Mathlib.Data.List.Infix
import Mathlib.Tactic.SplitIfs
import RaftCpp.Raft.Proto

/-!
# A client's session

`RedisSession` of `raft-kv/server/redis_session.h` and `raft-kv/server/redis_session.cpp`: how what a
client sends is read, fed to the hiredis reader, and dispatched. The session feeds the reader up to the
last newline of each read. What follows it in the read is lost, and so are the commands of a read in which
the reader finds an error.
-/

namespace RaftCpp

/-- What the hiredis reader finds in the bytes fed to it so far. -/
structure RespReader (ρ : Type) where
  /-- The complete values. -/
  values : Bytes → List ρ
  /-- Whether they break the protocol. -/
  bad : Bytes → Bool

/-- The byte that ends a line, `'\n'`. -/
def newline : UInt8 := 10

/-- What the session relies on: more bytes leave what was found before, an error is not mended by more
bytes, and a value ends with a newline, so that a line completes at most one. -/
structure RespReader.Lawful {ρ : Type} (R : RespReader ρ) : Prop where
  /-- Nothing is found in no bytes. -/
  values_nil : R.values [] = []
  /-- There is no error in them either. -/
  bad_nil : R.bad [] = false
  /-- What was found stays. -/
  values_append : ∀ xs ys, R.values xs <+: R.values (xs ++ ys)
  /-- An error stays. -/
  bad_append : ∀ xs ys, R.bad xs = true → R.bad (xs ++ ys) = true
  /-- A line completes at most one value. -/
  values_line : ∀ xs line, newline ∉ line →
    (R.values (xs ++ (line ++ [newline]))).length ≤ (R.values xs).length + 1

/-- The state of a reader: the bytes fed to it, and the number of values it has given out. -/
structure RedisReader where
  /-- The bytes. -/
  fed : Bytes := []
  /-- The number of values. -/
  taken : ℕ := 0

namespace RedisReader

variable {ρ : Type} (R : RespReader ρ)

/-- `redisReaderFeed`: nothing can be fed after an error. -/
def feed (r : RedisReader) (bytes : Bytes) : Option RedisReader :=
  if R.bad r.fed then none else some { r with fed := r.fed ++ bytes }

/-- `redisReaderGetReply`: the next value, if there is one, or an error. -/
def getReply (r : RedisReader) : Option (Option ρ × RedisReader) :=
  if R.bad r.fed then none
  else
    match (R.values r.fed)[r.taken]? with
    | none => some (none, r)
    | some v => some (some v, { r with taken := r.taken + 1 })

end RedisReader

/-- A client's session. -/
structure RedisSession (ρ : Type) where
  /-- Whether a protocol error has ended it. -/
  quit : Bool := false
  /-- The reader. -/
  reader : RedisReader := {}
  /-- The number of reads that were started and are not finished. -/
  reads : ℕ := 0
  /-- The values given to `on_redis_reply`, in order. -/
  dispatched : List ρ := []

/-- The size of the buffer that a read goes to, `RECEIVE_BUFFER_SIZE`. -/
def receiveBufferSize : ℕ := 1024 * 512

/-- The bytes up to the first newline, and those after it: what `memchr` finds. -/
def cutLine : Bytes → Option (Bytes × Bytes)
  | [] => none
  | b :: bs =>
    if b = newline then some ([b], bs)
    else
      match cutLine bs with
      | none => none
      | some (line, rest) => some (b :: line, rest)

namespace RedisSession

variable {ρ : Type} (R : RespReader ρ)

/-- `start`. -/
def start (s : RedisSession ρ) : RedisSession ρ :=
  if s.quit then s else { s with reads := s.reads + 1 }

/-- The loop of `handle_read`, for at most the given number of lines: whether no error was met, and the
replies. -/
def readLoop : ℕ → Bytes → List ρ → RedisSession ρ → Bool × List ρ × RedisSession ρ
  | 0, _, replies, s => (true, replies, s)
  | fuel + 1, bytes, replies, s =>
    if s.quit ∨ bytes = [] then (true, replies, s)
    else
      match cutLine bytes with
      -- The bytes without a newline stay in the buffer, which the next read overwrites.
      | none => (true, replies, s.start)
      | some (line, rest) =>
        match s.reader.feed R line with
        | none => (false, replies, { s with quit := true })
        | some reader =>
          match reader.getReply R with
          | none => (false, replies, { s with quit := true, reader := reader })
          | some (reply, reader) =>
            readLoop fuel rest (replies ++ reply.toList) { s with reader := reader }

/-- `handle_read`. The replies are only dispatched if no error was met. -/
def handleRead (s : RedisSession ρ) (bytes : Bytes) : RedisSession ρ :=
  let (ok, replies, s) := readLoop R bytes.length bytes [] s
  if ok then { s with dispatched := s.dispatched ++ replies }.start else s

/-- The end of a read, if one was started: the handler in `start`. -/
def onRead (s : RedisSession ρ) (bytes : Bytes) : RedisSession ρ :=
  if s.reads = 0 then s
  else
    let s := { s with reads := s.reads - 1 }
    if bytes = [] then s else s.handleRead R bytes

/-- A session after some reads. -/
def afterReads (reads : List Bytes) : RedisSession ρ :=
  reads.foldl (onRead R) (start {})

end RedisSession

/-! ## What is kept of a read -/

/-- The bytes up to the last newline. -/
def wholeLines : Bytes → Bytes
  | [] => []
  | b :: bs => if newline ∈ b :: bs then b :: wholeLines bs else []

namespace RespReader

variable {ρ : Type} (R : RespReader ρ)

/-- The bytes that are dispatched after the given ones: those up to the last newline of each read, before
the first read in which an error is met. -/
def kept : Bytes → List Bytes → Bytes
  | fed, [] => fed
  | fed, bytes :: reads =>
    if R.bad (fed ++ wholeLines bytes) then fed else kept (fed ++ wholeLines bytes) reads

end RespReader

/-- Without a newline there is no whole line. -/
theorem wholeLines_of_cutLine_none {bytes : Bytes} (h : cutLine bytes = none) :
    newline ∉ bytes ∧ wholeLines bytes = [] := by
  induction bytes with
  | nil => exact ⟨List.not_mem_nil, rfl⟩
  | cons b bs ih =>
    unfold cutLine at h
    split_ifs at h with hb
    split at h
    · next hnone =>
      have hmem : newline ∉ b :: bs := by
        rw [List.mem_cons, not_or]
        exact ⟨fun heq => hb heq.symm, (ih hnone).1⟩
      refine ⟨hmem, ?_⟩
      unfold wholeLines
      rw [if_neg hmem]
    · cases h

/-- The first line is one of the whole lines. -/
theorem wholeLines_of_cutLine_some {bytes line rest : Bytes} (h : cutLine bytes = some (line, rest)) :
    ∃ l, line = l ++ [newline] ∧ newline ∉ l ∧ bytes = line ++ rest ∧
      wholeLines bytes = line ++ wholeLines rest := by
  induction bytes generalizing line with
  | nil => cases h
  | cons b bs ih =>
    unfold cutLine at h
    split_ifs at h with hb
    · cases h
      subst hb
      refine ⟨[], rfl, List.not_mem_nil, rfl, ?_⟩
      rw [wholeLines, if_pos List.mem_cons_self]
      rfl
    split at h
    · cases h
    · next line' rest' hsome =>
      cases h
      obtain ⟨l, rfl, hl, hbs, hwhole⟩ := ih hsome
      refine ⟨b :: l, rfl, ?_, by rw [hbs]; rfl, ?_⟩
      · rw [List.mem_cons, not_or]
        exact ⟨fun heq => hb heq.symm, hl⟩
      · rw [wholeLines, if_pos, hwhole]
        · rfl
        · rw [hbs]
          simp

/-- What a list adds to a prefix, in two parts. -/
theorem drop_of_isPrefix {α : Type} {xs ys zs : List α} (h : xs <+: ys) (h' : ys <+: zs) :
    zs.drop xs.length = ys.drop xs.length ++ zs.drop ys.length := by
  obtain ⟨t, rfl⟩ := h
  obtain ⟨u, rfl⟩ := h'
  rw [List.append_assoc, List.drop_left, List.drop_left, ← List.append_assoc, List.drop_left]

/-- A reader that goes on has met no error, and has given out all it found. -/
structure RedisReader.Open {ρ : Type} (R : RespReader ρ) (r : RedisReader) : Prop where
  /-- There was no error. -/
  bad : R.bad r.fed = false
  /-- Every value was given out. -/
  taken : r.taken = (R.values r.fed).length

/-- A line that is fed to a reader gives what it adds to the values, or an error. -/
theorem RedisReader.Open.line {ρ : Type} {R : RespReader ρ} {r : RedisReader} (h : r.Open R)
    (hR : R.Lawful) {l : Bytes} (hl : newline ∉ l) :
    r.feed R (l ++ [newline]) = some { r with fed := r.fed ++ (l ++ [newline]) } ∧
      if R.bad (r.fed ++ (l ++ [newline])) then
        getReply R { r with fed := r.fed ++ (l ++ [newline]) } = none
      else ∃ reply r', getReply R { r with fed := r.fed ++ (l ++ [newline]) } = some (reply, r') ∧
        r'.Open R ∧ r'.fed = r.fed ++ (l ++ [newline]) ∧
        reply.toList = (R.values r'.fed).drop (R.values r.fed).length := by
  constructor
  · unfold feed
    rw [h.bad, if_neg Bool.false_ne_true]
  have hpre := (hR.values_append r.fed (l ++ [newline])).length_le
  have hone := hR.values_line r.fed l hl
  unfold getReply
  dsimp only
  by_cases hbad : R.bad (r.fed ++ (l ++ [newline])) = true
  · rw [if_pos hbad, if_pos hbad]
  rw [if_neg hbad, if_neg hbad, h.taken]
  cases hget : (R.values (r.fed ++ (l ++ [newline])))[(R.values r.fed).length]? with
  | none =>
    have hle := List.getElem?_eq_none_iff.mp hget
    refine ⟨none, _, rfl, ⟨by simpa using hbad, ?_⟩, rfl, ?_⟩
    · exact Nat.le_antisymm hpre hle
    · rw [List.drop_of_length_le hle]
      rfl
  | some v =>
    obtain ⟨hlt, hv⟩ := List.getElem?_eq_some_iff.mp hget
    refine ⟨some v, _, rfl, ⟨by simpa using hbad, ?_⟩, rfl, ?_⟩
    · show (R.values r.fed).length + 1 = (R.values (r.fed ++ (l ++ [newline]))).length
      omega
    · rw [List.drop_eq_getElem_cons hlt, hv, List.drop_of_length_le (by omega)]
      rfl

namespace RedisSession

variable {ρ : Type} {R : RespReader ρ}

/-- The loop of `handle_read` feeds the whole lines to the reader, and collects what it finds in them,
unless it meets an error. -/
theorem readLoop_spec (hR : R.Lawful) :
    ∀ (fuel : ℕ) {bytes : Bytes} (replies : List ρ) {s : RedisSession ρ}, s.quit = false →
      s.reader.Open R → bytes.length ≤ fuel →
      (readLoop R fuel bytes replies s).2.2.dispatched = s.dispatched ∧
        if R.bad (s.reader.fed ++ wholeLines bytes) then
          (readLoop R fuel bytes replies s).1 = false ∧ (readLoop R fuel bytes replies s).2.2.quit = true
        else (readLoop R fuel bytes replies s).1 = true ∧
          (readLoop R fuel bytes replies s).2.2.quit = false ∧
          (readLoop R fuel bytes replies s).2.2.reader.Open R ∧
          (readLoop R fuel bytes replies s).2.2.reader.fed = s.reader.fed ++ wholeLines bytes ∧
          (readLoop R fuel bytes replies s).2.1 = replies ++
            (R.values (s.reader.fed ++ wholeLines bytes)).drop (R.values s.reader.fed).length
  | 0, bytes, replies, s, hquit, hs, hle => by
    obtain rfl := List.length_eq_zero_iff.mp (Nat.le_zero.mp hle)
    simp [readLoop, wholeLines, hs.bad, hs, hquit]
  | fuel + 1, bytes, replies, s, hquit, hs, hle => by
    unfold readLoop
    by_cases hnil : bytes = []
    · simp [hnil, wholeLines, hs.bad, hs, hquit]
    rw [if_neg (by simp [hquit, hnil])]
    cases hcut : cutLine bytes with
    | none =>
      obtain ⟨-, hwhole⟩ := wholeLines_of_cutLine_none hcut
      simp [hwhole, hs.bad, hs, hquit, start]
    | some p =>
      obtain ⟨line, rest⟩ := p
      obtain ⟨l, rfl, hl, rfl, hwhole⟩ := wholeLines_of_cutLine_some hcut
      obtain ⟨hfeed, hreply⟩ := hs.line hR hl
      rw [hwhole, ← List.append_assoc]
      simp only [hfeed]
      by_cases hbad : R.bad (s.reader.fed ++ (l ++ [newline])) = true
      · -- An error in this line is one of the whole read.
        rw [if_pos hbad] at hreply
        rw [if_pos (hR.bad_append _ (wholeLines rest) hbad)]
        simp only [hreply, and_self]
      · rw [if_neg hbad] at hreply
        obtain ⟨reply, r', hget, hopen, hfed, hnew⟩ := hreply
        simp only [hget]
        have hlen : rest.length ≤ fuel := by
          simp only [List.length_append, List.length_singleton] at hle
          omega
        have ih := readLoop_spec hR fuel (replies ++ reply.toList) (s := { s with reader := r' }) hquit
          hopen hlen
        simp only [hfed] at ih hnew
        rw [drop_of_isPrefix (hR.values_append s.reader.fed (l ++ [newline]))
          (hR.values_append _ (wholeLines rest)), ← List.append_assoc replies, ← hnew]
        exact ih

/-- A session that goes on: a read is started, and all that the reader found was dispatched. -/
structure Open (R : RespReader ρ) (s : RedisSession ρ) : Prop where
  /-- No error was met. -/
  quit : s.quit = false
  /-- The reader goes on. -/
  reader : s.reader.Open R
  /-- A read is started. -/
  reads : s.reads ≠ 0
  /-- What was found was dispatched. -/
  dispatched : s.dispatched = R.values s.reader.fed

/-- After an error nothing is dispatched. -/
theorem onRead_of_quit {s : RedisSession ρ} (hquit : s.quit = true) (bytes : Bytes) :
    (s.onRead R bytes).quit = true ∧ (s.onRead R bytes).dispatched = s.dispatched := by
  have hloop : ∀ (fuel : ℕ) (s : RedisSession ρ), s.quit = true →
      readLoop R fuel bytes [] s = (true, [], s) := by
    intro fuel s hs
    cases fuel with
    | zero => rfl
    | succ fuel =>
      unfold readLoop
      rw [if_pos (Or.inl hs)]
  unfold onRead handleRead
  dsimp only
  by_cases hreads : s.reads = 0
  · rw [if_pos hreads]
    exact ⟨hquit, rfl⟩
  by_cases hnil : bytes = []
  · rw [if_neg hreads, if_pos hnil]
    exact ⟨hquit, rfl⟩
  · rw [if_neg hreads, if_neg hnil, hloop _ _ (by exact hquit)]
    simp [start, hquit]

/-- A read dispatches what the reader finds in its whole lines, unless there is an error. -/
theorem onRead_spec (hR : R.Lawful) {s : RedisSession ρ} (hs : s.Open R) {bytes : Bytes}
    (hne : bytes ≠ []) :
    if R.bad (s.reader.fed ++ wholeLines bytes) then
      (s.onRead R bytes).quit = true ∧ (s.onRead R bytes).dispatched = s.dispatched
    else (s.onRead R bytes).Open R ∧
      (s.onRead R bytes).reader.fed = s.reader.fed ++ wholeLines bytes := by
  have hloop := readLoop_spec hR bytes.length [] (s := { s with reads := s.reads - 1 }) hs.quit
    hs.reader (Nat.le_refl _)
  unfold onRead handleRead
  rw [if_neg hs.reads]
  dsimp only at hloop ⊢
  rw [if_neg hne]
  generalize readLoop R bytes.length bytes [] _ = p at hloop ⊢
  obtain ⟨ok, replies, s'⟩ := p
  dsimp only at hloop ⊢
  by_cases hbad : R.bad (s.reader.fed ++ wholeLines bytes) = true
  · rw [if_pos hbad] at hloop ⊢
    obtain ⟨hdispatched, rfl, hquit⟩ := hloop
    exact ⟨hquit, hdispatched⟩
  · rw [if_neg hbad] at hloop ⊢
    obtain ⟨hdispatched, rfl, hquit, hreader, hfed, rfl⟩ := hloop
    rw [if_pos rfl]
    unfold start
    rw [if_neg (by simp [hquit])]
    refine ⟨⟨hquit, hreader, Nat.succ_ne_zero _, ?_⟩, hfed⟩
    show s'.dispatched ++ _ = R.values s'.reader.fed
    rw [hdispatched, hs.dispatched, hfed, List.nil_append]
    obtain ⟨t, ht⟩ := hR.values_append s.reader.fed (wholeLines bytes)
    rw [← ht, List.drop_left]

/-- What is dispatched in the course of some reads. -/
theorem dispatched_foldl (hR : R.Lawful) :
    ∀ (reads : List Bytes) {s : RedisSession ρ}, s.Open R → (∀ bytes ∈ reads, bytes ≠ []) →
      (reads.foldl (onRead R) s).dispatched = R.values (R.kept s.reader.fed reads)
  | [], s, hs, _ => hs.dispatched
  | bytes :: reads, s, hs, hne => by
    have hread := onRead_spec hR hs (hne bytes List.mem_cons_self)
    rw [List.foldl_cons]
    unfold RespReader.kept
    by_cases hbad : R.bad (s.reader.fed ++ wholeLines bytes) = true
    · rw [if_pos hbad] at hread ⊢
      have hend : ∀ (reads : List Bytes) (s' : RedisSession ρ), s'.quit = true →
          (reads.foldl (onRead R) s').dispatched = s'.dispatched := by
        intro reads
        induction reads with
        | nil => exact fun _ _ => rfl
        | cons bytes reads ih =>
          intro s' hquit
          obtain ⟨hquit', hsame⟩ := onRead_of_quit (R := R) hquit bytes
          exact (ih _ hquit').trans hsame
      rw [hend reads _ hread.1, hread.2, hs.dispatched]
    · rw [if_neg hbad] at hread ⊢
      rw [← hread.2]
      exact dispatched_foldl hR reads hread.1 fun b hb => hne b (List.mem_cons_of_mem _ hb)

/-- What a session dispatches is what the reader finds in the bytes that are kept. -/
theorem dispatched_eq (hR : R.Lawful) {reads : List Bytes} (hne : ∀ bytes ∈ reads, bytes ≠ []) :
    (afterReads R reads).dispatched = R.values (R.kept [] reads) := by
  refine dispatched_foldl hR reads ⟨rfl, ⟨hR.bad_nil, ?_⟩, Nat.one_ne_zero, ?_⟩ hne
  · show 0 = (R.values []).length
    rw [hR.values_nil]
    rfl
  · exact hR.values_nil.symm

end RedisSession

/-! ## Splitting a stream -/

/-- A way of splitting a stream into reads: each read gets some bytes, and no more than fit the buffer. -/
def Splits (stream : Bytes) (reads : List Bytes) : Prop :=
  reads.flatten = stream ∧ ∀ bytes ∈ reads, bytes ≠ [] ∧ bytes.length ≤ receiveBufferSize

instance (stream : Bytes) (reads : List Bytes) : Decidable (Splits stream reads) :=
  inferInstanceAs (Decidable (_ ∧ _))

/-- Two ways of splitting a stream lead to the same dispatches exactly if the same values are found in
what is kept of them. -/
theorem chunking_independent_iff {ρ : Type} {R : RespReader ρ} (hR : R.Lawful) {stream : Bytes}
    {reads reads' : List Bytes} (h : Splits stream reads) (h' : Splits stream reads') :
    (RedisSession.afterReads R reads).dispatched = (RedisSession.afterReads R reads').dispatched ↔
      R.values (R.kept [] reads) = R.values (R.kept [] reads') := by
  rw [RedisSession.dispatched_eq hR fun bytes hb => (h.2 bytes hb).1,
    RedisSession.dispatched_eq hR fun bytes hb => (h'.2 bytes hb).1]

/-- A client's `PING`, an array of one bulk string. -/
def pingRequest : Bytes := [42, 49, 13, 10, 36, 52, 13, 10, 80, 73, 78, 71, 13, 10]

/-- A reader of this one request. -/
def pingReader : RespReader (List Bytes) where
  values bytes := if pingRequest <+: bytes then [[[80, 73, 78, 71]]] else []
  bad _ := false

/-- It is a reader that the session can rely on. -/
theorem pingReader_lawful : pingReader.Lawful where
  values_nil := rfl
  bad_nil := rfl
  values_append xs ys := by
    unfold pingReader
    dsimp only
    split_ifs with h h'
    · exact List.prefix_rfl
    · exact absurd (h.trans (List.prefix_append _ _)) h'
    · exact List.nil_prefix
    · exact List.nil_prefix
  bad_append _ _ h := h
  values_line xs line _ := by
    unfold pingReader
    dsimp only
    split_ifs <;> simp

/-- A request in one read, and the same one with its first line in a read of its own. -/
theorem chunking_independent_lines :
    (RedisSession.afterReads pingReader [pingRequest]).dispatched =
      (RedisSession.afterReads pingReader [pingRequest.take 4, pingRequest.drop 4]).dispatched :=
  have hwhole : Splits pingRequest [pingRequest] := by decide
  (chunking_independent_iff pingReader_lawful hwhole (by decide)).mpr (by decide)

/-- A request that is split within a line is not dispatched. -/
theorem partial_line_lost : ¬ ∀ (ρ : Type) (R : RespReader ρ), R.Lawful →
    ∀ (stream : Bytes) (reads reads' : List Bytes), Splits stream reads → Splits stream reads' →
      (RedisSession.afterReads R reads).dispatched =
        (RedisSession.afterReads R reads').dispatched := by
  intro hall
  have heq := hall _ pingReader pingReader_lawful pingRequest [pingRequest]
    [pingRequest.take 10, pingRequest.drop 10] (by decide) (by decide)
  exact absurd heq (by decide)

end RaftCpp
