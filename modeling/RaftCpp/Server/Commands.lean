import RaftCpp.Library.Resp
import RaftCpp.Server.Requests
import RaftCpp.Server.Snapshots
import RaftCpp.Server.StringMatch

/-!
# The commands of a session

`on_redis_reply` of `raft-kv/server/redis_session.cpp`, with the commands that it calls and the replies that
they build. What `printf` would print is a list of bytes here, and the functions that go by the end of a C
string stop at its first NUL.
-/

namespace RaftCpp

open Outcome

/-- `redisReply`: a value that the hiredis reader gives out, with the exact bytes of a string. -/
inductive RedisReply
  /-- `REDIS_REPLY_STRING`. -/
  | string (str : Bytes)
  /-- `REDIS_REPLY_ARRAY`. -/
  | array (element : List RedisReply)
  /-- Another type. -/
  | other

/-- The commands. -/
inductive Command
  | ping
  | get
  | set
  | del
  | keys
deriving DecidableEq, Repr

/-- What a command does. -/
inductive SessionAction
  /-- The bytes that `send_reply` puts into the send buffer. -/
  | send (bytes : Bytes)
  /-- A call of `RedisStore::set`, whose callback replies. -/
  | set (key value : Bytes)
  /-- A call of `RedisStore::del`, whose callback replies. -/
  | del (keys : List Bytes)
deriving DecidableEq, Repr

/-- The bytes of an ASCII text. -/
def text (s : String) : Bytes := s.toList.map fun c => UInt8.ofNat c.toNat

/-- A C string: the bytes before the first NUL. -/
def cString (bytes : Bytes) : Bytes := bytes.takeWhile (· ≠ 0)

/-- `send_reply`, which takes the length as 32 bits. -/
def sendReply (bytes : Bytes) : SessionAction := .send (bytes.take (bytes.length % 2^32))

/-- `snprintf` into a buffer of 256 bytes, and `send_reply` with the length of all that would have been
printed. One that goes beyond the buffer is undefined. -/
def sendPrinted (printed : Bytes) : Option SessionAction :=
  let buffer := printed.take 255 ++ [0]
  if printed.length ≤ 256 then some (sendReply (buffer.take printed.length)) else none

/-- `g_strdup_printf`, which gives no string for one whose length is no `int`. -/
def strdupPrintf (printed : Bytes) : Option Bytes := if printed.length < 2^31 then some printed else none

namespace shared

/-- `shared::wrong_type`. -/
def wrongType : Bytes := text "-WRONGTYPE Operation against a key holding the wrong kind of value\r\n"

/-- `shared::unknown_command`. -/
def unknownCommand (command : Bytes) : Bytes :=
  text "-ERR unknown command `" ++ cString command ++ text "`\r\n"

/-- `shared::wrong_number_arguments`. -/
def wrongNumberArguments (command : String) : Bytes :=
  text "-ERR wrong number of arguments for '" ++ text command ++ text "' command\r\n"

/-- `shared::pong`. -/
def pong : Bytes := text "+PONG\r\n"

/-- `shared::null`. -/
def null : Bytes := text "$-1\r\n"

/-- `shared::command_table`. -/
def commandTable : List (Bytes × Command) :=
  [(text "ping", .ping), (text "PING", .ping), (text "get", .get), (text "GET", .get), (text "set", .set),
    (text "SET", .set), (text "del", .del), (text "DEL", .del), (text "keys", .keys), (text "KEYS", .keys)]

end shared

/-- What `build_redis_string_array_reply` appends for a string: `"$%lu\r\n"`, and the string with another end
of a line if it is not empty. -/
def stringReply (str : Bytes) : Bytes :=
  [36] ++ Resp.decimal str.length ++ Resp.crlf ++ if str = [] then [] else str ++ Resp.crlf

/-- `build_redis_string_array_reply`. -/
def buildRedisStringArrayReply (strs : List Bytes) : Bytes :=
  [42] ++ Resp.decimal strs.length ++ Resp.crlf ++ strs.flatMap stringReply

/-- What `get_command` prints for a value: `"$%lu\r\n%s\r\n"`. -/
def printedValue (value : Bytes) : Bytes :=
  [36] ++ Resp.decimal value.length ++ Resp.crlf ++ cString value ++ Resp.crlf

namespace RedisStore

/-- `get`. -/
def get (s : RedisStore) (key : Bytes) : Option Bytes := s.keyValues.lookup key

/-- `keys`, in the order in which the keys are stored. -/
def keys (signed : Bool) (s : RedisStore) (pattern : Bytes) : Except MatchFault (List Bytes) :=
  s.keyValues.keys.filterM fun key => matchKey pattern key signed false

end RedisStore

namespace RedisSession

variable (signed : Bool) (s : RedisStore)

/-- `get_command`. A string that could not be printed has no length. -/
def getCommand : List RedisReply → Option SessionAction
  | [_, .string key] =>
    match s.get key with
    | none => some (sendReply shared.null)
    | some value => (strdupPrintf (printedValue value)).map fun str => sendReply (cString str)
  | [_, _] => some (sendReply shared.wrongType)
  | _ => sendPrinted (shared.wrongNumberArguments "get")

/-- `set_command`. -/
def setCommand : List RedisReply → Option SessionAction
  | [_, .string key, .string value] => some (.set key value)
  | [_, _, _] => some (sendReply shared.wrongType)
  | _ => sendPrinted (shared.wrongNumberArguments "set")

/-- The bytes of a string. -/
def str? : RedisReply → Option Bytes
  | .string str => some str
  | _ => none

/-- `del_command`. -/
def delCommand : List RedisReply → Option SessionAction
  | _ :: key :: keys =>
    match (key :: keys).mapM str? with
    | some keys => some (.del keys)
    | none => some (sendReply shared.wrongType)
  | _ => sendPrinted (shared.wrongNumberArguments "del")

/-- `keys_command`. -/
def keysCommand : List RedisReply → Option SessionAction
  | [_, .string pattern] =>
    match s.keys signed pattern with
    | .ok keys => some (sendReply (buildRedisStringArrayReply keys))
    | .error _ => none
  | [_, _] => some (sendReply shared.wrongType)
  | _ => sendPrinted (shared.wrongNumberArguments "keys")

/-- `on_redis_reply`. -/
def onRedisReply : RedisReply → Option SessionAction
  | .array (.string command :: args) =>
    let element := .string command :: args
    match shared.commandTable.lookup command with
    | none => sendPrinted (shared.unknownCommand command)
    | some .ping => some (sendReply shared.pong)
    | some .get => getCommand s element
    | some .set => setCommand element
    | some .del => delCommand element
    | some .keys => keysCommand signed s element
  | .array [] => sendPrinted (shared.wrongNumberArguments "")
  | _ => some (sendReply shared.wrongType)

end RedisSession

/-! ## The reply to KEYS -/

/-- How a string is read. -/
theorem bulkString_parse (n : ℕ) (bs : Bytes) :
    Resp.bulkString.parse ([36] ++ Resp.decimal n ++ Resp.crlf ++ bs) =
      (Msgpack.parseData (n, bs)).bind fun p => (Resp.lineEnd.parse p.2).map fun q => (p.1, q.2) := by
  rw [List.append_assoc, List.append_assoc, List.singleton_append]
  simp only [Resp.bulkString, Msgpack.Format.tagged, if_true, Option.bind_eq_bind]
  rw [Resp.line_parse, Option.bind_some]
  congr 1
  funext p
  cases Resp.lineEnd.parse p.2 <;> rfl

/-- A string that is not empty is a bulk string. -/
theorem stringReply_of_ne {str : Bytes} (h : str ≠ []) : stringReply str = Resp.bulkString.pack str := by
  unfold stringReply
  rw [if_neg h]
  simp [Resp.bulkString, Msgpack.Format.tagged, Resp.line]

/-- After the line of the empty string, no end of a line follows. -/
theorem stringReply_nil (strs : List Bytes) :
    Resp.bulkString.parse (stringReply [] ++ strs.flatMap stringReply) = none := by
  have hend : Resp.lineEnd.parse (strs.flatMap stringReply) = none := by
    cases strs <;> rfl
  unfold stringReply
  rw [if_pos rfl, List.append_nil, bulkString_parse]
  show (Resp.lineEnd.parse (strs.flatMap stringReply)).map _ = none
  rw [hend]
  rfl

/-- The strings of the reply are read back only if none is empty. -/
theorem nil_notMem_of_parseMany {strs strs' : List Bytes} {rest : Bytes}
    (h : Msgpack.parseMany Resp.bulkString strs.length (strs.flatMap stringReply) = some (strs', rest)) :
    [] ∉ strs := by
  induction strs generalizing strs' rest with
  | nil => exact List.not_mem_nil
  | cons str strs ih =>
    rw [List.flatMap_cons, List.length_cons, Msgpack.parseMany] at h
    simp only [Option.bind_eq_bind, Option.bind_eq_some_iff, Prod.exists] at h
    obtain ⟨a, bs, ha, as, bs', has, -⟩ := h
    by_cases hstr : str = []
    · subst hstr
      rw [stringReply_nil] at ha
      cases ha
    · rw [stringReply_of_ne hstr, Resp.bulkString_selfDelimiting.parse_pack_append] at ha
      cases ha
      rw [List.mem_cons, not_or]
      exact ⟨fun heq => hstr heq.symm, ih has⟩

/-- The reply is an array of the strings if and only if none of them is empty. -/
theorem keys_reply_iff (strs : List Bytes) :
    (Resp.array Resp.bulkString).parse (buildRedisStringArrayReply strs) = some (strs, []) ↔ [] ∉ strs := by
  constructor
  · intro h
    unfold buildRedisStringArrayReply at h
    rw [List.append_assoc, List.append_assoc, List.singleton_append] at h
    simp only [Resp.array, Msgpack.Format.tagged, if_true, Msgpack.Format.counted] at h
    rw [Resp.line_parse, Option.bind_some] at h
    exact nil_notMem_of_parseMany h
  · intro h
    have hpack : buildRedisStringArrayReply strs = (Resp.array Resp.bulkString).pack strs := by
      have hstrs : strs.flatMap stringReply = strs.flatMap Resp.bulkString.pack :=
        List.flatMap_congr fun str hstr => stringReply_of_ne fun heq => h (heq ▸ hstr)
      unfold buildRedisStringArrayReply
      rw [hstrs]
      simp [Resp.array, Msgpack.Format.tagged, Msgpack.Format.counted, Resp.line]
    rw [hpack]
    exact (Resp.array_selfDelimiting Resp.bulkString_selfDelimiting).parse_pack strs

/-- The reply with an empty key cannot be read. -/
theorem empty_key_unreadable : ¬∀ strs : List Bytes,
    (Resp.array Resp.bulkString).parse (buildRedisStringArrayReply strs) = some (strs, []) := by
  intro hall
  have hnone : (Resp.array Resp.bulkString).parse (buildRedisStringArrayReply [[]]) = none := by decide
  rw [hall [[]]] at hnone
  cases hnone

/-! ## GET after SET -/

/-- A command sets or deletes the key. -/
def RedisCommitData.Touches (d : RedisCommitData) (key : Bytes) : Prop :=
  (d.type = kCommitSet ∧ d.strs.head? = some key) ∨ (d.type = kCommitDel ∧ key ∈ d.strs)

/-- A command that does not touch a key leaves its value. -/
theorem RedisCommitData.applyTo_of_not_touches {d : RedisCommitData} {key : Bytes} (h : ¬d.Touches key)
    (m : Contents) : d.applyTo m key = m key := by
  unfold RedisCommitData.applyTo
  by_cases hset : d.type = kCommitSet
  · rw [if_pos hset]
    rcases hstrs : d.strs with _ | ⟨key', _ | ⟨value, _ | _⟩⟩
    · rfl
    · rfl
    · refine Function.update_of_ne (fun heq => h (Or.inl ⟨hset, ?_⟩)) _ _
      rw [hstrs, heq]
      rfl
    · rfl
  rw [if_neg hset]
  by_cases hdel : d.type = kCommitDel
  · rw [if_pos hdel]
    exact if_neg fun hmem => h (Or.inr ⟨hdel, hmem⟩)
  · rw [if_neg hdel]

/-- A task that is no command which touches the key, and no snapshot without the value. -/
def StoreTask.Leaves (F : Formats) (key value : Bytes) : StoreTask → Prop
  | .readCommit e => ∀ d ∈ commandIn F e.data, ¬d.Touches key
  | .recoverFromSnapshot data => ∀ kv ∈ F.keyValues.unpack data, kv.lookup key = some value
  | .getSnapshot | .setProposed _ _ | .delProposed _ _ => True

/-- Such a task leaves the value of the key. -/
theorem StoreTask.Leaves.applyTo {F : Formats} {key value : Bytes} {x : StoreTask} (h : x.Leaves F key value)
    {m : Contents} (hm : m key = some value) : x.applyTo F m key = some value := by
  cases x with
  | readCommit e =>
    show applyCommandIn F e.data m key = _
    unfold applyCommandIn
    cases hd : commandIn F e.data with
    | none => exact hm
    | some d => exact (RedisCommitData.applyTo_of_not_touches (h d hd) m).trans hm
  | recoverFromSnapshot data =>
    unfold StoreTask.applyTo
    dsimp only
    cases hkv : F.keyValues.unpack data with
    | none => exact hm
    | some kv => exact h kv hkv
  | getSnapshot => exact hm
  | setProposed commitId status => exact hm
  | delProposed commitId status => exact hm

namespace Server

variable {F : Formats}

/-- What a step does to the map of the store: what the task does that the store takes in it. -/
theorem contentsOf_handle {t : Turn Server ServerEvent} (h : t.before.handle F t.event = .ok t.after) :
    contentsOf t.after.store.keyValues =
      (taskTaken t).elim (contentsOf t.before.store.keyValues) fun x =>
        x.applyTo F (contentsOf t.before.store.keyValues) := by
  have hquiet : Quiet F t → contentsOf t.after.store.keyValues =
      (taskTaken t).elim (contentsOf t.before.store.keyValues) fun x =>
        x.applyTo F (contentsOf t.before.store.keyValues) := by
    intro hq
    rw [hq.taskTaken, hq.store]
    rfl
  cases happens h with
  | works hw => exact hquiet hw.toQuiet
  | rests hr => exact hquiet hr.toQuiet
  | decides hd =>
    rw [hd.taskTaken, hd.store]
    rfl
  | asks ha =>
    rw [ha.taskTaken]
    obtain ⟨s, e, s'⟩ := t
    cases e with
    | set key value callback =>
      have heq := congrArg (fun s : Server => contentsOf s.store.keyValues) (Except.ok.inj h)
      exact heq.symm
    | del keys callback =>
      have heq := congrArg (fun s : Server => contentsOf s.store.keyValues) (Except.ok.inj h)
      exact heq.symm
    | _ => cases ha.requested
  | takes hx =>
    rename_i x
    rw [hx.taskTaken]
    obtain ⟨s, e, s'⟩ := t
    cases e with
    | task =>
      obtain ⟨xs, htasks⟩ : ∃ xs, s.tasks = x :: xs := ⟨_, hx.tasks⟩
      replace h : runTask F { s with replies := [] } = .ok s' := h
      unfold runTask at h
      dsimp only at h
      rw [htasks] at h
      obtain ⟨⟨replies, data, store⟩, hrun, h⟩ := bind_eq_ok.mp h
      cases h
      exact (RedisStore.run_spec s.node.id s.store x _ hrun).1
    | _ => cases hx.taskTaken

/-- A key keeps its value as long as no task touches it. -/
theorem lookup_of_leaves {key value : Bytes} {s s' : Server} {ts : List (Turn Server ServerEvent)}
    (h : Run F s ts s') (hleaves : ∀ t ∈ ts, ∀ x ∈ taskTaken t, x.Leaves F key value)
    (hs : s.store.get key = some value) : s'.store.get key = some value := by
  refine (Trace.invariant (P := fun s => s.store.get key = some value)
    (Q := fun t => ∀ x ∈ taskTaken t, x.Leaves F key value) ?_ h hleaves hs).2
  intro t hstep ht hbefore
  show contentsOf t.after.store.keyValues key = some value
  rw [contentsOf_handle hstep]
  cases hx : taskTaken t with
  | none => exact hbefore
  | some x => exact (ht x hx).applyTo hbefore

end Server

/-! ### What is sent for a value -/

/-- There is no NUL in a C string. -/
theorem zero_notMem_cString (bytes : Bytes) : 0 ∉ cString bytes := fun h => by
  have hne := List.mem_takeWhile_imp h
  simp at hne

/-- Bytes without a NUL are a C string. -/
theorem cString_eq {bytes : Bytes} (h : 0 ∉ bytes) : cString bytes = bytes := by
  refine List.takeWhile_eq_self_iff.mpr fun b hb => ?_
  rw [decide_eq_true_eq]
  rintro rfl
  exact h hb

/-- What is printed for a value has no NUL. -/
theorem zero_notMem_printedValue (value : Bytes) : 0 ∉ printedValue value := by
  have hdigits : 0 ∉ Resp.decimal value.length := fun h => by
    have hdigit := Resp.isDigit_of_mem_decimal h
    revert hdigit
    decide
  unfold printedValue
  simp only [List.mem_append, not_or]
  exact ⟨⟨⟨⟨by decide, hdigits⟩, by decide⟩, zero_notMem_cString value⟩, by decide⟩

/-- A value without a NUL is printed as a bulk string. -/
theorem printedValue_eq {value : Bytes} (h : 0 ∉ value) : printedValue value = Resp.bulkString.pack value := by
  unfold printedValue
  rw [cString_eq h]
  simp [Resp.bulkString, Msgpack.Format.tagged, Resp.line]

/-- What is printed for a value is read back as the value only if there is no NUL in it. -/
theorem zero_notMem_of_parse {value rest : Bytes}
    (h : Resp.bulkString.parse (printedValue value) = some (value, rest)) : 0 ∉ value := by
  unfold printedValue at h
  rw [List.append_assoc _ (cString value), bulkString_parse] at h
  obtain ⟨⟨data, bs⟩, hdata, h⟩ := Option.bind_eq_some_iff.mp h
  obtain ⟨⟨⟨⟩, bs'⟩, -, heq⟩ := Option.map_eq_some_iff.mp h
  obtain ⟨hread, -⟩ := Prod.mk.inj heq
  unfold Msgpack.parseData at hdata
  dsimp only at hdata
  split_ifs at hdata
  -- The value is a part of what is printed after its length.
  have hvalue : (cString value ++ Resp.crlf).take value.length = value :=
    (Prod.mk.inj (Option.some.inj hdata)).1.trans hread
  intro hzero
  rw [← hvalue] at hzero
  have hmem := List.mem_of_mem_take hzero
  rw [List.mem_append] at hmem
  exact hmem.elim (zero_notMem_cString value) (by decide)

/-- The commands that set a key. -/
def IsSet (name : Bytes) : Prop := name = text "set" ∨ name = text "SET"

/-- The commands that get one. -/
def IsGet (name : Bytes) : Prop := name = text "get" ∨ name = text "GET"

namespace RedisSession

variable {signed : Bool} {s : RedisStore} {name key value : Bytes}

/-- A request to set a key calls the store with its exact bytes. -/
theorem onRedisReply_set (h : IsSet name) :
    onRedisReply signed s (.array [.string name, .string key, .string value]) = some (.set key value) := by
  obtain rfl | rfl := h
  · rfl
  · rfl

/-- A request to get one is answered by `get_command`. -/
theorem onRedisReply_get (h : IsGet name) :
    onRedisReply signed s (.array [.string name, .string key]) =
      getCommand s [.string name, .string key] := by
  obtain rfl | rfl := h
  · rfl
  · rfl

/-- The reply for a key with a value is the value as a bulk string if and only if there is no NUL in it, and
the length of the reply is an `int`. -/
theorem getCommand_iff (h : s.get key = some value) :
    (∃ bytes, getCommand s [.string name, .string key] = some (.send bytes) ∧
      Resp.bulkString.parse bytes = some (value, [])) ↔
        0 ∉ value ∧ (Resp.bulkString.pack value).length < 2^31 := by
  have hget : getCommand s [.string name, .string key] =
      (strdupPrintf (printedValue value)).map fun str => sendReply (cString str) := by
    unfold getCommand
    dsimp only
    rw [h]
  rw [hget]
  unfold strdupPrintf
  by_cases hlen : (printedValue value).length < 2^31
  · have hsend : sendReply (cString (printedValue value)) = .send (printedValue value) := by
      unfold sendReply
      rw [cString_eq (zero_notMem_printedValue value), Nat.mod_eq_of_lt (by omega), List.take_length]
    rw [if_pos hlen, Option.map_some, hsend]
    constructor
    · rintro ⟨bytes, heq, hparse⟩
      cases heq
      have hzero := zero_notMem_of_parse hparse
      refine ⟨hzero, ?_⟩
      rwa [← printedValue_eq hzero]
    · rintro ⟨hzero, -⟩
      refine ⟨_, rfl, ?_⟩
      rw [printedValue_eq hzero]
      exact Resp.bulkString_selfDelimiting.parse_pack value
  · rw [if_neg hlen]
    constructor
    · rintro ⟨bytes, heq, -⟩
      cases heq
    · rintro ⟨hzero, hlt⟩
      rw [← printedValue_eq hzero] at hlt
      exact absurd hlt hlen

end RedisSession

namespace Server

section Runs

variable {F : Formats} {signed : Bool} {store : RedisStore} {nodeId callback : ℕ}
  {setName getName key value : Bytes} {e : Entry} {t : Turn Server ServerEvent}
  {ts : List (Turn Server ServerEvent)} {s : Server}

/-- After a SET command was applied, and before another command touches its key, the reply to GET is the value
as a bulk string if and only if there is no NUL in it, and the length of the reply is an `int`. -/
theorem get_after_set_iff (hlaw : F.commit.Lawful) (hset : IsSet setName) (hget : IsGet getName)
    (hdata : ∃ k v, RedisSession.onRedisReply signed store
        (.array [.string setName, .string key, .string value]) = some (.set k v) ∧
      e.data = (store.set F nodeId k v callback).2.1)
    (hstep : t.before.handle F t.event = .ok t.after) (happlied : applied t = some e)
    (hrun : Run F t.after ts s) (hleaves : ∀ u ∈ ts, ∀ x ∈ taskTaken u, x.Leaves F key value) :
    (∃ bytes, RedisSession.onRedisReply signed s.store (.array [.string getName, .string key]) =
        some (.send bytes) ∧ Resp.bulkString.parse bytes = some (value, [])) ↔
      0 ∉ value ∧ (Resp.bulkString.pack value).length < 2^31 := by
  rw [RedisSession.onRedisReply_get hget]
  refine RedisSession.getCommand_iff ?_
  refine lookup_of_leaves hrun hleaves ?_
  -- The command of the entry is the one that the client asked for.
  obtain ⟨k, v, hasked, hdata⟩ := hdata
  rw [RedisSession.onRedisReply_set hset] at hasked
  cases hasked
  have hcommand : commandIn F e.data = some { type := kCommitSet, strs := [key, value] } := by
    rw [hdata]
    unfold commandIn
    show (F.commit.unpack (F.commit.pack _)).map _ = _
    rw [hlaw]
    rfl
  obtain ⟨x, hx, hentry⟩ := Option.bind_eq_some_iff.mp happlied
  cases x with
  | readCommit e' =>
    cases hentry
    show contentsOf t.after.store.keyValues key = some value
    rw [contentsOf_handle hstep, hx]
    show applyCommandIn F e.data (contentsOf t.before.store.keyValues) key = some value
    unfold applyCommandIn
    rw [hcommand]
    show Function.update (contentsOf t.before.store.keyValues) key (some value) key = some value
    rw [Function.update_self]
  | _ => cases hentry

/-- The leader commits the command of a client, and the store comes to it. -/
def setsOnce (value : Bytes) : List ServerEvent :=
  let command : RaftCommit :=
    { nodeId := 1, commitId := 0, redisData := { type := kCommitSet, strs := [[107], value] } }
  let append : Message := { type := .msgApp, toId := 1, fromId := 2, term := 1, index := 3, logTerm := 1 }
  [.pull, .process { append with commit := 3 }, .pull, .set [107] value 7, .propose, .pull, .task,
    .process { append with
      entries := [{ term := 1, index := 4, data := msgpackFormats.commit.pack command }]
      commit := 4 }, .pull, .task]

/-- The entry of that command. -/
def setsOnceEntry (value : Bytes) : Entry :=
  { term := 1, index := 4, data := (({} : RedisStore).set msgpackFormats 1 [107] value 7).2.1 }

/-- It is that of the client. -/
theorem setsOnceEntry_data (signed : Bool) (value : Bytes) :
    ∃ k v, RedisSession.onRedisReply signed {}
        (.array [.string (text "set"), .string [107], .string value]) = some (.set k v) ∧
      (setsOnceEntry value).data = (({} : RedisStore).set msgpackFormats 1 k v 7).2.1 :=
  ⟨_, _, RedisSession.onRedisReply_set (Or.inl rfl), rfl⟩

/-- A value that is read back. -/
theorem get_after_set_iff_setsOnce : Outcome.Returns firstServer fun s₀ =>
    ∃ t ∈ (Trace.run (Server.handle msgpackFormats) s₀ (setsOnce [118])).1, ∃ bytes,
      RedisSession.onRedisReply true t.after.store (.array [.string (text "get"), .string [107]]) =
        some (.send bytes) ∧ Resp.bulkString.parse bytes = some ([118], []) := by
  have hmeets : Outcome.Returns firstServer fun s₀ =>
      ∃ t ∈ (Trace.run (Server.handle msgpackFormats) s₀ (setsOnce [118])).1,
        applied t = some (setsOnceEntry [118]) := by
    decide +kernel
  obtain ⟨s₀, hs₀, t, ht, happlied⟩ := hmeets
  have hstep := (Trace.of_run (Server.handle msgpackFormats) s₀ (setsOnce [118])).step_mem ht
  have hiff := get_after_set_iff (codec_lawful raftCommitFormat_selfDelimiting) (Or.inl rfl) (Or.inl rfl)
    (setsOnceEntry_data true [118]) hstep happlied (Trace.nil t.after)
    fun _ hu => absurd hu List.not_mem_nil
  exact ⟨s₀, hs₀, t, ht, hiff.mpr (by decide)⟩

/-- A value with a NUL is not. -/
theorem nul_cuts_value : ¬∀ (F : Formats) (signed : Bool) (store : RedisStore) (nodeId callback : ℕ)
    (setName getName key value : Bytes) (e : Entry) (t : Turn Server ServerEvent)
    (ts : List (Turn Server ServerEvent)) (s : Server), F.commit.Lawful → IsSet setName → IsGet getName →
      (∃ k v, RedisSession.onRedisReply signed store
          (.array [.string setName, .string key, .string value]) = some (.set k v) ∧
        e.data = (store.set F nodeId k v callback).2.1) →
      t.before.handle F t.event = .ok t.after → applied t = some e → Run F t.after ts s →
        (∀ u ∈ ts, ∀ x ∈ taskTaken u, x.Leaves F key value) →
          ∃ bytes, RedisSession.onRedisReply signed s.store (.array [.string getName, .string key]) =
            some (.send bytes) ∧ Resp.bulkString.parse bytes = some (value, []) := by
  intro hall
  have hmeets : Outcome.Returns firstServer fun s₀ =>
      ∃ t ∈ (Trace.run (Server.handle msgpackFormats) s₀ (setsOnce [118, 0])).1,
        applied t = some (setsOnceEntry [118, 0]) ∧
          RedisSession.onRedisReply true t.after.store (.array [.string (text "get"), .string [107]]) =
            some (.send [36, 50, 13, 10, 118, 13, 10]) := by
    decide +kernel
  obtain ⟨s₀, -, t, ht, happlied, hreply⟩ := hmeets
  have hstep := (Trace.of_run (Server.handle msgpackFormats) s₀ (setsOnce [118, 0])).step_mem ht
  obtain ⟨bytes, hbytes, hparse⟩ := hall _ _ _ _ _ _ _ _ _ _ _ _ _
    (codec_lawful raftCommitFormat_selfDelimiting) (Or.inl rfl) (Or.inl rfl)
    (setsOnceEntry_data true [118, 0]) hstep happlied (Trace.nil t.after)
    fun _ hu => absurd hu List.not_mem_nil
  rw [hreply] at hbytes
  cases hbytes
  have hnone : Resp.bulkString.parse [36, 50, 13, 10, 118, 13, 10] = none := by decide
  rw [hnone] at hparse
  cases hparse

end Runs

end Server

end RaftCpp
