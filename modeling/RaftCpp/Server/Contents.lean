import Mathlib.Logic.Function.Basic
import RaftCpp.Library.Outcome
import RaftCpp.Server.RedisStore

/-!
# What the keys of a store mean

A store holds a map from keys to values, whatever order its pairs have. The commands of the committed
entries make such a map from the empty one, and the store's own operations do to its pairs what the
commands do to the map.
-/

namespace RaftCpp

open Outcome

/-- A map from keys to values. -/
abbrev Contents := Bytes → Option Bytes

/-- The map of the pairs. -/
def contentsOf (kv : KeyValues) : Contents := fun key => kv.lookup key

section

/-- Whether keys are equal can be told from their bytes. -/
local instance : LawfulBEq Bytes := inferInstance

/-- What a command does to the map. One that the store does not support does nothing. -/
def RedisCommitData.applyTo (d : RedisCommitData) (m : Contents) : Contents :=
  if d.type = kCommitSet then
    match d.strs with
    | [key, value] => Function.update m key (some value)
    | _ => m
  else if d.type = kCommitDel then fun key => if key ∈ d.strs then none else m key
  else m

end

/-- The command in the data of an entry, if it can be read. -/
def commandIn (F : Formats) (data : Bytes) : Option RedisCommitData :=
  (F.commit.unpack data).map RaftCommit.redisData

/-- What the command in the data of an entry does to the map, if there is one. -/
def applyCommandIn (F : Formats) (data : Bytes) (m : Contents) : Contents :=
  match commandIn F data with
  | some d => d.applyTo m
  | none => m

/-- What an entry does to the map. Only normal entries have commands, and those without data have none. -/
def Entry.applyTo (F : Formats) (e : Entry) (m : Contents) : Contents :=
  if e.type = .entryNormal ∧ e.data ≠ [] then applyCommandIn F e.data m else m

/-- What the entries up to an index make of the empty map. -/
def contents (F : Formats) (committed : ℕ → Entry) : ℕ → Contents
  | 0 => fun _ => none
  | i + 1 => (committed (i + 1)).applyTo F (contents F committed i)

namespace RedisStore

/-- Keys that are erased are not there. -/
theorem contentsOf_erases (keys : List Bytes) (kv : KeyValues) :
    contentsOf (keys.foldl (fun kv key => kv.erase key) kv) =
      fun key => if key ∈ keys then none else contentsOf kv key := by
  induction keys generalizing kv with
  | nil => rfl
  | cons key keys ih =>
    rw [List.foldl_cons, ih]
    funext key'
    by_cases hmem : key' ∈ keys
    · rw [if_pos hmem, if_pos (List.mem_cons_of_mem _ hmem)]
    rw [if_neg hmem]
    by_cases heq : key' = key
    · subst heq
      rw [if_pos List.mem_cons_self]
      exact AList.lookup_erase _ _
    · have hout : key' ∉ key :: keys := fun h => (List.mem_cons.mp h).elim heq hmem
      rw [if_neg hout]
      exact AList.lookup_erase_ne heq

/-- A key that is set has the value. -/
theorem contentsOf_insert (key value : Bytes) (kv : KeyValues) :
    contentsOf (kv.insert key value) = Function.update (contentsOf kv) key (some value) := by
  funext key'
  by_cases heq : key' = key
  · subst heq
    rw [Function.update_self]
    exact AList.lookup_insert _
  · rw [Function.update_of_ne heq]
    exact AList.lookup_insert_ne heq

/-- The effect of a command on the keys is its effect on the map. -/
theorem applyData_spec (kv : KeyValues) (d : RedisCommitData) :
    Ensures (applyData kv d) fun kv' => contentsOf kv' = d.applyTo (contentsOf kv) := by
  unfold applyData RedisCommitData.applyTo
  by_cases hset : d.type = kCommitSet
  · rw [if_pos hset, if_pos hset]
    rcases d.strs with _ | ⟨key, _ | ⟨value, _ | _⟩⟩
    · exact Ensures.error
    · exact Ensures.error
    · exact Ensures.ok (contentsOf_insert key value kv)
    · exact Ensures.error
  rw [if_neg hset, if_neg hset]
  by_cases hdel : d.type = kCommitDel
  · rw [if_pos hdel, if_pos hdel]
    exact Ensures.ok (contentsOf_erases _ _)
  · rw [if_neg hdel, if_neg hdel]
    exact Ensures.ok rfl

/-- To answer a request changes no key. -/
@[simp] theorem keyValues_answer (s : RedisStore) (commitId : UInt32) (status : Status) :
    (s.answer commitId status).2.keyValues = s.keyValues := by
  unfold answer
  cases s.pendingRequests.lookup commitId <;> rfl

/-- The task of a committed entry applies its command. -/
theorem readCommit_spec (F : Formats) (s : RedisStore) (nodeId : ℕ) (e : Entry) :
    Ensures (s.readCommit F nodeId e) fun p =>
      contentsOf p.2.keyValues = applyCommandIn F e.data (contentsOf s.keyValues) := by
  unfold readCommit applyCommandIn commandIn
  cases F.commit.unpack e.data with
  | none => exact Ensures.ok rfl
  | some commit =>
    refine Ensures.bind (applyData_spec s.keyValues commit.redisData) fun kv hkv => ?_
    refine Ensures.ite (fun _ => Ensures.pure ?_) fun _ => Ensures.pure hkv
    rw [keyValues_answer]
    exact hkv

end RedisStore

end RaftCpp
