import Mathlib.Data.Finset.Card
import Mathlib.Data.List.AList
import RaftCpp.Raft.Proto

/-!
# Pending reads

`ReadOnly` of `raft-kv/raft/readonly.h` and `raft-kv/raft/readonly.cpp`: the read requests that wait
for a quorum to confirm the leader. A read request carries its context as the data of its first
entry, and an acknowledgement carries the context of the request in its own field.
-/

namespace RaftCpp

/-- `ReadOnlyOption`. -/
inductive ReadOnlyOption
  | safe
  | leaseBased
deriving DecidableEq, Repr

/-- The answer to a read request. -/
structure ReadState where
  /-- The commit index that the reader has to wait for. -/
  index : ℕ
  /-- The context of the request. -/
  requestCtx : Bytes
deriving DecidableEq, Repr

/-- A read request that waits for its acknowledgements. -/
structure ReadIndexStatus where
  /-- The request. -/
  req : Message
  /-- The commit index when the request arrived. -/
  index : ℕ
  /-- The nodes that acknowledged it. -/
  acks : Finset ℕ := ∅

/-- The pending reads, by context, and the contexts in the order of their arrival. -/
structure ReadOnly where
  /-- How reads are confirmed. -/
  option : ReadOnlyOption
  /-- The requests by their contexts. -/
  pendingReadIndex : AList (fun _ : Bytes => ReadIndexStatus) := ∅
  /-- The contexts in the order of their arrival. -/
  readIndexQueue : List Bytes := []

/-- The context of a read request: the data of its first entry. -/
def Message.readCtx (m : Message) : Result Bytes := do
  let e ← elemAt m.entries 0
  return e.data

namespace ReadOnly

/-- `last_pending_request_ctx`: the context of the last request, or none. -/
def lastPendingRequestCtx (ro : ReadOnly) : Bytes := ro.readIndexQueue.getLast?.getD []

/-- `recv_ack`: the number of acknowledgements of the request, the leader's own included. -/
def recvAck (ro : ReadOnly) (m : Message) : ℕ × ReadOnly :=
  match ro.pendingReadIndex.lookup m.context with
  | none => (0, ro)
  | some st =>
    let st := { st with acks := insert m.fromId st.acks }
    (st.acks.card + 1,
      { ro with pendingReadIndex := ro.pendingReadIndex.insert m.context st })

/-- The loop of `advance` over the queue: whether the context was found, and the requests passed. -/
def advanceLoop (ro : ReadOnly) (ctx : Bytes) : List Bytes → Result (Bool × List ReadIndexStatus)
  | [] => .ok (false, [])
  | okctx :: rest =>
    match ro.pendingReadIndex.lookup okctx with
    | none => .error .pendingReadMissing
    | some st =>
      if okctx = ctx then .ok (true, [st])
      else do
        let (found, rss) ← ro.advanceLoop ctx rest
        return (found, st :: rss)

/-- `advance`: the requests up to the one of the context, which leave the queue. When the context is
not in the queue all the requests are returned, and stay. -/
def advance (ro : ReadOnly) (m : Message) : Result (List ReadIndexStatus × ReadOnly) := do
  let (found, rss) ← ro.advanceLoop m.context ro.readIndexQueue
  if found then
    let pending ← rss.foldlM (fun pending rs => do
      let ctx ← rs.req.readCtx
      return pending.erase ctx) ro.pendingReadIndex
    return (rss, { ro with
      readIndexQueue := ro.readIndexQueue.drop rss.length, pendingReadIndex := pending })
  else return (rss, ro)

/-- `add_request`. -/
def addRequest (ro : ReadOnly) (index : ℕ) (m : Message) : Result ReadOnly := do
  let ctx ← m.readCtx
  match ro.pendingReadIndex.lookup ctx with
  | some _ => return ro
  | none =>
    return { ro with
      pendingReadIndex := ro.pendingReadIndex.insert ctx { req := m, index := index }
      readIndexQueue := ro.readIndexQueue ++ [ctx] }

/-- The clearing of the pending reads in `Raft::reset`. -/
def clear (ro : ReadOnly) : ReadOnly := { option := ro.option }

end ReadOnly

end RaftCpp
