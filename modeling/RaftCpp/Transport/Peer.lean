import RaftCpp.Library.LittleEndian
import RaftCpp.Library.Trace
import RaftCpp.Raft.Proto

/-!
# Sending to a peer

`ByteBuffer` of `raft-kv/common/bytebuffer.cpp` and `ClientSession` of `raft-kv/transport/peer.cpp`: how
the messages to a peer are put into a buffer and written to the socket. A write reads the buffer through a
pointer while further messages are put behind it. No flag says that a write is outstanding: the session
takes it from the buffer not being empty.
-/

namespace RaftCpp

/-- The difference of two 32-bit words, which wraps below zero. -/
def sub32 (a b : ℕ) : ℕ := if b ≤ a then a - b else a + 2^32 - b

/-! ## Frames -/

/-- A message as the peers send it. -/
structure TransportFrame where
  /-- The transport type. -/
  type : UInt8
  /-- The data. -/
  payload : Bytes
deriving DecidableEq, Repr

/-- `TransportTypeStream`. -/
def transportTypeStream : UInt8 := 1

/-- `TransportTypeDebug`. -/
def transportTypeDebug : UInt8 := 5

/-- The size of a `TransportMeta`, which is packed. -/
def transportMetaSize : ℕ := 5

/-- A `TransportMeta` in memory: the type, and the length in network order. -/
def transportMeta (type : UInt8) (len : ℕ) : Bytes := type :: (LittleEndian.encode 4 len).reverse

/-- The size of it. -/
@[simp] theorem length_transportMeta (type : UInt8) (len : ℕ) :
    (transportMeta type len).length = transportMetaSize := by
  rw [transportMeta, List.length_cons, List.length_reverse, LittleEndian.length_encode]
  rfl

/-- A message on the wire: the header, then the data. -/
def TransportFrame.encode (f : TransportFrame) : Bytes := transportMeta f.type f.payload.length ++ f.payload

/-- The size of it. -/
@[simp] theorem TransportFrame.length_encode (f : TransportFrame) :
    f.encode.length = transportMetaSize + f.payload.length := by
  rw [TransportFrame.encode, List.length_append, length_transportMeta]

/-- Messages on the wire, one after the other. -/
def wire (fs : List TransportFrame) : Bytes := fs.flatMap TransportFrame.encode

/-! ## The buffer -/

/-- `MIN_BUFFERING`. -/
def minBuffering : ℕ := 4096

/-- The buffer of a session. -/
structure ByteBuffer where
  /-- The position of the next byte to read. -/
  reader : ℕ := 0
  /-- The position of the next byte to write. -/
  writer : ℕ := 0
  /-- The vector. -/
  buff : Bytes := List.replicate minBuffering 0
  /-- Where its elements are: the number of times that they were moved. -/
  block : ℕ := 0

namespace ByteBuffer

variable (b : ByteBuffer)

/-- `readable_bytes`. -/
def readableBytes : Result ℕ := if ¬ b.writer ≥ b.reader then .error .assertion else .ok (b.writer - b.reader)

/-- `readable`. -/
def readable : Bool := b.writer > b.reader

/-- The room behind the last byte, as `put` computes it. -/
def left : ℕ := sub32 (b.buff.length % 2^32) b.writer

/-- `resize`, past the end of the vector and its capacity: the elements move to another place. -/
def grow (len : ℕ) : ByteBuffer :=
  { b with
    buff := b.buff ++ List.replicate (b.buff.length * 2 + len - b.buff.length) 0
    block := b.block + 1 }

/-- The copying of `put`. -/
def copy (data : Bytes) : Result ByteBuffer :=
  if b.buff.length < b.writer + data.length then .error .outOfRange
  else .ok { b with
    buff := b.buff.take b.writer ++ data ++ b.buff.drop (b.writer + data.length)
    writer := (b.writer + data.length) % 2^32 }

/-- `put`. -/
def put (data : Bytes) : Result ByteBuffer :=
  if b.left < data.length then (b.grow data.length).copy data else b.copy data

/-- `may_shrink_to_fit`. -/
def mayShrinkToFit : ByteBuffer := if b.reader = b.writer then { b with reader := 0, writer := 0 } else b

/-- `read_bytes`. -/
def readBytes (bytes : ℕ) : Result ByteBuffer := do
  let readable ← b.readableBytes
  if ¬ readable ≥ bytes then .error .assertion
  else return { b with reader := (b.reader + bytes) % 2^32 }.mayShrinkToFit

end ByteBuffer

/-! ## The session -/

/-- A write that was started: it reads the buffer from a position of a block on. -/
structure Write where
  /-- The block. -/
  block : ℕ
  /-- The position of the first byte. -/
  start : ℕ
  /-- The number of bytes. -/
  length : ℕ
  /-- The number of bytes that the socket has taken. -/
  done : ℕ := 0
deriving DecidableEq, Repr

/-- A session, and its socket. -/
structure ClientSession where
  /-- The buffer. -/
  buffer : ByteBuffer := {}
  /-- Whether the socket is connected. -/
  connected : Bool := false
  /-- The writes that are outstanding. -/
  writes : List Write := []
  /-- The bytes that the socket has taken. -/
  written : Bytes := []
  /-- The messages that were sent, in order. Nothing reads them. -/
  sent : List TransportFrame := []

/-- What happens to a session. -/
inductive SessionEvent
  /-- A message is sent. -/
  | send (f : TransportFrame)
  /-- The connection is there. -/
  | connected
  /-- The socket takes bytes of an outstanding write. -/
  | transfer (i n : ℕ)
  /-- An outstanding write is complete. -/
  | completed (i : ℕ)
deriving DecidableEq

namespace ClientSession

variable (s : ClientSession)

/-- `start_write`. -/
def startWrite : Result ClientSession := do
  if ¬ s.buffer.readable then return s
  else
    let remaining ← s.buffer.readableBytes
    return { s with
      writes := s.writes ++ [{ block := s.buffer.block, start := s.buffer.reader, length := remaining }] }

/-- `send`. -/
def send (f : TransportFrame) : Result ClientSession := do
  let remaining ← s.buffer.readableBytes
  let buffer ← s.buffer.put (transportMeta f.type f.payload.length)
  let buffer ← buffer.put f.payload
  let readable ← buffer.readableBytes
  if ¬ remaining + transportMetaSize + f.payload.length = readable then .error .assertion
  else
    let s := { s with buffer := buffer, sent := s.sent ++ [f] }
    if s.connected ∧ remaining = 0 then s.startWrite else return s

/-- The handler of `start_connect`. -/
def onConnect : Result ClientSession := do
  let s := { s with connected := true }
  if s.buffer.readable then s.startWrite else return s

/-- The handler of `start_write`. -/
def onWrite (bytes : ℕ) : Result ClientSession := do
  let buffer ← s.buffer.readBytes bytes
  { s with buffer := buffer }.startWrite

/-- The socket takes bytes of a write. It reads them through the pointer of the write, which dangles once
the elements of the buffer have moved. -/
def takeBytes (i : ℕ) (w : Write) (n : ℕ) : Result ClientSession :=
  if w.block ≠ s.buffer.block then .error .danglingPointer
  else .ok { s with
    written := s.written ++ (s.buffer.buff.drop (w.start + w.done)).take n
    writes := s.writes.set i { w with done := w.done + n } }

/-- What happens on an event. A session connects once, the socket takes at least one byte and none beyond
the write, and a write is complete when all of its bytes are taken: otherwise nothing happens. -/
def handle : SessionEvent → Result ClientSession
  | .send f => s.send f
  | .connected => if s.connected then .ok s else s.onConnect
  | .transfer i n =>
    match s.writes[i]? with
    | none => .ok s
    | some w => if n = 0 ∨ w.length < w.done + n then .ok s else s.takeBytes i w n
  | .completed i =>
    match s.writes[i]? with
    | none => .ok s
    | some w =>
      if w.done = w.length then { s with writes := s.writes.eraseIdx i }.onWrite w.length else .ok s

/-- The runs of a session. -/
abbrev Run : ClientSession → List (Turn ClientSession SessionEvent) → ClientSession → Prop := Trace handle

end ClientSession

end RaftCpp
