import RaftCpp.Library.ExactReader
import RaftCpp.Transport.Peer

/-!
# Receiving from a peer

`ServerSession` of `raft-kv/transport/raft_server.cpp`: how the stream of a peer is cut into headers and
data. The session asks the socket for the five bytes of a header, then for as many bytes as the header
says, and ends for good at the first thing that it cannot use.
-/

namespace RaftCpp

/-- What a session waits for. -/
inductive SessionPhase
  /-- `start_read_meta`. -/
  | readMeta
  /-- `start_read_message`, with the type and the length of the header. -/
  | readMessage (type : UInt8) (len : ℕ)
  /-- A handler returned without another read. -/
  | ended
deriving DecidableEq, Repr

/-- A session. -/
structure ServerSession (μ : Type) where
  /-- What it waits for. -/
  phase : SessionPhase := .readMeta
  /-- The messages that were decoded, in order. -/
  decoded : List TransportFrame := []
  /-- The messages that were given to `on_message`, in order. -/
  received : List μ := []

namespace ServerSession

variable {μ : Type}

/-- The header that five bytes stand for: the type, and the length by `ntohl`. -/
def parseMeta (bytes : Bytes) : UInt8 × ℕ := (bytes.headD 0, LittleEndian.decode bytes.tail.reverse)

/-- The fields of a `DebugMessage` in memory. -/
def parseDebug (bytes : Bytes) : ℕ × ℕ :=
  (LittleEndian.decode (bytes.take 4), LittleEndian.decode (bytes.drop 4))

/-- `decode_message`, with what msgpack makes of bytes. -/
def decodeMessage (unpack : Bytes → Option μ) (s : ServerSession μ) (f : TransportFrame) :
    Result (ServerSession μ) :=
  if f.type = transportTypeDebug then
    if f.payload.length ≠ 8 then .error .assertion
    else if ((parseDebug f.payload).1 + 1) % 2^32 ≠ (parseDebug f.payload).2 then .error .assertion
    else .ok { s with phase := .readMeta, decoded := s.decoded ++ [f] }
  else if f.type = transportTypeStream then
    match unpack f.payload with
    | none => .ok { s with phase := .ended }
    | some m =>
      .ok { phase := .readMeta, decoded := s.decoded ++ [f], received := s.received ++ [m] }
  else .ok { s with phase := .ended }

/-- The number of bytes that a session asks for. A read of no bytes is complete at once, and its handler
ends the session. -/
def need (s : ServerSession μ) : Option ℕ :=
  match s.phase with
  | .readMeta => some transportMetaSize
  | .readMessage _ 0 => none
  | .readMessage _ (len + 1) => some (len + 1)
  | .ended => none

/-- The handlers of the two reads. -/
def onRead (unpack : Bytes → Option μ) (s : ServerSession μ) (bytes : Bytes) : Result (ServerSession μ) :=
  match s.phase with
  | .readMeta => .ok { s with phase := .readMessage (parseMeta bytes).1 (parseMeta bytes).2 }
  | .readMessage type _ => s.decodeMessage unpack { type := type, payload := bytes }
  | .ended => .ok s

/-- The session as a reader of the socket's stream: `async_read` hands over exactly the bytes that were asked
for. -/
def reader (unpack : Bytes → Option μ) : ExactReader (ServerSession μ) Fatal UInt8 where
  need := need
  need_pos := by
    intro s n hn
    unfold need at hn
    split at hn
    · cases hn
      decide
    · cases hn
    · cases hn
      exact Nat.succ_pos _
    · cases hn
  take := onRead unpack

/-- A header is read back. -/
theorem parseMeta_transportMeta (type : UInt8) {len : ℕ} (hlen : len < 2^32) :
    parseMeta (transportMeta type len) = (type, len) := by
  unfold parseMeta transportMeta
  rw [List.headD_cons, List.tail_cons, List.reverse_reverse, LittleEndian.decode_encode hlen]

/-- A message that a session can use: data that msgpack reads, or a debug message. -/
def Serves (unpack : Bytes → Option μ) (f : TransportFrame) : Prop :=
  f.payload ≠ [] ∧ f.payload.length < 2^32 ∧
    (f.type = transportTypeStream ∧ (unpack f.payload).isSome ∨
      f.type = transportTypeDebug ∧ f.payload.length = 8 ∧
        ((parseDebug f.payload).1 + 1) % 2^32 = (parseDebug f.payload).2)

instance (unpack : Bytes → Option μ) (f : TransportFrame) : Decidable (Serves unpack f) :=
  inferInstanceAs (Decidable (_ ∧ _ ∧ _))

variable {unpack : Bytes → Option μ} {f : TransportFrame} {fs : List TransportFrame} {s : ServerSession μ}

/-- A session after the header of a message. -/
def afterMeta (f : TransportFrame) (s : ServerSession μ) : ServerSession μ :=
  { s with phase := .readMessage f.type f.payload.length }

/-- It waits for the data. -/
theorem need_afterMeta (hf : Serves unpack f) :
    (reader unpack).need (s.afterMeta f) = some f.payload.length := by
  obtain ⟨k, hk⟩ := Nat.exists_eq_succ_of_ne_zero (Nat.ne_of_gt (List.length_pos_iff.mpr hf.1))
  show need { s with phase := .readMessage f.type f.payload.length } = _
  rw [hk]
  rfl

/-- The bytes of a header. -/
theorem feed_meta (hf : Serves unpack f) (hs : s.phase = .readMeta) (rest : Bytes) :
    (reader unpack).feed { state := s } (transportMeta f.type f.payload.length ++ rest) =
      (reader unpack).feed { state := s.afterMeta f } rest := by
  have hneed : (reader unpack).need s = some transportMetaSize := by
    show need s = _
    unfold need
    rw [hs]
  have htake : (reader unpack).take s (transportMeta f.type f.payload.length) = .ok (s.afterMeta f) := by
    show onRead unpack s _ = _
    unfold onRead
    rw [hs, parseMeta_transportMeta f.type hf.2.1]
    rfl
  have hlen : 0 + (transportMeta f.type f.payload.length).length = transportMetaSize := by
    rw [length_transportMeta, Nat.zero_add]
  rw [ExactReader.feed_of_eq (ExactReader.waits_start s) hneed hlen, List.nil_append, htake]
  rfl

/-- The bytes of the data, which are decoded. -/
theorem feed_payload (hf : Serves unpack f) (rest : Bytes) :
    ∃ s' : ServerSession μ, s'.phase = .readMeta ∧ s'.decoded = s.decoded ++ [f] ∧
      (reader unpack).feed { state := s.afterMeta f } (f.payload ++ rest) =
        (reader unpack).feed { state := s' } rest := by
  have hdecode : ∃ s' : ServerSession μ, s'.phase = .readMeta ∧ s'.decoded = s.decoded ++ [f] ∧
      (s.afterMeta f).decodeMessage unpack f = .ok s' := by
    obtain ⟨-, -, ⟨htype, hsome⟩ | ⟨htype, hlen, hnext⟩⟩ := hf
    · obtain ⟨m, hm⟩ := Option.isSome_iff_exists.mp hsome
      refine ⟨{ phase := .readMeta, decoded := s.decoded ++ [f], received := s.received ++ [m] }, rfl, rfl, ?_⟩
      unfold decodeMessage
      rw [if_neg (by rw [htype]; decide), if_pos htype, hm]
      rfl
    · refine ⟨{ s with phase := .readMeta, decoded := s.decoded ++ [f] }, rfl, rfl, ?_⟩
      unfold decodeMessage
      rw [if_pos htype, if_neg (not_not.mpr hlen), if_neg (not_not.mpr hnext)]
      rfl
  obtain ⟨s', hphase, hdecoded, hok⟩ := hdecode
  have htake : (reader unpack).take (s.afterMeta f) f.payload = .ok s' := hok
  refine ⟨s', hphase, hdecoded, ?_⟩
  have hneed : (reader unpack).need (s.afterMeta f) = some f.payload.length := need_afterMeta hf
  rw [ExactReader.feed_of_eq (ExactReader.waits_start (s.afterMeta f)) hneed (Nat.zero_add _),
    List.nil_append, htake]
  rfl

/-- The bytes of a message take the session from one header to the next. -/
theorem feed_encode (hf : Serves unpack f) (hs : s.phase = .readMeta) (rest : Bytes) :
    ∃ s' : ServerSession μ, s'.phase = .readMeta ∧ s'.decoded = s.decoded ++ [f] ∧
      (reader unpack).feed { state := s } (f.encode ++ rest) =
        (reader unpack).feed { state := s' } rest := by
  obtain ⟨s', hphase, hdecoded, hdata⟩ := feed_payload (s := s) hf rest
  refine ⟨s', hphase, hdecoded, ?_⟩
  rw [TransportFrame.encode, List.append_assoc, feed_meta hf hs, hdata]

/-- The bytes of several messages. -/
theorem feed_wire (hfs : ∀ f ∈ fs, Serves unpack f) (hs : s.phase = .readMeta) (rest : Bytes) :
    ∃ s' : ServerSession μ, s'.phase = .readMeta ∧ s'.decoded = s.decoded ++ fs ∧
      (reader unpack).feed { state := s } (wire fs ++ rest) =
        (reader unpack).feed { state := s' } rest := by
  induction fs generalizing s with
  | nil => exact ⟨s, hs, (List.append_nil _).symm, rfl⟩
  | cons f fs ih =>
    obtain ⟨s₁, hphase₁, hdecoded₁, hone⟩ := feed_encode (hfs f List.mem_cons_self) hs (wire fs ++ rest)
    obtain ⟨s', hphase, hdecoded, hrest⟩ := ih (fun f hf => hfs f (List.mem_cons_of_mem _ hf)) hphase₁
    refine ⟨s', hphase, ?_, ?_⟩
    · rw [hdecoded, hdecoded₁, List.append_assoc]
      rfl
    · rw [wire, List.flatMap_cons, List.append_assoc]
      exact hone.trans hrest

/-- Bytes that do not complete a message leave the session with the messages before it. -/
theorem feed_partial (hf : Serves unpack f) (hs : s.phase = .readMeta) {bytes : Bytes}
    (hbytes : bytes <+: f.encode) (hlt : bytes.length < f.encode.length) :
    ∃ s', (reader unpack).feed { state := s } bytes = .ok s' ∧ s'.state.decoded = s.decoded := by
  rw [TransportFrame.length_encode] at hlt
  by_cases hshort : bytes.length < transportMetaSize
  · -- Not even the header is complete.
    have hneed : (reader unpack).need s = some transportMetaSize := by
      show need s = _
      unfold need
      rw [hs]
    refine ⟨_, ExactReader.feed_of_lt hneed ?_, rfl⟩
    rw [List.length_nil, Nat.zero_add]
    exact hshort
  · have hpre := List.prefix_of_prefix_length_le (List.prefix_append _ f.payload) hbytes
      (by rw [length_transportMeta]; exact Nat.le_of_not_lt hshort)
    obtain ⟨data, rfl⟩ := hpre
    rw [List.length_append, length_transportMeta] at hlt
    rw [feed_meta hf hs]
    refine ⟨_, ExactReader.feed_of_lt (need_afterMeta hf) ?_, rfl⟩
    rw [List.length_nil, Nat.zero_add]
    omega

end ServerSession

end RaftCpp
