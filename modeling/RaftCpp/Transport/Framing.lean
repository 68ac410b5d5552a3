import Mathlib.Algebra.GroupWithZero.Nat
import RaftCpp.Library.Outcome
import RaftCpp.Transport.RaftServer

/-!
# The messages between two peers

What a session writes to its socket is the messages that were sent, in order, and the session at the other
end decodes them. This holds as long as a message that makes the buffer grow is not sent while the socket
still reads the buffer: growing moves the bytes away from under the write.
-/

namespace RaftCpp

/-! ## The buffer -/

namespace ByteBuffer

variable {b b' : ByteBuffer} {data : Bytes}

/-- The cursors are in order and inside of the vector. -/
structure InBounds (b : ByteBuffer) : Prop where
  /-- What is read was written. -/
  reader_le : b.reader ≤ b.writer
  /-- What was written is in the vector. -/
  writer_le : b.writer ≤ b.buff.length
  /-- The cursors do not wrap. -/
  writer_lt : b.writer < 2^32

/-- The bytes that were put and are not dropped yet. -/
def content (b : ByteBuffer) : Bytes := b.buff.take b.writer

/-- The number of these bytes. -/
theorem InBounds.length_content (h : b.InBounds) : b.content.length = b.writer := by
  rw [content, List.length_take, Nat.min_eq_left h.writer_le]

/-- The room behind the last byte, except where there is more of it than 32 bits count. -/
theorem InBounds.left_eq (h : b.InBounds) : b.left = (b.buff.length - b.writer) % 2^32 := by
  have hle := h.writer_le
  have hlt := h.writer_lt
  unfold left sub32
  split_ifs <;> omega

/-- What `put` does. -/
structure Puts (b : ByteBuffer) (data : Bytes) (b' : ByteBuffer) : Prop where
  /-- The cursors are still inside of the vector. -/
  inBounds : b'.InBounds
  /-- Nothing is read. -/
  reader : b'.reader = b.reader
  /-- The bytes come behind the others. -/
  writer : b'.writer = b.writer + data.length
  /-- The others stay as they are. -/
  content : b'.content = b.content ++ data
  /-- If there is room, the bytes stay where they are. -/
  stays : data.length ≤ b.left → b'.block = b.block ∧ b'.buff.length = b.buff.length
  /-- Otherwise they move. -/
  moves : b.left < data.length → b.block < b'.block

/-- Copying bytes behind the others. -/
theorem InBounds.copy_ok (h : b.InBounds) (data : Bytes)
    (hroom : b.writer + data.length ≤ b.buff.length) (hlt : b.writer + data.length < 2^32) :
    ∃ b', b.copy data = .ok b' ∧ b'.InBounds ∧ b'.reader = b.reader ∧
      b'.writer = b.writer + data.length ∧ b'.content = b.content ++ data ∧ b'.block = b.block ∧
      b'.buff.length = b.buff.length := by
  have hreader := h.reader_le
  have hbuff : (b.buff.take b.writer ++ data ++ b.buff.drop (b.writer + data.length)).length =
      b.buff.length := by
    rw [List.length_append, List.length_append, List.length_take, List.length_drop]
    omega
  unfold copy
  rw [if_neg (Nat.not_lt.mpr hroom), Nat.mod_eq_of_lt hlt]
  refine ⟨_, rfl, ⟨?_, ?_, hlt⟩, rfl, rfl, ?_, rfl, hbuff⟩
  · exact Nat.le_add_right_of_le hreader
  · show b.writer + data.length ≤ _
    rw [hbuff]
    exact hroom
  · show (b.buff.take b.writer ++ data ++ b.buff.drop (b.writer + data.length)).take
      (b.writer + data.length) = b.buff.take b.writer ++ data
    refine List.take_left' ?_
    rw [List.length_append, List.length_take]
    omega

/-- `put` succeeds. -/
theorem InBounds.put_ok (h : b.InBounds) (data : Bytes) (hlt : b.writer + data.length < 2^32) :
    ∃ b', b.put data = .ok b' ∧ b.Puts data b' := by
  have hle := h.writer_le
  have hleft := h.left_eq
  unfold put
  by_cases hgrow : b.left < data.length
  · rw [if_pos hgrow]
    have hgrown : (b.grow data.length).buff.length = b.buff.length * 2 + data.length := by
      show (b.buff ++ List.replicate (b.buff.length * 2 + data.length - b.buff.length) 0).length = _
      rw [List.length_append, List.length_replicate]
      omega
    have hbounds : (b.grow data.length).InBounds := by
      constructor
      · exact h.reader_le
      · rw [hgrown]
        show b.writer ≤ _
        omega
      · exact h.writer_lt
    have hcontent : (b.grow data.length).content = b.content :=
      List.take_append_of_le_length hle
    obtain ⟨b', hb', hbounds', hreader, hwriter, hcontent', hblock, -⟩ :=
      hbounds.copy_ok data (by rw [hgrown]; show b.writer + _ ≤ _; omega) hlt
    refine ⟨b', hb', hbounds', hreader, hwriter, ?_, ?_, ?_⟩
    · rw [hcontent', hcontent]
    · exact fun hroom => absurd hgrow (Nat.not_lt.mpr hroom)
    · intro _
      rw [hblock]
      exact Nat.lt_succ_self _
  · rw [if_neg hgrow]
    obtain ⟨b', hb', hbounds', hreader, hwriter, hcontent', hblock, hlen⟩ :=
      h.copy_ok data (by omega) hlt
    exact ⟨b', hb', hbounds', hreader, hwriter, hcontent', fun _ => ⟨hblock, hlen⟩,
      fun h' => absurd h' hgrow⟩

/-- The two calls of `send`: the header, and then the data. -/
theorem InBounds.put_frame (h : b.InBounds) (f : TransportFrame) (hlt : b.writer + f.encode.length < 2^32) :
    ∃ b₁ b', b.put (transportMeta f.type f.payload.length) = .ok b₁ ∧ b₁.put f.payload = .ok b' ∧
      b'.InBounds ∧ b'.reader = b.reader ∧ b'.writer = b.writer + f.encode.length ∧
      b'.content = b.content ++ f.encode ∧ (f.encode.length ≤ b.left → b'.block = b.block) ∧
      (b.left < f.encode.length → b.block < b'.block) := by
  have hencode := f.length_encode
  have hmeta := length_transportMeta f.type f.payload.length
  obtain ⟨b₁, hb₁, hputs₁⟩ := h.put_ok (transportMeta f.type f.payload.length) (by omega)
  have hwriter₁ := hputs₁.writer
  obtain ⟨b', hb', hputs'⟩ := hputs₁.inBounds.put_ok f.payload (by omega)
  have hwriter' := hputs'.writer
  refine ⟨b₁, b', hb₁, hb', hputs'.inBounds, hputs'.reader.trans hputs₁.reader, by omega, ?_, ?_, ?_⟩
  · rw [hputs'.content, hputs₁.content, List.append_assoc]
    rfl
  · intro hroom
    obtain ⟨hblock₁, hlen₁⟩ := hputs₁.stays (by omega)
    have hleft := h.left_eq
    have hleft₁ := hputs₁.inBounds.left_eq
    rw [hlen₁, hwriter₁] at hleft₁
    exact (hputs'.stays (by omega)).1.trans hblock₁
  · intro hfull
    by_cases hroom₁ : (transportMeta f.type f.payload.length).length ≤ b.left
    · -- The header fits, and the data does not fit any more.
      obtain ⟨hblock₁, hlen₁⟩ := hputs₁.stays hroom₁
      have hleft := h.left_eq
      have hleft₁ := hputs₁.inBounds.left_eq
      have hle₁ := hputs₁.inBounds.writer_le
      rw [hlen₁, hwriter₁] at hleft₁
      rw [← hblock₁]
      exact hputs'.moves (by omega)
    · have hmoves₁ := hputs₁.moves (Nat.lt_of_not_le hroom₁)
      by_cases hroom' : f.payload.length ≤ b₁.left
      · rw [(hputs'.stays hroom').1]
        exact hmoves₁
      · exact Nat.lt_trans hmoves₁ (hputs'.moves (Nat.lt_of_not_le hroom'))

/-- The bytes from a position on, of which some are read before the others. -/
theorem content_drop {k n : ℕ} (h : k + n ≤ b.writer) :
    b.content.drop k = (b.buff.drop k).take n ++ b.content.drop (k + n) := by
  have hread : (b.content.drop k).take n = (b.buff.drop k).take n := by
    rw [content, List.drop_take, List.take_take, Nat.min_eq_left (by omega)]
  rw [← hread, ← List.drop_drop, List.take_append_drop]

/-- `read_bytes` drops bytes that are there. -/
theorem InBounds.readBytes_ok (h : b.InBounds) {n : ℕ} (hn : b.reader + n ≤ b.writer) :
    ∃ b', b.readBytes n = .ok b' ∧ b'.InBounds ∧
      b'.content.drop b'.reader = b.content.drop (b.reader + n) := by
  have hlt := h.writer_lt
  have hread : b.readableBytes = .ok (b.writer - b.reader) := if_neg (not_not.mpr h.reader_le)
  have hok : b.readBytes n = .ok { b with reader := b.reader + n }.mayShrinkToFit := by
    unfold readBytes
    rw [hread]
    show (if ¬ b.writer - b.reader ≥ n then _ else _) = _
    rw [if_neg (by omega), Nat.mod_eq_of_lt (by omega)]
    rfl
  refine ⟨_, hok, ?_⟩
  unfold mayShrinkToFit
  by_cases hall : b.reader + n = b.writer
  · rw [if_pos hall]
    constructor
    · exact ⟨Nat.le_refl _, Nat.zero_le _, Nat.two_pow_pos 32⟩
    · have hdropped : b.content.drop (b.reader + n) = [] := by
        rw [List.drop_eq_nil_iff, h.length_content]
        exact Nat.le_of_eq hall.symm
      rw [hdropped]
      rfl
  · rw [if_neg hall]
    exact ⟨⟨hn, h.writer_le, hlt⟩, rfl⟩

end ByteBuffer

/-! ## The session -/

/-- What a session at the other end decodes of the bytes that the socket took: the messages that are in them
as a whole. -/
structure Decodes (sent : List TransportFrame) (written : Bytes) (decoded : List TransportFrame) : Prop where
  /-- They were sent, in this order. -/
  order : decoded <+: sent
  /-- Their bytes were taken. -/
  whole : wire decoded <+: written
  /-- The next one is not there yet. -/
  next : ∀ f, decoded ++ [f] <+: sent → ¬wire (decoded ++ [f]) <+: written

/-- A message that is not there as a whole. -/
theorem Decodes.nil {f : TransportFrame} {fs : List TransportFrame} {bytes : Bytes}
    (hlt : bytes.length < f.encode.length) :
    Decodes (f :: fs) bytes [] where
  order := List.nil_prefix
  whole := List.nil_prefix
  next := by
    intro f' hf' hwhole
    obtain rfl : f' = f := (List.cons_prefix_cons.mp hf').1
    have hle := hwhole.length_le
    rw [List.nil_append, wire, List.flatMap_singleton] at hle
    exact absurd hle (Nat.not_le.mpr hlt)

/-- A message that is. -/
theorem Decodes.cons {f : TransportFrame} {fs decoded : List TransportFrame} {bytes : Bytes}
    (h : Decodes fs bytes decoded) :
    Decodes (f :: fs) (f.encode ++ bytes) (f :: decoded) where
  order := List.cons_prefix_cons.mpr ⟨rfl, h.order⟩
  whole := (List.prefix_append_right_inj f.encode).mpr h.whole
  next := by
    intro f' hf' hwhole
    refine h.next f' (List.cons_prefix_cons.mp hf').2 ?_
    exact (List.prefix_append_right_inj f.encode).mp hwhole

/-- Where all bytes were taken, all messages are decoded. -/
theorem Decodes.all {sent decoded : List TransportFrame} (h : Decodes sent (wire sent) decoded) :
    decoded = sent := by
  obtain ⟨rest, hrest⟩ := h.order
  cases rest with
  | nil => rw [← hrest, List.append_nil]
  | cons f rest =>
    have hmore : decoded ++ [f] <+: sent := ⟨rest, by rw [← hrest, List.append_assoc]; rfl⟩
    refine absurd ?_ (h.next f hmore)
    obtain ⟨others, hothers⟩ := hmore
    refine ⟨wire others, ?_⟩
    rw [← hothers]
    exact List.flatMap_append.symm

/-- What a session makes of the first bytes of messages that it can use. -/
theorem ServerSession.feed_prefix {μ : Type} {unpack : Bytes → Option μ} {fs : List TransportFrame}
    (hfs : ∀ f ∈ fs, Serves unpack f) {r : ServerSession μ} (hr : r.phase = .readMeta) {bytes : Bytes}
    (hbytes : bytes <+: wire fs) :
    ∃ r' decoded, (reader unpack).feed { state := r } bytes = .ok r' ∧
      r'.state.decoded = r.decoded ++ decoded ∧ Decodes fs bytes decoded := by
  induction fs generalizing r bytes with
  | nil =>
    obtain rfl : bytes = [] := List.prefix_nil.mp hbytes
    refine ⟨_, [], ExactReader.feed_nil (ExactReader.waits_start r), (List.append_nil _).symm, ?_⟩
    exact ⟨List.nil_prefix, List.nil_prefix, fun f hf => absurd (List.prefix_nil.mp hf) (by simp)⟩
  | cons f fs ih =>
    have hf := hfs f List.mem_cons_self
    rw [wire, List.flatMap_cons] at hbytes
    by_cases hlt : bytes.length < f.encode.length
    · have hpre := List.prefix_of_prefix_length_le hbytes (List.prefix_append _ _) (Nat.le_of_lt hlt)
      obtain ⟨r', hr', hdecoded⟩ := feed_partial hf hr hpre hlt
      exact ⟨r', [], hr', by rw [hdecoded, List.append_nil], Decodes.nil hlt⟩
    · have hpre := List.prefix_of_prefix_length_le (List.prefix_append _ _) hbytes (Nat.le_of_not_lt hlt)
      obtain ⟨rest, rfl⟩ := hpre
      have hrest : rest <+: wire fs := (List.prefix_append_right_inj f.encode).mp hbytes
      obtain ⟨r₁, hphase, hone, hfeed⟩ := feed_encode hf hr rest
      obtain ⟨r', decoded, hr', hdecoded, hdecodes⟩ :=
        ih (fun f hf => hfs f (List.mem_cons_of_mem _ hf)) hphase hrest
      refine ⟨r', f :: decoded, hfeed.trans hr', ?_, hdecodes.cons⟩
      rw [hdecoded, hone, List.append_assoc]
      rfl

/-- What the application may do: it sends messages that the other end can use, and not more than the
buffer can count. -/
def SessionEvent.Fits {μ : Type} (unpack : Bytes → Option μ) (s : ClientSession) : SessionEvent → Prop
  | .send f => ServerSession.Serves unpack f ∧ s.buffer.writer + f.encode.length < 2^32
  | _ => True

instance {μ : Type} (unpack : Bytes → Option μ) (s : ClientSession) (e : SessionEvent) :
    Decidable (e.Fits unpack s) :=
  match e with
  | .send _ => inferInstanceAs (Decidable (_ ∧ _))
  | .connected | .transfer _ _ | .completed _ => .isTrue trivial

/-- A message makes the buffer grow while the socket still has to take bytes of a write. -/
def SessionEvent.Moves (s : ClientSession) : SessionEvent → Prop
  | .send f => s.buffer.left < f.encode.length ∧ ∃ w ∈ s.writes, w.done < w.length
  | _ => False

namespace ClientSession

variable {μ : Type} {unpack : Bytes → Option μ} {s s' : ClientSession} {e : SessionEvent} {f : TransportFrame}

/-- A session delivers its messages. -/
structure Faithful (unpack : Bytes → Option μ) (s : ClientSession) : Prop where
  /-- At most one write is outstanding. -/
  one : s.writes.length ≤ 1
  /-- The bytes that the socket took are those of the messages that were sent, in order. -/
  stream : s.written <+: wire s.sent
  /-- Without an outstanding write, a connected session has none left. -/
  complete : s.connected = true → s.writes = [] → s.written = wire s.sent
  /-- Whatever happens next, the session can handle it. -/
  proceeds : ∀ e : SessionEvent, e.Fits unpack s → ∃ s', s.handle e = .ok s'
  /-- The other end decodes them, in whatever chunks they come. -/
  decodes : ∀ chunks : List Bytes, chunks.flatten = s.written →
    ∃ r, (ServerSession.reader unpack).feedAll { state := {} } chunks = .ok r ∧
      Decodes s.sent s.written r.state.decoded

/-- The number of bytes that the socket has taken of the outstanding writes. -/
def taken (s : ClientSession) : ℕ := (s.writes.map Write.done).sum

/-- The outstanding write of a session, if there is one. -/
inductive Flow (s : ClientSession) : Prop
  /-- There is none, and in a connected session nothing to write. -/
  | idle (hwrites : s.writes = []) (hall : s.connected = true → s.buffer.reader = s.buffer.writer)
  /-- There is one, of bytes that are in the buffer and have not moved if the socket still reads them. -/
  | writing (w : Write) (hwrites : s.writes = [w]) (hconnected : s.connected = true)
      (hstart : w.start = s.buffer.reader) (hpos : 0 < w.length)
      (hend : s.buffer.reader + w.length ≤ s.buffer.writer) (hdone : w.done ≤ w.length)
      (hblock : w.done < w.length → w.block = s.buffer.block)

/-- The parts of a session fit together. -/
structure Sound (s : ClientSession) : Prop where
  /-- The buffer. -/
  buffer : s.buffer.InBounds
  /-- The bytes that were taken, and those that are left in the buffer. -/
  stream : s.written ++ s.buffer.content.drop (s.buffer.reader + s.taken) = wire s.sent
  /-- The write. -/
  flow : s.Flow

/-- A new session. -/
theorem sound_init : ({} : ClientSession).Sound where
  buffer := ⟨Nat.le_refl _, Nat.zero_le _, Nat.two_pow_pos 32⟩
  stream := rfl
  flow := Flow.idle rfl fun _ => rfl

/-- What was read is not more than what was written. -/
theorem readableBytes_ok (h : s.buffer.InBounds) :
    s.buffer.readableBytes = .ok (s.buffer.writer - s.buffer.reader) :=
  if_neg (not_not.mpr h.reader_le)

/-- A connected session without a write starts one, if there is something to write. -/
theorem startWrite_ok (hbuffer : s.buffer.InBounds) (hconnected : s.connected = true)
    (hwrites : s.writes = []) (hstream : s.written ++ s.buffer.content.drop s.buffer.reader = wire s.sent) :
    ∃ s', s.startWrite = .ok s' ∧ s'.Sound ∧ s'.buffer = s.buffer ∧ s'.sent = s.sent := by
  have hle := hbuffer.reader_le
  unfold startWrite
  by_cases hreadable : s.buffer.readable = true
  · have hlt : s.buffer.reader < s.buffer.writer := of_decide_eq_true hreadable
    rw [if_neg (not_not.mpr hreadable), readableBytes_ok hbuffer]
    refine ⟨_, rfl, ⟨hbuffer, ?_, ?_⟩, rfl, rfl⟩
    · show s.written ++ s.buffer.content.drop (s.buffer.reader + taken _) = wire s.sent
      rw [taken, hwrites]
      exact hstream
    · refine Flow.writing _ (by rw [hwrites]; rfl) hconnected rfl ?_ ?_ (Nat.zero_le _) fun _ => rfl
      · show 0 < s.buffer.writer - s.buffer.reader
        omega
      · show s.buffer.reader + (s.buffer.writer - s.buffer.reader) ≤ s.buffer.writer
        omega
  · have hge : ¬s.buffer.reader < s.buffer.writer := fun hlt => hreadable (decide_eq_true hlt)
    rw [if_pos hreadable]
    refine ⟨s, rfl, ⟨hbuffer, ?_, Flow.idle hwrites fun _ => by omega⟩, rfl, rfl⟩
    rw [taken, hwrites]
    exact hstream

/-- Not more was taken than is in the buffer. -/
theorem Sound.taken_le (h : s.Sound) : s.buffer.reader + s.taken ≤ s.buffer.writer := by
  unfold taken
  cases h.flow with
  | idle hwrites _ =>
    rw [hwrites]
    exact h.buffer.reader_le
  | writing w hwrites _ _ _ hend hdone _ =>
    rw [hwrites]
    show s.buffer.reader + w.done ≤ s.buffer.writer
    omega

/-- The bytes of one message more. -/
theorem wire_concat (fs : List TransportFrame) (f : TransportFrame) :
    wire (fs ++ [f]) = wire fs ++ f.encode := by
  rw [wire, wire, List.flatMap_append, List.flatMap_singleton]

/-- A message is put behind the others, and leaves the outstanding writes alone. -/
theorem send_ok (h : s.Sound) (hfits : (SessionEvent.send f).Fits unpack s) :
    ∃ s', s.send f = .ok s' ∧ (∀ w ∈ s.writes, w ∈ s'.writes) ∧
      (s.buffer.left < f.encode.length → s.buffer.block < s'.buffer.block) ∧
      (¬(SessionEvent.send f).Moves s → s'.Sound) := by
  obtain ⟨-, hlt⟩ := hfits
  have hle := h.buffer.reader_le
  have hlength := f.length_encode
  obtain ⟨b₁, b', hb₁, hb', hbounds, hreader, hwriter, hcontent, hstays, hmoves⟩ :=
    h.buffer.put_frame f hlt
  obtain ⟨s₁, hs₁⟩ : ∃ s₁ : ClientSession, s₁ = { s with buffer := b', sent := s.sent ++ [f] } := ⟨_, rfl⟩
  have hread' : b'.readableBytes = .ok (b'.writer - b'.reader) :=
    if_neg (not_not.mpr hbounds.reader_le)
  have hsend : s.send f =
      if s.connected = true ∧ s.buffer.writer - s.buffer.reader = 0 then s₁.startWrite else .ok s₁ := by
    unfold send
    simp only [readableBytes_ok h.buffer, hb₁, hb', hread', bind, Except.bind]
    rw [if_neg (by rw [hreader, hwriter, hlength]; omega), hs₁]
    rfl
  have hstream₁ : s₁.written ++ s₁.buffer.content.drop (s₁.buffer.reader + s.taken) = wire s₁.sent := by
    have htaken := h.taken_le
    rw [hs₁, wire_concat, ← h.stream]
    show s.written ++ b'.content.drop (b'.reader + s.taken) = _
    rw [hreader, hcontent, List.drop_append_of_le_length (by rw [h.buffer.length_content]; exact htaken),
      List.append_assoc]
  have hbuffer₁ : s₁.buffer = b' := by rw [hs₁]
  have hwrites₁ : s₁.writes = s.writes := by rw [hs₁]
  have hconnected₁ : s₁.connected = s.connected := by rw [hs₁]
  rw [hsend]
  cases h.flow with
  | idle hwrites hall =>
    have hnone : ∀ w ∈ s.writes, False := by
      rw [hwrites]
      exact nofun
    rw [taken, hwrites] at hstream₁
    by_cases hconnected : s.connected = true
    · -- Nothing was left to write: the message is written at once.
      rw [if_pos ⟨hconnected, by rw [hall hconnected, Nat.sub_self]⟩]
      obtain ⟨s', hs', hsound, hsame, -⟩ := startWrite_ok (s := s₁) (hbuffer₁ ▸ hbounds)
        (hconnected₁.trans hconnected) (hwrites₁.trans hwrites) hstream₁
      refine ⟨s', hs', fun w hw => (hnone w hw).elim, fun hfull => ?_, fun _ => hsound⟩
      rw [hsame, hbuffer₁]
      exact hmoves hfull
    · rw [if_neg fun hand => hconnected hand.1]
      refine ⟨s₁, rfl, fun w hw => (hnone w hw).elim, fun hfull => ?_, fun _ => ⟨hbuffer₁ ▸ hbounds, ?_, ?_⟩⟩
      · rw [hbuffer₁]
        exact hmoves hfull
      · rw [taken, hwrites₁, hwrites]
        exact hstream₁
      · exact Flow.idle (hwrites₁.trans hwrites) fun hc => absurd (hconnected₁.symm.trans hc) hconnected
  | writing w hwrites hconnected hstart hpos hend hdone hblock =>
    rw [if_neg (by omega)]
    refine ⟨s₁, rfl, fun w' hw' => hwrites₁ ▸ hw', fun hfull => ?_, fun hkeeps => ⟨hbuffer₁ ▸ hbounds, ?_, ?_⟩⟩
    · rw [hbuffer₁]
      exact hmoves hfull
    · rw [taken, hwrites₁]
      exact hstream₁
    · refine Flow.writing w (hwrites₁.trans hwrites) (hconnected₁.trans hconnected) ?_ hpos ?_ hdone ?_
      · rw [hbuffer₁, hreader]
        exact hstart
      · rw [hbuffer₁, hreader, hwriter]
        omega
      · intro hleft
        have hroom : f.encode.length ≤ s.buffer.left := by
          by_contra hfull
          refine hkeeps ⟨Nat.lt_of_not_le hfull, w, ?_, hleft⟩
          rw [hwrites]
          exact List.mem_singleton_self w
        rw [hbuffer₁, hstays hroom]
        exact hblock hleft

/-- The completion of the connection. -/
theorem connected_ok (h : s.Sound) : ∃ s', s.handle .connected = .ok s' ∧ s'.Sound := by
  unfold handle
  by_cases hconnected : s.connected = true
  · rw [if_pos hconnected]
    exact ⟨s, rfl, h⟩
  rw [if_neg hconnected]
  have hwrites : s.writes = [] := by
    cases h.flow with
    | idle hwrites _ => exact hwrites
    | writing w _ hc _ _ _ _ _ => exact absurd hc hconnected
  have hstream := h.stream
  rw [taken, hwrites] at hstream
  obtain ⟨s', hs', hsound, -⟩ := startWrite_ok (s := { s with connected := true }) h.buffer rfl hwrites hstream
  refine ⟨s', ?_, hsound⟩
  unfold onConnect
  by_cases hreadable : s.buffer.readable = true
  · exact (if_pos hreadable).trans hs'
  · refine (if_neg hreadable).trans ?_
    -- Without something to write, `start_write` returns at once.
    unfold startWrite at hs'
    rw [if_pos hreadable] at hs'
    exact hs'

/-- The only write that can be outstanding. -/
theorem Flow.of_getElem? {i : ℕ} {w : Write} (h : s.Flow) (hw : s.writes[i]? = some w) :
    i = 0 ∧ s.writes = [w] ∧ s.connected = true ∧ w.start = s.buffer.reader ∧ 0 < w.length ∧
      s.buffer.reader + w.length ≤ s.buffer.writer ∧ w.done ≤ w.length ∧
      (w.done < w.length → w.block = s.buffer.block) := by
  cases h with
  | idle hwrites _ =>
    rw [hwrites] at hw
    cases hw
  | writing w' hwrites hconnected hstart hpos hend hdone hblock =>
    rw [hwrites] at hw
    obtain ⟨hi, rfl⟩ := List.getElem?_eq_some_iff.mp hw
    rw [List.length_singleton, Nat.lt_one_iff] at hi
    subst hi
    exact ⟨rfl, hwrites, hconnected, hstart, hpos, hend, hdone, hblock⟩

/-- The socket takes bytes of a write. -/
theorem handle_transfer {i : ℕ} {w : Write} (hw : s.writes[i]? = some w) (n : ℕ) :
    s.handle (.transfer i n) =
      if n = 0 ∨ w.length < w.done + n then .ok s else s.takeBytes i w n := by
  unfold handle
  dsimp only
  rw [hw]

/-- A write is complete. -/
theorem handle_completed {i : ℕ} {w : Write} (hw : s.writes[i]? = some w) :
    s.handle (.completed i) =
      if w.done = w.length then { s with writes := s.writes.eraseIdx i }.onWrite w.length else .ok s := by
  unfold handle
  dsimp only
  rw [hw]

/-- Nothing happens to a write that is not outstanding. -/
theorem handle_of_none {i : ℕ} (hw : s.writes[i]? = none) :
    (∀ n, s.handle (.transfer i n) = .ok s) ∧ s.handle (.completed i) = .ok s := by
  unfold handle
  dsimp only
  rw [hw]
  exact ⟨fun _ => rfl, rfl⟩

/-- The socket takes bytes of the outstanding write. -/
theorem transfer_ok (h : s.Sound) (i n : ℕ) : ∃ s', s.handle (.transfer i n) = .ok s' ∧ s'.Sound := by
  cases hw : s.writes[i]? with
  | none => exact ⟨s, (handle_of_none hw).1 n, h⟩
  | some w =>
    rw [handle_transfer hw]
    obtain ⟨rfl, hwrites, hconnected, hstart, hpos, hend, hdone, hblock⟩ := h.flow.of_getElem? hw
    by_cases hnothing : n = 0 ∨ w.length < w.done + n
    · rw [if_pos hnothing]
      exact ⟨s, rfl, h⟩
    obtain ⟨hn, hroom⟩ := not_or.mp hnothing
    have hsame := hblock (by omega)
    have htaken : s.taken = w.done := by
      rw [taken, hwrites]
      rfl
    rw [if_neg hnothing]
    unfold takeBytes
    rw [if_neg (not_not.mpr hsame), hwrites]
    refine ⟨_, rfl, h.buffer, ?_, ?_⟩
    · -- The bytes go from the front of what was left to the end of what was taken.
      show (s.written ++ (s.buffer.buff.drop (w.start + w.done)).take n) ++
        s.buffer.content.drop (s.buffer.reader + (w.done + n)) = wire s.sent
      have hsplit := ByteBuffer.content_drop (b := s.buffer) (k := s.buffer.reader + w.done) (n := n)
        (by omega)
      rw [hstart, List.append_assoc, ← Nat.add_assoc, ← hsplit, ← htaken]
      exact h.stream
    · refine Flow.writing { w with done := w.done + n } rfl hconnected hstart hpos hend ?_
        fun _ => hsame
      show w.done + n ≤ w.length
      exact Nat.le_of_not_lt hroom

/-- The completion of the outstanding write. -/
theorem completed_ok (h : s.Sound) (i : ℕ) : ∃ s', s.handle (.completed i) = .ok s' ∧ s'.Sound := by
  cases hw : s.writes[i]? with
  | none => exact ⟨s, (handle_of_none hw).2, h⟩
  | some w =>
    rw [handle_completed hw]
    obtain ⟨rfl, hwrites, hconnected, hstart, hpos, hend, hdone, hblock⟩ := h.flow.of_getElem? hw
    by_cases hall : w.done = w.length
    · rw [if_pos hall]
      obtain ⟨b', hb', hbounds, hcontent⟩ := h.buffer.readBytes_ok hend
      have hstream := h.stream
      rw [show s.taken = w.length by rw [taken, hwrites]; exact hall, ← hcontent] at hstream
      obtain ⟨s', hs', hsound, -⟩ := startWrite_ok
        (s := { s with writes := s.writes.eraseIdx 0, buffer := b' }) hbounds hconnected
        (by rw [hwrites]; rfl) hstream
      refine ⟨s', ?_, hsound⟩
      unfold onWrite
      rw [show ({ s with writes := s.writes.eraseIdx 0 } : ClientSession).buffer.readBytes w.length =
        .ok b' from hb']
      exact hs'
    · rw [if_neg hall]
      exact ⟨s, rfl, h⟩

/-- Whatever happens, a session can handle it, and its parts still fit together unless a message moves the
buffer away. -/
theorem Sound.handle_ok (h : s.Sound) (hfits : e.Fits unpack s) :
    ∃ s', s.handle e = .ok s' ∧ (¬e.Moves s → s'.Sound) := by
  cases e with
  | send f =>
    obtain ⟨s', hs', -, -, hsound⟩ := send_ok h hfits
    exact ⟨s', hs', hsound⟩
  | connected =>
    obtain ⟨s', hs', hsound⟩ := connected_ok h
    exact ⟨s', hs', fun _ => hsound⟩
  | transfer i n =>
    obtain ⟨s', hs', hsound⟩ := transfer_ok h i n
    exact ⟨s', hs', fun _ => hsound⟩
  | completed i =>
    obtain ⟨s', hs', hsound⟩ := completed_ok h i
    exact ⟨s', hs', fun _ => hsound⟩

/-- Only sending changes what was sent. -/
theorem sent_handle (s : ClientSession) (e : SessionEvent) : Outcome.Ensures (s.handle e) fun s' =>
    s'.sent = s.sent ∨ ∃ f, e = .send f ∧ s'.sent = s.sent ++ [f] := by
  have hstart : ∀ s : ClientSession, Outcome.Ensures s.startWrite fun s' => s'.sent = s.sent := by
    intro s
    unfold startWrite
    refine Outcome.Ensures.ite (fun _ => Outcome.Ensures.pure rfl) fun _ => ?_
    exact Outcome.Ensures.bind Outcome.Ensures.any fun _ _ => Outcome.Ensures.pure rfl
  cases e with
  | send f =>
    have hsend : Outcome.Ensures (s.send f) fun s' => s'.sent = s.sent ++ [f] := by
      unfold send
      refine Outcome.Ensures.bind Outcome.Ensures.any fun _ _ => ?_
      refine Outcome.Ensures.bind Outcome.Ensures.any fun _ _ => ?_
      refine Outcome.Ensures.bind Outcome.Ensures.any fun _ _ => ?_
      refine Outcome.Ensures.bind Outcome.Ensures.any fun _ _ => ?_
      refine Outcome.Ensures.ite (fun _ => Outcome.Ensures.error) fun _ => ?_
      exact Outcome.Ensures.ite (fun _ => hstart _) fun _ => Outcome.Ensures.pure rfl
    exact hsend.mono fun _ hs' => Or.inr ⟨f, rfl, hs'⟩
  | connected =>
    refine Outcome.Ensures.ite (fun _ => Outcome.Ensures.ok (Or.inl rfl)) fun _ => ?_
    refine Outcome.Ensures.ite (fun _ => ?_) fun _ => Outcome.Ensures.pure (Or.inl rfl)
    exact (hstart _).mono fun _ hs' => Or.inl hs'
  | transfer i n =>
    cases hw : s.writes[i]? with
    | none =>
      rw [(handle_of_none hw).1]
      exact Outcome.Ensures.ok (Or.inl rfl)
    | some w =>
      rw [handle_transfer hw]
      refine Outcome.Ensures.ite (fun _ => Outcome.Ensures.ok (Or.inl rfl)) fun _ => ?_
      exact Outcome.Ensures.ite (fun _ => Outcome.Ensures.error) fun _ => Outcome.Ensures.ok (Or.inl rfl)
  | completed i =>
    cases hw : s.writes[i]? with
    | none =>
      rw [(handle_of_none hw).2]
      exact Outcome.Ensures.ok (Or.inl rfl)
    | some w =>
      rw [handle_completed hw]
      refine Outcome.Ensures.ite (fun _ => ?_) fun _ => Outcome.Ensures.ok (Or.inl rfl)
      refine Outcome.Ensures.bind Outcome.Ensures.any fun _ _ => ?_
      exact (hstart _).mono fun _ hs' => Or.inl hs'

/-- A session whose parts fit together delivers messages that the other end can use. -/
theorem Sound.faithful (h : s.Sound) (hserves : ∀ f ∈ s.sent, ServerSession.Serves unpack f) :
    s.Faithful unpack where
  one := by
    cases h.flow with
    | idle hwrites _ => rw [hwrites]; exact Nat.zero_le _
    | writing w hwrites _ _ _ _ _ _ => rw [hwrites]; exact Nat.le_refl _
  stream := ⟨_, h.stream⟩
  complete := by
    intro hconnected hnone
    have hstream := h.stream
    have htaken : s.taken = 0 := by
      rw [taken, hnone]
      rfl
    cases h.flow with
    | idle _ hall =>
      rw [htaken, Nat.add_zero, hall hconnected,
        List.drop_of_length_le (Nat.le_of_eq h.buffer.length_content), List.append_nil] at hstream
      exact hstream
    | writing w hwrites _ _ _ _ _ _ =>
      rw [hnone] at hwrites
      cases hwrites
  proceeds := by
    intro e hfits
    obtain ⟨s', hs', -⟩ := h.handle_ok hfits
    exact ⟨s', hs'⟩
  decodes := by
    intro chunks hchunks
    have hwritten : s.written <+: wire s.sent := ⟨_, h.stream⟩
    obtain ⟨r, decoded, hr, hdecoded, hdecodes⟩ :=
      ServerSession.feed_prefix hserves (r := {}) rfl hwritten
    refine ⟨r, ?_, ?_⟩
    · rw [ExactReader.feedAll_eq (ExactReader.waits_start _), hchunks]
      exact hr
    · rw [hdecoded]
      exact hdecodes

/-- What a connected session without an outstanding write has sent is what the other end decodes. -/
theorem Faithful.decodes_all (h : s.Faithful unpack) (hconnected : s.connected = true)
    (hnone : s.writes = []) {chunks : List Bytes} (hchunks : chunks.flatten = s.written) :
    ∃ r, (ServerSession.reader unpack).feedAll { state := {} } chunks = .ok r ∧ r.state.decoded = s.sent := by
  obtain ⟨r, hr, hdecodes⟩ := h.decodes chunks hchunks
  rw [h.complete hconnected hnone] at hdecodes
  exact ⟨r, hr, hdecodes.all⟩

/-- After a message that moved the buffer away, the socket reads through a dangling pointer. -/
theorem Sound.not_moves (h : s.Sound) (hfits : e.Fits unpack s) (hs' : s.handle e = .ok s')
    (h' : s'.Faithful unpack) : ¬e.Moves s := by
  intro hmoves
  cases e with
  | send f =>
    obtain ⟨hfull, w, hw, hleft⟩ := hmoves
    obtain ⟨s₁, hs₁, hwrites, hblock, -⟩ := send_ok h hfits
    obtain rfl : s₁ = s' := Except.ok.inj (hs₁.symm.trans hs')
    obtain ⟨i, hi⟩ := List.getElem?_of_mem hw
    obtain ⟨-, -, -, -, -, -, -, hsame⟩ := h.flow.of_getElem? hi
    obtain ⟨j, hj⟩ := List.getElem?_of_mem (hwrites w hw)
    obtain ⟨s₂, hs₂⟩ := h'.proceeds (.transfer j 1) trivial
    rw [handle_transfer hj, if_neg (by omega)] at hs₂
    unfold takeBytes at hs₂
    rw [if_pos] at hs₂
    · cases hs₂
    · rw [hsame hleft]
      exact Nat.ne_of_lt (hblock hfull)
  | _ => exact hmoves

end ClientSession

/-! ## Runs -/

variable {μ : Type} {unpack : Bytes → Option μ} {s : ClientSession}
  {ts : List (Turn ClientSession SessionEvent)}

/-- A session delivers its messages throughout a run if and only if no message of the run makes the buffer
grow while the socket still has to take bytes of a write. -/
theorem frames_delivered_iff (hrun : ClientSession.Run {} ts s)
    (hfits : ∀ t ∈ ts, t.event.Fits unpack t.before) :
    ((∀ t ∈ ts, t.before.Faithful unpack) ∧ s.Faithful unpack) ↔ ∀ t ∈ ts, ¬t.event.Moves t.before := by
  -- As long as nothing moved, the parts of the session fit together.
  have hstep : ∀ t : Turn ClientSession SessionEvent, t.before.handle t.event = .ok t.after →
      t.event.Fits unpack t.before ∧ ¬t.event.Moves t.before →
        (t.before.Sound ∧ ∀ f ∈ t.before.sent, ServerSession.Serves unpack f) →
          t.after.Sound ∧ ∀ f ∈ t.after.sent, ServerSession.Serves unpack f := by
    rintro ⟨s, e, s'⟩ hs' ⟨hfit, hmoves⟩ ⟨hsound, hserves⟩
    obtain ⟨s₁, hs₁, hsound₁⟩ := hsound.handle_ok hfit
    obtain rfl : s₁ = s' := Except.ok.inj (hs₁.symm.trans hs')
    refine ⟨hsound₁ hmoves, ?_⟩
    obtain hsent | ⟨f, rfl, hsent⟩ := ClientSession.sent_handle s e s₁ hs'
    · intro f hf
      exact hserves f (hsent ▸ hf)
    · intro f' hf'
      obtain hf' | hf' := List.mem_append.mp (hsent ▸ hf' : f' ∈ s.sent ++ [f])
      · exact hserves f' hf'
      · rw [List.mem_singleton.mp hf']
        exact hfit.1
  have hstart : ({} : ClientSession).Sound ∧ ∀ f ∈ ({} : ClientSession).sent, ServerSession.Serves unpack f :=
    ⟨ClientSession.sound_init, nofun⟩
  constructor
  · intro hfaithful
    have hafter := hrun.after hfaithful.1 hfaithful.2
    -- Every step starts from such a session, and does not move the buffer.
    have hinv := hrun.invariant (P := fun s => s.Sound ∧ ∀ f ∈ s.sent, ServerSession.Serves unpack f)
      (Q := fun t => t.event.Fits unpack t.before ∧ t.after.Faithful unpack)
      (fun t ht hQ hP => hstep t ht ⟨hQ.1, hP.1.not_moves hQ.1 ht hQ.2⟩ hP)
      (fun t ht => ⟨hfits t ht, hafter t ht⟩) hstart
    exact fun t ht => (hinv.1 t ht).1.not_moves (hfits t ht) (hrun.step_mem ht) (hafter t ht)
  · intro hmoves
    have hinv := hrun.invariant (P := fun s => s.Sound ∧ ∀ f ∈ s.sent, ServerSession.Serves unpack f)
      (Q := fun t => t.event.Fits unpack t.before ∧ ¬t.event.Moves t.before) hstep
      (fun t ht => ⟨hfits t ht, hmoves t ht⟩) hstart
    exact ⟨fun t ht => (hinv.1 t ht).1.faithful (hinv.1 t ht).2, hinv.2.1.faithful hinv.2.2⟩

/-! ## A growing buffer -/

/-- The debug message of a tick, as the timer of a peer sends it. -/
def debugFrame (tick : ℕ) : TransportFrame :=
  { type := transportTypeDebug
    payload := LittleEndian.encode 4 tick ++ LittleEndian.encode 4 ((tick + 1) % 2^32) }

/-- A message whose data is longer than the room that a new buffer has. -/
def longFrame : TransportFrame := { type := transportTypeStream, payload := List.replicate minBuffering 0 }

/-- A debug message is sent before the connection is there, and written after it. -/
def writesOne : List (Turn ClientSession SessionEvent) × ClientSession :=
  Trace.run ClientSession.handle {} [.send (debugFrame 0), .connected, .transfer 0 5, .send (debugFrame 2),
    .transfer 0 8, .completed 0]

/-- It is delivered throughout. -/
theorem frames_delivered_iff_writesOne :
    ((∀ t ∈ writesOne.1, t.before.Faithful (fun _ => (none : Option Unit))) ∧
      writesOne.2.Faithful (fun _ => (none : Option Unit))) ↔
        ∀ t ∈ writesOne.1, ¬t.event.Moves t.before :=
  frames_delivered_iff (Trace.of_run _ _ _) (by decide +kernel)

/-- While a debug message is written, a long message is sent. -/
def growsUnderWrite : List (Turn ClientSession SessionEvent) × ClientSession :=
  Trace.run ClientSession.handle {} [.send (debugFrame 0), .connected, .send longFrame]

/-- The socket reads the debug message through a dangling pointer. -/
theorem frames_not_delivered : ¬∀ (μ : Type) (unpack : Bytes → Option μ) (s : ClientSession)
    (ts : List (Turn ClientSession SessionEvent)), ClientSession.Run {} ts s →
      (∀ t ∈ ts, t.event.Fits unpack t.before) →
        (∀ t ∈ ts, t.before.Faithful unpack) ∧ s.Faithful unpack := by
  intro hall
  obtain ⟨-, hfaithful⟩ := hall Bytes some growsUnderWrite.2 growsUnderWrite.1 (Trace.of_run _ _ _)
    (by decide +kernel)
  obtain ⟨s', hs'⟩ := hfaithful.proceeds (.transfer 0 1) trivial
  have hfails : (growsUnderWrite.2.handle (.transfer 0 1)).toBool = false := by decide +kernel
  rw [hs'] at hfails
  cases hfails

end RaftCpp
