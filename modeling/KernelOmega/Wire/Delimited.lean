import KernelOmega.Wire.Stream

/-!
# Length-delimited frames

A frame is a fixed-width header that says how long the payload is, and the payload.
For every header that reads back the lengths it writes, a reader that takes the header
and then that many bytes returns the payload, stops right behind it, and fails on
anything shorter; so frames written one after the other read back one after the other
(`readFrames_frames`), whoever wrote and whoever reads each of them.
-/

namespace Wire

/-- A header of fixed width that reads back every length below its bound. -/
structure Header where
  width : Nat
  bound : Nat
  encode : Nat → List UInt8
  decode : List UInt8 → Nat
  length_encode : ∀ size, (encode size).length = width
  decode_encode : ∀ size, size < bound → decode (encode size) = size

namespace Header

variable (header : Header)

/-- A payload with its header in front. -/
def frame (payload : List UInt8) : List UInt8 := header.encode payload.length ++ payload

theorem length_frame (payload : List UInt8) :
    (header.frame payload).length = header.width + payload.length := by
  rw [frame, List.length_append, header.length_encode]

/-- What every writer of frames does: refuse a payload whose length the header cannot
hold before anything is sent, else write the header, then the payload. -/
structure Writes (write : List UInt8 → Writing Unit) : Prop where
  refuses : ∀ payload sink, header.bound ≤ payload.length →
    ∃ message, write payload sink = (.error (.invalidInput message), sink)
  sends : ∀ payload sink, payload.length < header.bound →
    write payload sink =
      andThen (writeAll (header.encode payload.length)) (fun _ => writeAll payload) sink

/-- What every reader of frames does: take the header, refuse a length over the limit,
else take that many bytes. -/
structure Reads (read : Nat → Reading (List UInt8)) : Prop where
  takes : ∃ refuse : Nat → IoError, ∀ limit source,
    read limit source =
      andThen (readExact header.width) (fun head left =>
        if limit < header.decode head then (.error (refuse (header.decode head)), left)
        else readExact (header.decode head) left) source

variable {header}

/-! ## One frame -/

namespace Writes

variable {write : List UInt8 → Writing Unit}

/-- A connection that takes the whole frame gets exactly the frame. -/
theorem frame_of_fits (writes : header.Writes write) {payload : List UInt8} {sink : Sink}
    (short : payload.length < header.bound) (fits : sink.Fits (header.frame payload).length) :
    ∃ accepts, write payload sink = (.ok (),
      { written := sink.written ++ header.frame payload
        accepts
        room := sink.room.map (· - (header.frame payload).length) }) := by
  have total := header.length_frame payload
  have width := header.length_encode payload.length
  obtain ⟨accepts, head⟩ := writeAll_fits (header.encode payload.length) sink (by
    intro room held
    have all := fits room held
    omega)
  obtain ⟨accepts', body⟩ := writeAll_fits payload
    { written := sink.written ++ header.encode payload.length, accepts,
      room := sink.room.map (· - (header.encode payload.length).length) } (by
    intro left held
    obtain ⟨before, member, rfl⟩ := Option.map_eq_some_iff.mp held
    have all := fits before member
    omega)
  refine ⟨accepts', ?_⟩
  rw [writes.sends payload sink short, andThen_ok head, body]
  simp only [List.append_assoc, Option.map_map, width, frame, List.length_append]
  congr 3
  funext before
  simp only [Function.comp_apply]
  omega

/-- A connection that breaks off within the frame has got a strict prefix of it. -/
theorem prefix_of_breaks (writes : header.Writes write) {payload : List UInt8} {sink : Sink}
    {room : Nat} (held : sink.room = some room)
    (broken : room < (header.frame payload).length) (bounded : payload.length < header.bound) :
    ∃ left, write payload sink = (.error .brokenPipe, left) ∧
      left.written = sink.written ++ (header.frame payload).take room := by
  have total := header.length_frame payload
  have width := header.length_encode payload.length
  rw [writes.sends payload sink bounded]
  by_cases inHead : room < (header.encode payload.length).length
  · obtain ⟨accepts, head⟩ := writeAll_breaks (header.encode payload.length) sink room held inHead
    refine ⟨_, andThen_error head, ?_⟩
    rw [frame, List.take_append_of_le_length (Nat.le_of_lt inHead)]
  · obtain ⟨accepts, head⟩ := writeAll_fits (header.encode payload.length) sink (by
      intro room' member
      rw [held] at member
      have same := Option.some.inj member
      omega)
    obtain ⟨accepts', body⟩ := writeAll_breaks payload
      { written := sink.written ++ header.encode payload.length, accepts,
        room := sink.room.map (· - (header.encode payload.length).length) }
      (room - (header.encode payload.length).length) (by rw [held]; rfl) (by omega)
    refine ⟨_, (andThen_ok head).trans body, ?_⟩
    simp only [frame, List.append_assoc]
    rw [List.take_append, List.take_of_length_le (Nat.le_of_not_lt inHead)]

end Writes

namespace Reads

variable {read : Nat → Reading (List UInt8)}

/-- The header of a frame is read as the payload's length. -/
theorem head_of_frame {payload rest : List UInt8} {source : Source}
    (unread : source.unread = header.frame payload ++ rest) :
    ∃ arrivals, readExact header.width source =
      (.ok (header.encode payload.length), { unread := payload ++ rest, arrivals }) := by
  have width := header.length_encode payload.length
  have whole : source.unread = header.encode payload.length ++ (payload ++ rest) := by
    rw [unread, frame, List.append_assoc]
  obtain ⟨arrivals, head⟩ := readExact_enough header.width source (by
    rw [whole, List.length_append]
    omega)
  refine ⟨arrivals, ?_⟩
  rw [head, whole, List.take_left' width, List.drop_left' width]

/-- A frame within the limit reads back, and what follows it stays unread. -/
theorem payload_of_frame (reads : header.Reads read) {limit : Nat} {payload rest : List UInt8}
    {source : Source} (short : payload.length < header.bound) (within : payload.length ≤ limit)
    (unread : source.unread = header.frame payload ++ rest) :
    ∃ arrivals, read limit source = (.ok payload, { unread := rest, arrivals }) := by
  obtain ⟨refuse, takes⟩ := reads.takes
  obtain ⟨arrivals, head⟩ := head_of_frame unread
  obtain ⟨arrivals', body⟩ := readExact_enough payload.length
    { unread := payload ++ rest, arrivals } (by rw [List.length_append]; omega)
  refine ⟨arrivals', ?_⟩
  rw [takes, andThen_ok head, header.decode_encode payload.length short,
    if_neg (Nat.not_lt.mpr within), body, List.take_left' rfl, List.drop_left' rfl]

/-- A frame over the limit is refused with only its header read. -/
theorem refused_of_frame (reads : header.Reads read) {limit : Nat} {payload rest : List UInt8}
    {source : Source} (short : payload.length < header.bound) (beyond : limit < payload.length)
    (unread : source.unread = header.frame payload ++ rest) :
    ∃ e arrivals, read limit source = (.error e, { unread := payload ++ rest, arrivals }) := by
  obtain ⟨refuse, takes⟩ := reads.takes
  obtain ⟨arrivals, head⟩ := head_of_frame unread
  refine ⟨refuse payload.length, arrivals, ?_⟩
  rw [takes, andThen_ok head, header.decode_encode payload.length short, if_pos beyond]

/-- A strict prefix of a frame never reads as a payload. -/
theorem error_of_prefix (reads : header.Reads read) {limit : Nat} {payload rest : List UInt8}
    {source : Source} (short : payload.length < header.bound) (cut : rest ≠ [])
    (unread : source.unread ++ rest = header.frame payload) :
    ∃ e left, read limit source = (.error e, left) := by
  obtain ⟨refuse, takes⟩ := reads.takes
  have width := header.length_encode payload.length
  have missing := List.length_pos_of_ne_nil cut
  have lengths := congrArg List.length unread
  rw [List.length_append, header.length_frame] at lengths
  by_cases inHead : source.unread.length < header.width
  · obtain ⟨arrivals, head⟩ := readExact_short header.width source inHead
    exact ⟨_, _, (takes limit source).trans (andThen_error head)⟩
  · obtain ⟨arrivals, head⟩ := readExact_enough header.width source (Nat.le_of_not_lt inHead)
    have taken : source.unread.take header.width = header.encode payload.length := by
      have front := congrArg (List.take header.width) unread
      rw [List.take_append_of_le_length (Nat.le_of_not_lt inHead), frame,
        List.take_left' width] at front
      exact front
    rw [takes, andThen_ok head, taken, header.decode_encode payload.length short]
    split
    · exact ⟨_, _, rfl⟩
    · obtain ⟨arrivals', body⟩ := readExact_short payload.length
        { unread := source.unread.drop header.width, arrivals } (by
          rw [List.length_drop]
          omega)
      exact ⟨_, _, body⟩

end Reads

end Header

/-! ## Many frames -/

/-- Frames written one after the other, each by its own writer. -/
def writeFrames : List ((List UInt8 → Writing Unit) × List UInt8) → Writing Unit
  | [] => fun sink => (.ok (), sink)
  | (write, payload) :: more => andThen (write payload) fun _ => writeFrames more

/-- Read frames until nothing is left, the `k`-th with the `k`-th reader, for at most
`fuel` frames. -/
def readFrames (read : Nat → Nat → Reading (List UInt8)) (limit : Nat) :
    Nat → Nat → Reading (List (List UInt8))
  | 0, _, source => (.error .unexpectedEof, source)
  | fuel + 1, k, source =>
    if source.unread = [] then (.ok [], source)
    else
      andThen (read k limit) (fun payload =>
        andThen (readFrames read limit fuel (k + 1)) fun payloads left =>
          (.ok (payload :: payloads), left)) source

namespace Header

variable {header : Header}

/-- What is written with writers of one header is the frames one after another. -/
theorem writeFrames_eq (writing : List ((List UInt8 → Writing Unit) × List UInt8))
    (writes : ∀ one ∈ writing, header.Writes one.1)
    (short : ∀ one ∈ writing, one.2.length < header.bound) (sink : Sink)
    (opened : sink.room = none) :
    ∃ accepts, writeFrames writing sink = (.ok (),
      { written := sink.written ++ writing.flatMap (header.frame ·.2), accepts,
        room := none }) := by
  induction writing generalizing sink with
  | nil =>
    refine ⟨sink.accepts, ?_⟩
    simp only [writeFrames, List.flatMap_nil, List.append_nil, ← opened]
  | cons one more ih =>
    obtain ⟨accepts, first⟩ := (writes one List.mem_cons_self).frame_of_fits
      (short one List.mem_cons_self) (sink.fits_of_open opened (header.frame one.2).length)
    rw [opened] at first
    obtain ⟨accepts', rest⟩ := ih
      (fun one member => writes one (List.mem_cons_of_mem _ member))
      (fun one member => short one (List.mem_cons_of_mem _ member))
      { written := sink.written ++ header.frame one.2, accepts, room := none } rfl
    refine ⟨accepts', ?_⟩
    rw [writeFrames, andThen_ok first]
    rw [Option.map_none, rest, List.flatMap_cons, List.append_assoc]

/-- Any concatenation of frames within the limit reads back as the list of payloads. -/
theorem readFrames_frames (width : 0 < header.width) {read : Nat → Nat → Reading (List UInt8)}
    (reads : ∀ k, header.Reads (read k)) {limit : Nat} (payloads : List (List UInt8))
    (short : ∀ payload ∈ payloads, payload.length < header.bound)
    (within : ∀ payload ∈ payloads, payload.length ≤ limit) {fuel : Nat}
    (enough : payloads.length < fuel) (k : Nat) (source : Source)
    (unread : source.unread = payloads.flatMap header.frame) :
    ∃ left, readFrames read limit fuel k source = (.ok payloads, left) ∧ left.unread = [] := by
  induction payloads generalizing fuel k source with
  | nil =>
    obtain ⟨fuel, rfl⟩ := Nat.exists_eq_succ_of_ne_zero (Nat.ne_of_gt enough)
    rw [List.flatMap_nil] at unread
    refine ⟨source, ?_, unread⟩
    rw [readFrames, if_pos unread]
  | cons payload payloads ih =>
    obtain ⟨fuel, rfl⟩ := Nat.exists_eq_succ_of_ne_zero
      (Nat.ne_of_gt (Nat.lt_of_le_of_lt (Nat.zero_le _) enough))
    have some : source.unread ≠ [] := by
      intro nothing
      have lengths := congrArg List.length (unread.symm.trans nothing)
      rw [List.flatMap_cons, List.length_append, header.length_frame, List.length_nil] at lengths
      omega
    obtain ⟨arrivals, first⟩ := (reads k).payload_of_frame (short payload List.mem_cons_self)
      (within payload List.mem_cons_self) (unread.trans List.flatMap_cons)
    obtain ⟨left, rest, nothing⟩ := ih
      (fun one member => short one (List.mem_cons_of_mem _ member))
      (fun one member => within one (List.mem_cons_of_mem _ member))
      (Nat.lt_of_succ_lt_succ enough) (k + 1)
      { unread := payloads.flatMap header.frame, arrivals } rfl
    refine ⟨left, ?_, nothing⟩
    rw [readFrames, if_neg some, andThen_ok first, andThen_ok rest]

end Header

end Wire
