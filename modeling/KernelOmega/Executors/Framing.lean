import KernelOmega.Wire.Delimited
import Mathlib.Algebra.Group.Nat.Defs

/-!
# Framed messages between the hypervisor and the guest

`omega_hypervisor/src/main.rs` and `guest_agent/src/main.rs` each have a writer and a
reader of framed messages: four bytes of length, most significant first, then the
payload. Both writers and both readers are the frames of one header
(`lengthHeader`), so either program reads what either program wrote.
-/

namespace KernelOmega

open Wire

/-! ## The 32-bit length -/

/-- `u32::try_from` of a `usize`. -/
def u32TryFrom (size : Nat) : Option UInt32 :=
  if size < 2 ^ 32 then some (UInt32.ofNat size) else none

/-- `u32::to_be_bytes` -/
def toBeBytes (word : UInt32) : List UInt8 :=
  [UInt8.ofNat (word.toNat / 2 ^ 24), UInt8.ofNat (word.toNat / 2 ^ 16),
    UInt8.ofNat (word.toNat / 2 ^ 8), UInt8.ofNat word.toNat]

/-- `u32::from_be_bytes`; a list is read as far as it goes, four bytes give the `u32`. -/
def fromBeBytes (header : List UInt8) : UInt32 :=
  UInt32.ofNat (header.foldl (fun word byte => word * 2 ^ 8 + byte.toNat) 0)

theorem fromBeBytes_toBeBytes (word : UInt32) : fromBeBytes (toBeBytes word) = word := by
  have bounded := word.toNat_lt
  apply UInt32.toNat_inj.mp
  simp only [fromBeBytes, toBeBytes, List.foldl_cons, List.foldl_nil, UInt8.toNat_ofNat',
    UInt32.toNat_ofNat']
  omega

/-- The header of a framed message. -/
def lengthHeader : Header where
  width := 4
  bound := 2 ^ 32
  encode size := toBeBytes (UInt32.ofNat size)
  decode header := (fromBeBytes header).toNat
  length_encode _ := rfl
  decode_encode := by
    intro size bounded
    rw [fromBeBytes_toBeBytes, UInt32.toNat_ofNat']
    exact Nat.mod_eq_of_lt bounded

/-! ## The two programs -/

/-- The text of the error for a message over the limit. -/
def overLimit (payloadLen : Nat) : IoError :=
  .invalidData ("framed payload exceeds limit: " ++ toString payloadLen)

namespace OmegaHypervisor

/-- `write_framed` of `omega_hypervisor/src/main.rs` -/
def writeFramed (payload : List UInt8) : Writing Unit := fun stream =>
  match u32TryFrom payload.length with
  | none => (.error (.invalidInput "payload too large"), stream)
  | some length =>
    andThen (writeAll (toBeBytes length)) (fun _ => writeAll payload) stream

/-- `read_framed` of `omega_hypervisor/src/main.rs` -/
def readFramed (maxLen : Nat) : Wire.Reading (List UInt8) :=
  andThen (readExact 4) fun header stream =>
    let payloadLen := (fromBeBytes header).toNat
    if payloadLen > maxLen then (.error (overLimit payloadLen), stream)
    else readExact payloadLen stream

end OmegaHypervisor

namespace GuestAgent

/-- `read_framed` of `guest_agent/src/main.rs` -/
def readFramed (maxLen : Nat) : Wire.Reading (List UInt8) :=
  andThen (readExact 4) fun header reader =>
    let payloadLen := (fromBeBytes header).toNat
    if payloadLen > maxLen then (.error (overLimit payloadLen), reader)
    else readExact payloadLen reader

/-- `write_framed` of `guest_agent/src/main.rs` -/
def writeFramed (payload : List UInt8) : Writing Unit := fun writer =>
  match u32TryFrom payload.length with
  | none => (.error (.invalidInput "payload too large"), writer)
  | some payloadLen =>
    andThen (writeAll (toBeBytes payloadLen)) (fun _ => writeAll payload) writer

end GuestAgent

/-- The two ends of the connection between a capsule's executor and its virtual machine. -/
inductive Program
  | omegaHypervisor
  | guestAgent
  deriving DecidableEq

namespace Program

def writeFramed : Program → List UInt8 → Writing Unit
  | omegaHypervisor => OmegaHypervisor.writeFramed
  | guestAgent => GuestAgent.writeFramed

def readFramed : Program → Nat → Wire.Reading (List UInt8)
  | omegaHypervisor => OmegaHypervisor.readFramed
  | guestAgent => GuestAgent.readFramed

/-- A writer of framed payloads sends the header and the payload, and refuses one that is too long.
-/
theorem writes (program : Program) : lengthHeader.Writes program.writeFramed where
  refuses := by
    intro payload sink large
    have none : u32TryFrom payload.length = none := if_neg (Nat.not_lt.mpr large)
    refine ⟨"payload too large", ?_⟩
    cases program with
    | omegaHypervisor => simp only [writeFramed, OmegaHypervisor.writeFramed, none]
    | guestAgent => simp only [writeFramed, GuestAgent.writeFramed, none]
  sends := by
    intro payload sink short
    have some : u32TryFrom payload.length = some (UInt32.ofNat payload.length) := if_pos short
    cases program with
    | omegaHypervisor => simp only [writeFramed, OmegaHypervisor.writeFramed, some, lengthHeader]
    | guestAgent => simp only [writeFramed, GuestAgent.writeFramed, some, lengthHeader]

/-- A reader takes the header and then what the header says, up to its limit. -/
theorem reads (program : Program) : lengthHeader.Reads program.readFramed where
  takes := by
    refine ⟨overLimit, ?_⟩
    intro limit source
    cases program with
    | omegaHypervisor => rfl
    | guestAgent => rfl

end Program

/-! ## Exactness -/

/-- A message sent by `writer` over a connection that takes it: the bytes sent, read by
`reader` with `rest` behind them, give the message back with `rest` unread; over the limit
they are refused with only the four bytes of the header read; and cut short they are an
error. -/
structure Carries (writer reader : Program) (payload : List UInt8) (maxLen : Nat)
    (sink : Sink) (bytes : List UInt8) : Prop where
  sent : ∃ left, writer.writeFramed payload sink = (.ok (), left) ∧
    left.written = sink.written ++ bytes
  header : bytes.length = 4 + payload.length
  returned : payload.length ≤ maxLen → ∀ (rest : List UInt8) (source : Wire.Source),
    source.unread = bytes ++ rest →
      ∃ after, reader.readFramed maxLen source = (.ok payload, after) ∧ after.unread = rest
  refused : maxLen < payload.length → ∀ (rest : List UInt8) (source : Wire.Source),
    source.unread = bytes ++ rest →
      ∃ e after, reader.readFramed maxLen source = (.error e, after) ∧
        source.unread = bytes.take 4 ++ after.unread
  cut : ∀ source : Wire.Source, source.unread <+: bytes → source.unread ≠ bytes →
    ∃ e after, reader.readFramed maxLen source = (.error e, after)

/-- A reader that gets a part of a frame ends with an error, and with no payload. -/
theorem error_of_cut (reader : Program) {payload : List UInt8} (short : payload.length < 2 ^ 32)
    (maxLen : Nat) {source : Wire.Source} (shorter : source.unread <+: lengthHeader.frame payload)
    (strict : source.unread ≠ lengthHeader.frame payload) :
    ∃ e after, reader.readFramed maxLen source = (.error e, after) := by
  obtain ⟨missing, whole⟩ := shorter
  have some : missing ≠ [] := by
    intro none
    rw [none, List.append_nil] at whole
    exact strict whole
  exact reader.reads.error_of_prefix short some whole

/-- A payload that fits its header travels: what the one side writes the other reads, in whatever
pieces the bytes arrive. -/
theorem carries (writer reader : Program) {payload : List UInt8}
    (short : payload.length < 2 ^ 32) (maxLen : Nat) {sink : Sink}
    (fits : sink.Fits (4 + payload.length)) :
    Carries writer reader payload maxLen sink (lengthHeader.frame payload) where
  sent := by
    have whole : sink.Fits (lengthHeader.frame payload).length := by
      rw [lengthHeader.length_frame]
      exact fits
    obtain ⟨accepts, wrote⟩ := writer.writes.frame_of_fits short whole
    exact ⟨_, wrote, rfl⟩
  header := lengthHeader.length_frame payload
  returned := by
    intro within rest source unread
    obtain ⟨arrivals, whole⟩ := reader.reads.payload_of_frame short within unread
    exact ⟨_, whole, rfl⟩
  refused := by
    intro beyond rest source unread
    obtain ⟨e, arrivals, refused⟩ := reader.reads.refused_of_frame short beyond unread
    refine ⟨e, _, refused, ?_⟩
    have head : (lengthHeader.frame payload).take 4 = lengthHeader.encode payload.length :=
      List.take_left' (lengthHeader.length_encode payload.length)
    rw [unread, head, Header.frame, List.append_assoc]
  cut := by
    intro source shorter strict
    exact error_of_cut reader short maxLen shorter strict

/-- What arrives over a connection that breaks off within a message is never read as one. -/
theorem error_of_broken (writer reader : Program) {payload : List UInt8}
    (short : payload.length < 2 ^ 32) (maxLen : Nat) {sink : Sink} {room : Nat}
    (held : sink.room = some room) (broken : room < 4 + payload.length) :
    ∃ bytes left, writer.writeFramed payload sink = (.error .brokenPipe, left) ∧
      left.written = sink.written ++ bytes ∧
      ∀ source : Wire.Source, source.unread = bytes →
        ∃ e after, reader.readFramed maxLen source = (.error e, after) := by
  have inside : room < (lengthHeader.frame payload).length := by
    rw [lengthHeader.length_frame]
    exact broken
  obtain ⟨left, failed, written⟩ := writer.writes.prefix_of_breaks held inside short
  refine ⟨_, left, failed, written, ?_⟩
  intro source unread
  apply error_of_cut reader short maxLen
  · rw [unread]
    exact List.take_prefix _ _
  · intro whole
    have lengths := congrArg List.length (unread.symm.trans whole)
    rw [List.length_take] at lengths
    omega

/-- Any sequence of messages within the limit, each sent by either program, is read as that
sequence, each message by either program. -/
theorem frames_return (sent : List (Program × List UInt8)) (readers : Nat → Program)
    (maxLen : Nat) (short : ∀ one ∈ sent, one.2.length < 2 ^ 32)
    (within : ∀ one ∈ sent, one.2.length ≤ maxLen) (sink : Sink) (opened : sink.room = none) :
    ∃ bytes left,
      writeFrames (sent.map fun one => (one.1.writeFramed, one.2)) sink = (.ok (), left) ∧
      left.written = sink.written ++ bytes ∧
      ∀ (source : Wire.Source) (fuel : Nat), source.unread = bytes → sent.length < fuel →
        ∃ after, readFrames (fun k => (readers k).readFramed) maxLen fuel 0 source =
          (.ok (sent.map Prod.snd), after) ∧ after.unread = [] := by
  obtain ⟨accepts, wrote⟩ := lengthHeader.writeFrames_eq
    (sent.map fun one => (one.1.writeFramed, one.2))
    (by
      intro one member
      obtain ⟨message, _, rfl⟩ := List.mem_map.mp member
      exact message.1.writes)
    (by
      intro one member
      obtain ⟨message, inside, rfl⟩ := List.mem_map.mp member
      exact short message inside) sink opened
  refine ⟨_, _, wrote, rfl, ?_⟩
  intro source fuel unread enough
  apply lengthHeader.readFrames_frames (by decide) (fun k => (readers k).reads)
  · intro payload member
    obtain ⟨message, inside, rfl⟩ := List.mem_map.mp member
    exact short message inside
  · intro payload member
    obtain ⟨message, inside, rfl⟩ := List.mem_map.mp member
    exact within message inside
  · rw [List.length_map]
    exact enough
  · rw [unread, List.flatMap_map, List.flatMap_map]

/-- Framing is an exact, self-delimiting code between any two of the four implementations. -/
theorem framing_exact (maxLen : Nat) :
    (∀ (writer reader : Program) (payload : List UInt8) (sink : Sink),
      payload.length < 2 ^ 32 → sink.Fits (4 + payload.length) →
        ∃ bytes, Carries writer reader payload maxLen sink bytes) ∧
    (∀ (writer : Program) (payload : List UInt8) (sink : Sink), 2 ^ 32 ≤ payload.length →
      ∃ message, writer.writeFramed payload sink = (.error (.invalidInput message), sink)) ∧
    (∀ (sent : List (Program × List UInt8)) (readers : Nat → Program),
      (∀ one ∈ sent, one.2.length < 2 ^ 32) → (∀ one ∈ sent, one.2.length ≤ maxLen) →
        ∀ sink : Sink, sink.room = none →
          ∃ bytes left,
            writeFrames (sent.map fun one => (one.1.writeFramed, one.2)) sink =
              (.ok (), left) ∧
            left.written = sink.written ++ bytes ∧
            ∀ (source : Wire.Source) (fuel : Nat), source.unread = bytes → sent.length < fuel →
              ∃ after, readFrames (fun k => (readers k).readFramed) maxLen fuel 0 source =
                (.ok (sent.map Prod.snd), after) ∧ after.unread = []) := by
  refine ⟨?_, ?_, ?_⟩
  · intro writer reader payload sink short fits
    exact ⟨_, carries writer reader short maxLen fits⟩
  · intro writer payload sink large
    exact writer.writes.refuses payload sink large
  · intro sent readers short within sink opened
    exact frames_return sent readers maxLen short within sink opened

/-- Two bytes from the hypervisor to the guest, over a fresh connection. -/
theorem framing_two_bytes :
    ∃ bytes, Carries .omegaHypervisor .guestAgent [104, 105] 4096
      { written := [], accepts := [], room := none } bytes :=
  (framing_exact 4096).1 .omegaHypervisor .guestAgent [104, 105]
    { written := [], accepts := [], room := none } (by decide) (Sink.fits_of_open rfl _)

end KernelOmega
