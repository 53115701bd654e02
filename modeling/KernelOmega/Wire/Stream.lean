import Mathlib.Data.List.Basic

/-!
# Byte streams and their loops

The two ends of a connection, for code that reads and writes whole buffers. One call
of `read` hands over as many bytes as have arrived, one call of `write` takes as many
as the other side has room for; `readExact` and `writeAll` are the loops that make up
for it. What the loops do does not depend on the pieces the bytes travel in:
`readExact_enough`, `readExact_short`, `writeAll_fits` and `writeAll_breaks`.
-/

namespace Wire

/-- The errors of the standard library's `io` that the framing can end in. -/
inductive IoError
  | invalidInput (message : String)
  | invalidData (message : String)
  | unexpectedEof
  | writeZero
  | brokenPipe
  deriving DecidableEq

/-- The reading end: the bytes not read yet, and for each call how many more than one
of them have arrived. A call past the end of `arrivals` finds everything. -/
structure Source where
  unread : List UInt8
  arrivals : List Nat
  deriving DecidableEq

/-- The writing end: the bytes sent, for each call how many more than one are taken, and
how many bytes are taken before the other side hangs up, if it does. -/
structure Sink where
  written : List UInt8
  accepts : List Nat
  room : Option Nat
  deriving DecidableEq

/-- Code that reads: it may fail, and what it has read stays read. -/
abbrev Reading (α : Type) := Source → Except IoError α × Source

/-- Code that writes: it may fail, and what it has written stays written. -/
abbrev Writing (α : Type) := Sink → Except IoError α × Sink

section Sequencing

variable {σ α β : Type}

/-- Run `first`, then `next` on its result; a failure of `first` ends the run. -/
def andThen (first : σ → Except IoError α × σ) (next : α → σ → Except IoError β × σ) :
    σ → Except IoError β × σ := fun s =>
  match first s with
  | (.ok a, s') => next a s'
  | (.error e, s') => (.error e, s')

theorem andThen_ok {first : σ → Except IoError α × σ} {next : α → σ → Except IoError β × σ}
    {s s' : σ} {a : α} (done : first s = (.ok a, s')) : andThen first next s = next a s' := by
  simp only [andThen, done]

theorem andThen_error {first : σ → Except IoError α × σ}
    {next : α → σ → Except IoError β × σ} {s s' : σ} {e : IoError}
    (failed : first s = (.error e, s')) : andThen first next s = (.error e, s') := by
  simp only [andThen, failed]

end Sequencing

/-! ## Reading -/

/-- One call with room for `size` bytes. -/
def read (size : Nat) (source : Source) : List UInt8 × Source :=
  let count := min size (source.arrivals.headD source.unread.length + 1)
  (source.unread.take count,
    { unread := source.unread.drop count, arrivals := source.arrivals.tail })

/-- Read until the buffer of `size` bytes is full; a call that finds nothing is the end
of the stream. -/
def readExact (size : Nat) : Reading (List UInt8) := fun source =>
  if size = 0 then (.ok [], source)
  else
    match read size source with
    | ([], left) => (.error .unexpectedEof, left)
    | (byte :: bytes, left) =>
      match readExact (size - (byte :: bytes).length) left with
      | (.ok more, left) => (.ok (byte :: bytes ++ more), left)
      | (.error e, left) => (.error e, left)
  termination_by size
  decreasing_by simp only [List.length_cons]; omega

theorem readExact_zero (source : Source) : readExact 0 source = (.ok [], source) := by
  rw [readExact, if_pos rfl]

theorem readExact_eof {size : Nat} {source left : Source} (some : size ≠ 0)
    (found : read size source = ([], left)) :
    readExact size source = (.error .unexpectedEof, left) := by
  rw [readExact, if_neg some, found]

/-- One call of `read` and the rest of the loop. -/
theorem readExact_step {size : Nat} {source left : Source} {bytes : List UInt8}
    (some : size ≠ 0) (found : read size source = (bytes, left)) (nonempty : bytes ≠ []) :
    readExact size source =
      match readExact (size - bytes.length) left with
      | (.ok more, left) => (.ok (bytes ++ more), left)
      | (.error e, left) => (.error e, left) := by
  cases bytes with
  | nil => exact absurd rfl nonempty
  | cons byte bytes => rw [readExact, if_neg some, found]

/-- With enough bytes to come, the buffer is filled with the next ones and the rest stays
unread, in whatever pieces they arrive. -/
theorem readExact_enough (size : Nat) (source : Source) (enough : size ≤ source.unread.length) :
    ∃ arrivals, readExact size source =
      (.ok (source.unread.take size), { unread := source.unread.drop size, arrivals }) := by
  induction size using Nat.strongRecOn generalizing source with
  | _ size ih =>
    by_cases none : size = 0
    · subst none
      exact ⟨source.arrivals, readExact_zero source⟩
    · -- one call takes at least one byte, the loop takes the rest
      obtain ⟨count, countEq⟩ : ∃ count,
          count = min size (source.arrivals.headD source.unread.length + 1) := ⟨_, rfl⟩
      have found : read size source = (source.unread.take count,
          { unread := source.unread.drop count, arrivals := source.arrivals.tail }) := by
        rw [countEq]
        rfl
      have length : (source.unread.take count).length = count := by
        rw [List.length_take]
        omega
      have nonempty : source.unread.take count ≠ [] := by
        intro nothing
        rw [nothing, List.length_nil] at length
        omega
      obtain ⟨arrivals, rest⟩ := ih (size - count) (by omega)
        { unread := source.unread.drop count, arrivals := source.arrivals.tail }
        (by rw [List.length_drop]; omega)
      refine ⟨arrivals, ?_⟩
      rw [readExact_step none found nonempty, length, rest]
      have sum : count + (size - count) = size := by omega
      simp only [List.drop_drop, ← List.take_add, sum]

/-- With too few bytes to come, the loop reads them all and fails. -/
theorem readExact_short (size : Nat) (source : Source) (short : source.unread.length < size) :
    ∃ arrivals, readExact size source = (.error .unexpectedEof, { unread := [], arrivals }) := by
  induction size using Nat.strongRecOn generalizing source with
  | _ size ih =>
    have some : size ≠ 0 := by omega
    obtain ⟨count, countEq⟩ : ∃ count,
        count = min size (source.arrivals.headD source.unread.length + 1) := ⟨_, rfl⟩
    have found : read size source = (source.unread.take count,
        { unread := source.unread.drop count, arrivals := source.arrivals.tail }) := by
      rw [countEq]
      rfl
    by_cases nothing : source.unread = []
    · rw [nothing, List.take_nil, List.drop_nil] at found
      exact ⟨source.arrivals.tail, readExact_eof some found⟩
    · have bytes := List.length_pos_of_ne_nil nothing
      have nonempty : source.unread.take count ≠ [] := by
        intro empty
        rcases List.take_eq_nil_iff.mp empty with zero | nil
        · omega
        · exact nothing nil
      have taken : (source.unread.take count).length = min count source.unread.length :=
        List.length_take
      obtain ⟨arrivals, rest⟩ := ih (size - (source.unread.take count).length) (by omega)
        { unread := source.unread.drop count, arrivals := source.arrivals.tail }
        (by rw [List.length_drop]; omega)
      exact ⟨arrivals, by rw [readExact_step some found nonempty, rest]⟩

/-! ## Writing -/

/-- One call with these bytes: how many of them were taken. -/
def write (bytes : List UInt8) (sink : Sink) : Except IoError Nat × Sink :=
  let offered := min bytes.length (sink.accepts.headD bytes.length + 1)
  match sink.room with
  | none => (.ok offered,
      { sink with written := sink.written ++ bytes.take offered, accepts := sink.accepts.tail })
  | some 0 => (.error .brokenPipe, { sink with accepts := sink.accepts.tail })
  | some (room + 1) =>
    let taken := min offered (room + 1)
    (.ok taken,
      { written := sink.written ++ bytes.take taken
        accepts := sink.accepts.tail
        room := some (room + 1 - taken) })

/-- Write until every byte is taken; a call that takes nothing is a failure. -/
def writeAll (bytes : List UInt8) : Writing Unit := fun sink =>
  match bytes with
  | [] => (.ok (), sink)
  | byte :: more =>
    match write (byte :: more) sink with
    | (.ok 0, left) => (.error .writeZero, left)
    | (.ok (taken + 1), left) => writeAll (more.drop taken) left
    | (.error e, left) => (.error e, left)
  termination_by bytes.length
  decreasing_by simp only [List.length_drop, List.length_cons]; omega

namespace Sink

/-- The other side takes this many more bytes. -/
def Fits (sink : Sink) (count : Nat) : Prop := ∀ room ∈ sink.room, count ≤ room

theorem fits_of_open {sink : Sink} (opened : sink.room = none) (count : Nat) :
    sink.Fits count := by
  intro room held
  rw [opened] at held
  exact absurd held (Option.not_mem_none room)

end Sink

theorem writeAll_nil (sink : Sink) : writeAll [] sink = (.ok (), sink) := by
  rw [writeAll]

/-- One call of `write` and the rest of the loop. -/
theorem writeAll_step {bytes : List UInt8} {sink left : Sink} {taken : Nat}
    (some : bytes ≠ []) (wrote : write bytes sink = (.ok taken, left)) (moved : 0 < taken) :
    writeAll bytes sink = writeAll (bytes.drop taken) left := by
  cases bytes with
  | nil => exact absurd rfl some
  | cons byte more =>
    cases taken with
    | zero => omega
    | succ taken => rw [writeAll, wrote, List.drop_succ_cons]

theorem writeAll_error {bytes : List UInt8} {sink left : Sink} {e : IoError}
    (some : bytes ≠ []) (failed : write bytes sink = (.error e, left)) :
    writeAll bytes sink = (.error e, left) := by
  cases bytes with
  | nil => exact absurd rfl some
  | cons byte more => rw [writeAll, failed]

/-- A call on a side that takes at least one more byte takes a nonempty piece. -/
theorem write_takes {bytes : List UInt8} {sink : Sink} (nonempty : bytes ≠ [])
    (room : sink.room ≠ some 0) :
    ∃ taken accepts, 0 < taken ∧ taken ≤ bytes.length ∧ sink.Fits taken ∧
      write bytes sink = (.ok taken,
        { written := sink.written ++ bytes.take taken
          accepts
          room := sink.room.map (· - taken) }) := by
  have length := List.length_pos_of_ne_nil nonempty
  obtain ⟨offered, offeredEq⟩ : ∃ offered,
      offered = min bytes.length (sink.accepts.headD bytes.length + 1) := ⟨_, rfl⟩
  cases held : sink.room with
  | none =>
    refine ⟨offered, sink.accepts.tail, by omega, by omega, sink.fits_of_open held offered, ?_⟩
    simp only [write, held, offeredEq, Option.map_none]
  | some space =>
    cases space with
    | zero => exact absurd held room
    | succ space =>
      refine ⟨min offered (space + 1), sink.accepts.tail, by omega, by omega, ?_, ?_⟩
      · intro room' member
        rw [held] at member
        have same := Option.some.inj member
        omega
      · simp only [write, held, offeredEq, Option.map_some]

/-- On a side that takes them all, every byte is written, in whatever pieces. -/
theorem writeAll_fits (bytes : List UInt8) (sink : Sink) (fits : sink.Fits bytes.length) :
    ∃ accepts, writeAll bytes sink = (.ok (),
      { written := sink.written ++ bytes
        accepts
        room := sink.room.map (· - bytes.length) }) := by
  induction length : bytes.length using Nat.strongRecOn generalizing bytes sink with
  | _ size ih =>
    by_cases nothing : bytes = []
    · subst nothing
      refine ⟨sink.accepts, ?_⟩
      rw [writeAll_nil, List.append_nil, ← length]
      simp
    · have some := List.length_pos_of_ne_nil nothing
      have room : sink.room ≠ Option.some 0 := by
        intro full
        have none := fits 0 full
        omega
      obtain ⟨taken, accepts, moved, within, fit, wrote⟩ := write_takes nothing room
      obtain ⟨accepts', rest⟩ := ih (bytes.drop taken).length
        (by rw [List.length_drop]; omega) (bytes.drop taken)
        { written := sink.written ++ bytes.take taken, accepts,
          room := sink.room.map (· - taken) } (by
            intro left member
            obtain ⟨before, held, rfl⟩ := Option.map_eq_some_iff.mp member
            have all := fits before held
            rw [List.length_drop]
            omega) rfl
      refine ⟨accepts', ?_⟩
      rw [writeAll_step nothing wrote moved, rest]
      simp only [List.append_assoc, List.take_append_drop, Option.map_map, List.length_drop,
        ← length]
      congr 3
      funext before
      simp only [Function.comp_apply]
      omega

/-- On a side that hangs up in between, the bytes it took are written and the loop fails. -/
theorem writeAll_breaks (bytes : List UInt8) (sink : Sink) (room : Nat)
    (held : sink.room = some room) (short : room < bytes.length) :
    ∃ accepts, writeAll bytes sink = (.error .brokenPipe,
      { written := sink.written ++ bytes.take room, accepts, room := some 0 }) := by
  induction room using Nat.strongRecOn generalizing bytes sink with
  | _ room ih =>
    have nothing : bytes ≠ [] := List.ne_nil_of_length_pos (by omega)
    by_cases full : room = 0
    · subst full
      have wrote : write bytes sink =
          (.error .brokenPipe, { sink with accepts := sink.accepts.tail }) := by
        simp only [write, held]
      refine ⟨sink.accepts.tail, ?_⟩
      rw [writeAll_error nothing wrote]
      simp [held]
    · obtain ⟨taken, accepts, moved, within, fit, wrote⟩ := write_takes nothing (by
        rw [held]
        intro zero
        exact full (Option.some.inj zero))
      have fewer := fit room held
      obtain ⟨accepts', rest⟩ := ih (room - taken) (by omega) (bytes.drop taken)
        { written := sink.written ++ bytes.take taken, accepts,
          room := sink.room.map (· - taken) }
        (by rw [held]; rfl) (by rw [List.length_drop]; omega)
      refine ⟨accepts', ?_⟩
      rw [writeAll_step nothing wrote moved, rest]
      have sum : taken + (room - taken) = room := by omega
      simp only [List.append_assoc, ← List.take_add, sum]

end Wire
