import KernelOmega.Executors.Framing
import KernelOmega.Messages.Guest

/-!
# The verdict of a guest

A task of `omega_hypervisor/src/main.rs` frames the payload of a capsule, and takes what its guest
answers for the verdict, or a failure of its own when anything goes wrong on the way: a payload over
the guest's limit, an answer over the host's, a connection that breaks off, a count that is no
`u32`. So the verdict of a pack is the funnel's or a failure, whatever the connection does, and it
is the funnel's exactly when both messages are within the limits and the counts are `u32`s.
-/

namespace KernelOmega

open Json Python Wire

variable {F : Type} (doubles : Doubles F) (parse : List Char → F)

/-- What becomes of a payload in the guest: an error before the funnel starts, a funnel that prints
nothing, or one that prints its record. -/
inductive GuestRun (F : Type) where
  | failed (message : String)
  | silent
  | printed (record : Funnel.Record) (times : FunnelTimes F)

namespace GuestAgent

/-- The limit on a payload. -/
def maxPayload : Nat := 4 * 1024 * 1024

/-- The bytes written for a run: `proc.stdout`, or the serialized `FailureResult`. -/
def answer : GuestRun F → ByteArray
  | .failed message => encodeUtf8 (toSerde doubles (.object (failureAttributes doubles message)))
  | .silent => ByteArray.empty
  | .printed record times => record.stdout doubles times

/-- The connection of `run`: what is written to it. -/
def serve (execute : GuestPayload → GuestRun F) (source : Wire.Source) (sink : Sink) : Sink :=
  match readFramed maxPayload source with
  | (.error _, _) => sink
  | (.ok buffer, _) =>
    match fromSlice parse GuestPayload.read (arrayOf buffer) with
    | none => sink
    | some payload => (writeFramed (listOf (answer doubles (execute payload))) sink).2

end GuestAgent

/-- How a connection treats the bytes of one direction: the pieces it takes, how many bytes it takes
before it breaks, the pieces it hands over, and how many bytes ever arrive. -/
structure Transit where
  accepts : List Nat
  room : Option Nat
  arrivals : List Nat
  delivered : Nat

namespace Transit

variable (transit : Transit)

def sink : Sink := { written := [], accepts := transit.accepts, room := transit.room }

/-- What arrives of the bytes that were written. -/
def source (written : List UInt8) : Wire.Source :=
  { unread := written.take transit.delivered, arrivals := transit.arrivals }

/-- So many bytes come through. -/
def Carries (count : Nat) : Prop := transit.sink.Fits count ∧ count ≤ transit.delivered

instance (sink : Sink) (count : Nat) : Decidable (sink.Fits count) :=
  inferInstanceAs (Decidable (∀ room ∈ sink.room, count ≤ room))

instance (count : Nat) : Decidable (transit.Carries count) :=
  inferInstanceAs (Decidable (_ ∧ _))

end Transit

namespace Hypervisor

/-- The limit on an answer. -/
def maxAnswer : Nat := 1024 * 1024

/-- The response of a task whose guest does not answer. -/
def vmFailure : GuestResponse F where
  success := false
  testsPassed := 0
  testsFailed := 1
  error := some "VMFailure"
  runtime := doubles.ofRat 0
  info := .object []

/-- What the answer of a guest is read as. -/
def response (source : Wire.Source) : GuestResponse F :=
  match OmegaHypervisor.readFramed maxAnswer source with
  | (.error _, _) => vmFailure doubles
  | (.ok buffer, _) =>
    (fromSlice parse (GuestResponse.read doubles) (arrayOf buffer)).getD (vmFailure doubles)

/-- The response of a task that has reached its guest. -/
def askGuest (there back : Transit) (execute : GuestPayload → GuestRun F)
    (capsule : TaskCapsule) : GuestResponse F :=
  let payload := (GuestPayload.ofCapsule capsule).bytes doubles
  match OmegaHypervisor.writeFramed (listOf payload) there.sink with
  | (.error _, _) => vmFailure doubles
  | (.ok (), sent) =>
    response doubles parse (back.source
      (GuestAgent.serve doubles parse execute (there.source sent.written) back.sink).written)

end Hypervisor

/-! ## One message -/

section Message

/-- The message a reader finds, if it finds one. -/
def found (reader : Program) (maxLen : Nat) (source : Wire.Source) : Option (List UInt8) :=
  match reader.readFramed maxLen source with
  | (.ok buffer, _) => some buffer
  | (.error _, _) => none

variable (writer reader : Program) (maxLen : Nat) (transit : Transit) (payload : List UInt8)

/-- What a reader makes of what arrives of a message. -/
def heard : Option (List UInt8) :=
  found reader maxLen (transit.source (writer.writeFramed payload transit.sink).2.written)

variable {writer reader maxLen transit payload}

theorem heard_of_error {e : IoError} {after : Wire.Source} (fails : reader.readFramed maxLen
    (transit.source (writer.writeFramed payload transit.sink).2.written) = (.error e, after)) :
    heard writer reader maxLen transit payload = none := by
  rw [heard, found, fails]

/-- What arrives of a part of a message is no message. -/
theorem heard_of_cut (short : payload.length < 2 ^ 32) {count : Nat}
    (fewer : count < 4 + payload.length) (written :
      (transit.source (writer.writeFramed payload transit.sink).2.written).unread =
        (lengthHeader.frame payload).take count) :
    heard writer reader maxLen transit payload = none := by
  have length := lengthHeader.length_frame payload
  have width : lengthHeader.width = 4 := rfl
  have prefixed : (transit.source (writer.writeFramed payload transit.sink).2.written).unread <+:
      lengthHeader.frame payload := by
    rw [written]
    exact List.take_prefix _ _
  have strict : (transit.source (writer.writeFramed payload transit.sink).2.written).unread ≠
      lengthHeader.frame payload := by
    rw [written]
    intro same
    have lengths := congrArg List.length same
    rw [List.length_take] at lengths
    omega
  obtain ⟨e, after, fails⟩ := error_of_cut reader short maxLen prefixed strict
  exact heard_of_error fails

/-- Where nothing arrives, reading a message is an error. -/
theorem error_of_nothing (reader : Program) (maxLen : Nat) {source : Wire.Source}
    (nothing : source.unread = []) : ∃ e after, reader.readFramed maxLen source = (.error e, after) := by
  have empty : ([] : List UInt8).length < 2 ^ 32 := by decide
  have prefixed : source.unread <+: lengthHeader.frame [] := by
    rw [nothing]
    exact List.nil_prefix
  have strict : source.unread ≠ lengthHeader.frame [] := by
    rw [nothing]
    intro same
    cases same
  exact error_of_cut reader empty maxLen prefixed strict

/-- A message is heard exactly when it is within the limit and comes through. -/
theorem heard_eq (limit : maxLen < 2 ^ 32) :
    heard writer reader maxLen transit payload =
      if payload.length ≤ maxLen ∧ transit.Carries (4 + payload.length) then some payload
      else none := by
  have length := lengthHeader.length_frame payload
  have width : lengthHeader.width = 4 := rfl
  by_cases short : payload.length < 2 ^ 32
  · by_cases fits : transit.sink.Fits (4 + payload.length)
    · have carries := carries writer reader short maxLen fits
      obtain ⟨left, wrote, written⟩ := carries.sent
      have arrives : (transit.source (writer.writeFramed payload transit.sink).2.written).unread =
          (lengthHeader.frame payload).take transit.delivered := by
        rw [wrote, written]
        rfl
      by_cases whole : 4 + payload.length ≤ transit.delivered
      · have all : (lengthHeader.frame payload).take transit.delivered =
            lengthHeader.frame payload ++ [] := by
          rw [List.append_nil, List.take_of_length_le (by omega)]
        rw [all] at arrives
        by_cases within : payload.length ≤ maxLen
        · obtain ⟨after, reads, -⟩ := carries.returned within [] _ arrives
          rw [if_pos ⟨within, fits, whole⟩, heard, found, reads]
        · obtain ⟨e, after, refused, -⟩ := carries.refused (not_le.mp within) [] _ arrives
          rw [if_neg fun both => within both.1]
          exact heard_of_error refused
      · rw [if_neg fun both => whole both.2.2]
        exact heard_of_cut short (not_le.mp whole) arrives
    · rw [if_neg fun both => fits both.2.1]
      obtain ⟨room, held, broken⟩ : ∃ room, transit.sink.room = some room ∧
          room < 4 + payload.length := by
        simpa [Sink.Fits] using fits
      obtain ⟨left, failed, written⟩ := writer.writes.prefix_of_breaks held (by omega) short
      have arrives : (transit.source (writer.writeFramed payload transit.sink).2.written).unread =
          (lengthHeader.frame payload).take (min transit.delivered room) := by
        rw [failed, ← List.take_take]
        exact congrArg (List.take transit.delivered) written
      exact heard_of_cut short (by omega) arrives
  · obtain ⟨message, refused⟩ := writer.writes.refuses payload transit.sink (not_lt.mp short)
    have nothing : (transit.source (writer.writeFramed payload transit.sink).2.written).unread =
        [] := by
      rw [refused]
      exact List.take_nil
    obtain ⟨e, after, fails⟩ := error_of_nothing reader maxLen nothing
    rw [if_neg fun both => short (lt_of_le_of_lt both.1 limit)]
    exact heard_of_error fails

/-- What is heard was sent without an error. -/
theorem sent_of_heard (limit : maxLen < 2 ^ 32) {buffer : List UInt8}
    (hears : heard writer reader maxLen transit payload = some buffer) :
    ∃ left, writer.writeFramed payload transit.sink = (.ok (), left) := by
  rw [heard_eq limit] at hears
  split at hears
  · next both =>
    have short : payload.length < 2 ^ 32 := lt_of_le_of_lt both.1 limit
    obtain ⟨left, wrote, -⟩ := (carries writer reader short maxLen both.2.1).sent
    exact ⟨left, wrote⟩
  · cases hears

end Message

/-! ## The exchange -/

/-- A guest answers what it has heard whole, and is silent otherwise. -/
theorem GuestAgent.serve_eq (execute : GuestPayload → GuestRun F) (source : Wire.Source)
    (sink : Sink) :
    serve doubles parse execute source sink =
      (((found .guestAgent maxPayload source).bind fun buffer =>
        fromSlice parse GuestPayload.read (arrayOf buffer)).map fun payload =>
          (writeFramed (listOf (answer doubles (execute payload))) sink).2).getD sink := by
  have same : GuestAgent.readFramed maxPayload source =
      Program.guestAgent.readFramed maxPayload source := rfl
  rw [serve, found, same]
  cases Program.guestAgent.readFramed maxPayload source with
  | mk result after =>
    cases result with
    | error e => rfl
    | ok buffer =>
      dsimp only
      rw [Option.bind_some]
      cases fromSlice parse GuestPayload.read (arrayOf buffer) <;> rfl

namespace Hypervisor

variable {there back : Transit} {execute : GuestPayload → GuestRun F} {capsule : TaskCapsule}

/-- The hypervisor's response is what it has heard whole, or a failure of its own making. -/
theorem response_eq (source : Wire.Source) :
    response doubles parse source =
      ((found .omegaHypervisor maxAnswer source).bind fun buffer =>
        fromSlice parse (GuestResponse.read doubles) (arrayOf buffer)).getD (vmFailure doubles) := by
  have same : OmegaHypervisor.readFramed maxAnswer source =
      Program.omegaHypervisor.readFramed maxAnswer source := rfl
  rw [response, found, same]
  cases Program.omegaHypervisor.readFramed maxAnswer source with
  | mk result after =>
    cases result with
    | error e => rfl
    | ok buffer => rfl

/-- A guest that closes the connection without an answer. -/
theorem response_of_nothing {source : Wire.Source} (nothing : source.unread = []) :
    response doubles parse source = vmFailure doubles := by
  obtain ⟨e, after, fails⟩ := error_of_nothing .omegaHypervisor maxAnswer nothing
  rw [response_eq, found, fails]
  rfl


/-- The answer of a guest to what it has heard. -/
def answered (back : Transit) (execute : GuestPayload → GuestRun F) (buffer : List UInt8) :
    Option (GuestResponse F) :=
  (fromSlice parse GuestPayload.read (arrayOf buffer)).bind fun payload =>
    (heard .guestAgent .omegaHypervisor maxAnswer back
      (listOf (GuestAgent.answer doubles (execute payload)))).bind fun answer =>
        fromSlice parse (GuestResponse.read doubles) (arrayOf answer)

/-- The task comes to a failure unless both messages are heard and the answer is read. -/
theorem askGuest_eq :
    askGuest doubles parse there back execute capsule =
      ((heard .omegaHypervisor .guestAgent GuestAgent.maxPayload there
        (listOf ((GuestPayload.ofCapsule capsule).bytes doubles))).bind
          (answered doubles parse back execute)).getD (vmFailure doubles) := by
  have limit : GuestAgent.maxPayload < 2 ^ 32 := by decide
  have nothing : response doubles parse (back.source back.sink.written) = vmFailure doubles :=
    response_of_nothing doubles parse List.take_nil
  rw [askGuest]
  cases wrote : OmegaHypervisor.writeFramed
      (listOf ((GuestPayload.ofCapsule capsule).bytes doubles)) there.sink with
  | mk sent left =>
    cases sent with
    | error e =>
      cases hears : heard .omegaHypervisor .guestAgent GuestAgent.maxPayload there
          (listOf ((GuestPayload.ofCapsule capsule).bytes doubles)) with
      | none => rfl
      | some buffer =>
        obtain ⟨left', sent⟩ := sent_of_heard limit hears
        cases wrote.symm.trans sent
    | ok _ =>
      have same : (Program.omegaHypervisor.writeFramed
          (listOf ((GuestPayload.ofCapsule capsule).bytes doubles)) there.sink).2 = left :=
        congrArg Prod.snd wrote
      dsimp only
      rw [GuestAgent.serve_eq, heard, same]
      cases found .guestAgent GuestAgent.maxPayload (there.source left.written) with
      | none => exact nothing
      | some buffer =>
        rw [Option.bind_some, Option.bind_some, answered]
        cases fromSlice parse GuestPayload.read (arrayOf buffer) with
        | none => exact nothing
        | some payload => exact response_eq doubles parse _

end Hypervisor

/-! ## The verdict -/

/-- The counts of a record are `u32`s. -/
def Funnel.Record.Counted (record : Funnel.Record) : Prop :=
  (0 ≤ record.testsPassed ∧ record.testsPassed < 2 ^ 32) ∧
    0 ≤ record.testsFailed ∧ record.testsFailed < 2 ^ 32

instance (record : Funnel.Record) : Decidable record.Counted :=
  inferInstanceAs (Decidable (_ ∧ _))

/-- What a run in the guest comes to, if its answer can be read. -/
def GuestRun.outcome (elapsed : Rat) : GuestRun F → Option TestOutcome
  | .failed message => some { error := some message, runtime := elapsed }
  | .silent => none
  | .printed record _ =>
    if record.Counted then
      some {
        success := record.success
        testsPassed := record.testsPassed
        testsFailed := record.testsFailed
        error := record.error.map String.ofList
        runtime := elapsed }
    else none

/-- The answer of a guest is read as what its run comes to. -/
theorem GuestAgent.read_answer (elapsed : Rat) (run : GuestRun F) :
    (fromSlice parse (GuestResponse.read doubles) (answer doubles run)).map
        (GuestResponse.outcome elapsed) = run.outcome elapsed := by
  cases run with
  | failed message =>
    have shape : (failureAttributes doubles message) = GuestResponse.members false 0 1
        (some message) (doubles.ofRat 0) (.object []) := rfl
    rw [answer, toSerde, fromSlice_text, shape, GuestResponse.reread_members,
      GuestResponse.read_members, if_pos (by decide)]
    rfl
  | silent => rfl
  | printed record times =>
    have blank : ∀ c ∈ ['\n'], Json.isBlank c = true := by
      intro c only
      rw [List.mem_singleton.mp only]
      rfl
    obtain ⟨info, shape⟩ : ∃ info, record.attributes times = GuestResponse.members record.success
        record.testsPassed record.testsFailed (record.error.map String.ofList) times.runtime info :=
      ⟨_, rfl⟩
    have text : dumps doubles (.object (record.attributes times)) ++ "\n" =
        String.ofList ((Layout.spaced ascii).write doubles.repr 0
          (.object (record.attributes times)) ++ ['\n']) := by
      rw [String.ofList_append]
      rfl
    rw [answer, Funnel.Record.stdout, text, fromSlice_write _ _ _ _ _ blank, shape,
      GuestResponse.reread_members, GuestResponse.read_members]
    change Option.map _ (if record.Counted then _ else _) = _
    rw [GuestRun.outcome]
    by_cases counted : record.Counted
    · rw [if_pos counted, if_pos counted, Option.map_some, GuestResponse.outcome]
      simp only [Int.toNat_of_nonneg counted.1.1, Int.toNat_of_nonneg counted.2.1]
    · rw [if_neg counted, if_neg counted, Option.map_none]

namespace Hypervisor

variable {there back : Transit} {execute : GuestPayload → GuestRun F} {capsule : TaskCapsule}

/-- What reaches the pack of a task whose guest does not answer. -/
def failure (elapsed : Rat) : TestOutcome := { error := some "VMFailure", runtime := elapsed }

/-- Both messages are within their limits and come through. -/
def Exchanged (there back : Transit) (payload answer : ByteArray) : Prop :=
  (payload.size ≤ GuestAgent.maxPayload ∧ there.Carries (4 + payload.size)) ∧
    answer.size ≤ maxAnswer ∧ back.Carries (4 + answer.size)

instance (there back : Transit) (payload answer : ByteArray) :
    Decidable (Exchanged there back payload answer) :=
  inferInstanceAs (Decidable (_ ∧ _))

/-- The snapshot of a payload for a capsule that was read is a `BTreeMap`. -/
theorem sorted_ofCapsule {bytes : ByteArray}
    (received : fromSlice parse readCapsule bytes = some capsule) :
    (GuestPayload.ofCapsule capsule).Sorted := by
  obtain ⟨text, -, loaded⟩ := Option.bind_eq_some_iff.mp received
  obtain ⟨document, -, read⟩ := Option.bind_eq_some_iff.mp loaded
  have sorted := readCapsule_sorted read
  exact sorted

/-- A guest that has heard the payload is heard when its answer comes through. -/
theorem answered_eq {payload : GuestPayload} (sorted : payload.Sorted) :
    answered doubles parse back execute (listOf (payload.bytes doubles)) =
      if (GuestAgent.answer doubles (execute payload)).size ≤ maxAnswer ∧
          back.Carries (4 + (GuestAgent.answer doubles (execute payload)).size) then
        fromSlice parse (GuestResponse.read doubles) (GuestAgent.answer doubles (execute payload))
      else none := by
  have limit : maxAnswer < 2 ^ 32 := by decide
  rw [answered, arrayOf_listOf, GuestPayload.fromSlice_bytes doubles parse sorted,
    Option.bind_some, heard_eq limit, length_listOf]
  split
  · rw [Option.bind_some, arrayOf_listOf]
  · rw [Option.bind_none]

/-- What an exchange comes to. -/
theorem outcome_askGuest {payload : GuestPayload} (sends : GuestPayload.ofCapsule capsule = payload)
    (sorted : payload.Sorted) (elapsed : Rat) :
    (askGuest doubles parse there back execute capsule).outcome elapsed =
      if Exchanged there back (payload.bytes doubles)
          (GuestAgent.answer doubles (execute payload)) then
        ((execute payload).outcome elapsed).getD (failure elapsed)
      else failure elapsed := by
  have limit : GuestAgent.maxPayload < 2 ^ 32 := by decide
  rw [askGuest_eq, sends, heard_eq limit, length_listOf]
  split
  · next sent =>
    rw [Option.bind_some, answered_eq doubles parse sorted]
    split
    · next came =>
      have exchanged : Exchanged there back (payload.bytes doubles)
          (GuestAgent.answer doubles (execute payload)) := ⟨sent, came⟩
      rw [if_pos exchanged, ← GuestAgent.read_answer doubles parse]
      exact (Option.getD_map _ _ _).symm
    · next lost =>
      have broken : ¬Exchanged there back (payload.bytes doubles)
          (GuestAgent.answer doubles (execute payload)) := fun both => lost both.2
      rw [if_neg broken]
      rfl
  · next lost =>
    have broken : ¬Exchanged there back (payload.bytes doubles)
        (GuestAgent.answer doubles (execute payload)) := fun both => lost both.1
    rw [if_neg broken]
    rfl

/-- The verdict the hypervisor takes for a capsule is what the run of its guest comes to, when both
messages are within their limits and come through and the counts are `u32`s; and it is its own
failure in every other case. A success is one the funnel printed, with the same counts. -/
theorem guest_verdict (there back : Transit) (execute : GuestPayload → GuestRun F)
    {bytes : ByteArray} {capsule : TaskCapsule}
    (received : fromSlice parse readCapsule bytes = some capsule) (elapsed : Rat) :
    let payload := GuestPayload.ofCapsule capsule
    let verdict := (askGuest doubles parse there back execute capsule).outcome elapsed
    (verdict =
      if Exchanged there back (payload.bytes doubles)
          (GuestAgent.answer doubles (execute payload)) then
        ((execute payload).outcome elapsed).getD (failure elapsed)
      else failure elapsed) ∧
    (verdict.success = true → ∃ record times, execute payload = .printed record times ∧
      record.success = true ∧ verdict.testsPassed = record.testsPassed ∧
        verdict.testsFailed = record.testsFailed) := by
  intro payload verdict
  have comes : verdict = _ :=
    outcome_askGuest doubles parse rfl (sorted_ofCapsule parse received) elapsed
  refine ⟨comes, fun success => ?_⟩
  rw [comes] at success ⊢
  split at success
  · next exchanged =>
    rw [if_pos exchanged]
    cases ran : execute payload with
    | failed message => rw [ran] at success; cases success
    | silent => rw [ran] at success; cases success
    | printed record times =>
      rw [ran, GuestRun.outcome] at success
      rw [GuestRun.outcome]
      split at success
      · next counted =>
        rw [if_pos counted]
        exact ⟨record, times, rfl, success, rfl, rfl⟩
      · cases success
  · cases success

section Passing

def openTransit : Transit where
  accepts := [3]
  room := none
  arrivals := [1, 5]
  delivered := 2 ^ 20

def passingRecord : Funnel.Record where
  success := true
  testsPassed := 2
  testsFailed := 0
  error := none
  failedStage := none
  fullSuiteAttempted := true

def passingRun : GuestRun Bool := .printed passingRecord { runtime := true, stages := [] }

set_option maxRecDepth 20000 in
/-- A capsule goes to the guest and its two passing tests come back, in pieces on both ways. -/
theorem guest_verdict_passing :
    (askGuest twoDoubles twoDoubles.parse openTransit openTransit (fun _ => passingRun)
      twoFiles.sorted).outcome 1 =
        { success := true, testsPassed := 2, testsFailed := 0, runtime := 1 } := by
  have received : fromSlice twoDoubles.parse readCapsule
      (encodeUtf8 (twoFiles.toJson twoDoubles)) = some twoFiles.sorted :=
    (fromSlice_toJson twoDoubles twoDoubles.parse (by decide)).trans (if_pos (by decide))
  have exchanged : Exchanged openTransit openTransit
      ((GuestPayload.ofCapsule twoFiles.sorted).bytes twoDoubles)
      (GuestAgent.answer twoDoubles passingRun) := by decide
  rw [(guest_verdict twoDoubles twoDoubles.parse openTransit openTransit (fun _ => passingRun)
    received 1).1, if_pos exchanged]
  rfl

end Passing

end Hypervisor

end KernelOmega
