import CapabilityMachine.Host.Action
import CapabilityMachine.Host.World
import CapabilityMachine.Integer
import CapabilityMachine.Random.Uniform
/-!
# Standard actions

The host actions that come with the machine: consoles, clocks and random streams. A device is such
an action together with its own state. Everything but the monotonic clock, which looks at the
world's time, is determined by how the device was made and what it was given so far.
-/

namespace CapabilityMachine

/-- Where the lines of a console go. -/
inductive Sink where
  /-- To the world's captured console. -/
  | captured
  /-- To a writer that accepts everything. -/
  | writer
  /-- To a writer that fails to write, for the given reason. -/
  | failingWrite (reason : String)
  /-- To a writer that fails to flush what it has accepted, for the given reason. The text is
  lost. -/
  | failingFlush (reason : String)
deriving DecidableEq, Repr

/-- Writes a line to the sink. -/
def Sink.writeLine (sink : Sink) (line : String) (world : World) :
    Except RuntimeError Unit × World :=
  match sink with
  | captured => (.ok (), { world with console := world.console.push line })
  | writer => (.ok (), { world with written := world.written ++ line ++ "\n" })
  | failingWrite reason | failingFlush reason =>
    (.error (.hostFailure s!"console write failed: {reason}"), world)

/-- The devices that a host can offer. -/
inductive Device where
  /-- Writes the text of its argument as a line. -/
  | console (sink : Sink)
  /-- Tells the time since the host started. -/
  | monotonicClock
  /-- Tells the time `now`, and moves on by `step`. -/
  | steppedClock (now step : Int64)
  /-- Draws a 32-bit number from a stream. -/
  | seededRandom (stream : ChaCha.Stream)
  /-- Draws a number between two given ones from a stream. -/
  | seededRange (stream : ChaCha.Stream)
deriving DecidableEq, Repr

namespace Device

/-- The signature of the device. -/
def signature : Device → Signature
  | console _ => { name := "console.write_line", params := [.any] }
  | monotonicClock | steppedClock _ _ => { name := "clock.now", returns := .exactly .int }
  | seededRandom _ => { name := "random.next", returns := .exactly .int }
  | seededRange _ =>
    { name := "random.range"
      params := [.exactly .int, .exactly .int]
      returns := .exactly .int }

/-- A console writes the text of its first argument. Without one, the line is empty. -/
def writeArgument (sink : Sink) (arguments : List Value) (world : World) :
    Response Device World :=
  let line := (arguments.head?.map toString).getD ""
  let (outcome, world) := sink.writeLine line world
  ⟨outcome.map fun _ => .unit, .console sink, world⟩

/-- The outcome of drawing from the range between the first two arguments, which have to be integers
in ascending order, and the stream behind the draw. A failed call draws nothing. -/
def drawBetween (stream : ChaCha.Stream) (arguments : List Value) :
    Except RuntimeError Value × ChaCha.Stream :=
  match arguments with
  | .int low :: .int high :: _ =>
    if low < high then
      let (number, rest) := Uniform.between low.toInt high.toInt stream
      (.ok (.int (Int64.ofInt number)), rest)
    else
      (.error (.hostFailure s!"random.range: empty range [{low}, {high})"), stream)
  | _ => (.error (.hostFailure "random.range expects two ints"), stream)

/-- Performs the device's action. Clocks do not run over: they stay at the first or last 64-bit
integer when they get there. -/
def perform (device : Device) (arguments : List Value) (world : World) :
    Response Device World :=
  match device with
  | console sink => writeArgument sink arguments world
  | monotonicClock =>
    ⟨.ok (.int (clampInt64 world.elapsed)), monotonicClock,
      { world with elapsed := world.elapsed + 1 }⟩
  | steppedClock now step =>
    ⟨.ok (.int now), steppedClock (clampInt64 (now.toInt + step.toInt)) step, world⟩
  | seededRandom stream =>
    let (word, rest) := stream.nextWord
    ⟨.ok (.int (Int64.ofNat word.toNat)), seededRandom rest, world⟩
  | seededRange stream =>
    let (outcome, rest) := drawBetween stream arguments
    ⟨outcome, seededRange rest, world⟩

theorem signature_perform (device : Device) (arguments : List Value) (world : World) :
    (device.perform arguments world).next.signature = device.signature := by
  cases device <;> rfl

instance : HostAction Device World where
  signature := signature
  perform := perform

instance : LawfulHostAction Device where
  signature_next := signature_perform

end Device

end CapabilityMachine
