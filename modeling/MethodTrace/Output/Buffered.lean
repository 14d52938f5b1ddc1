import MethodTrace.Output.Destination

/-!
# Buffered output

Lines on their way to a destination. A line goes into the buffer if it fits and drives the buffer out first if it
does not; a line as long as the buffer goes straight through. What the destination received followed by what is
buffered is the stream of a trace, `Output.stream`.
-/

namespace MethodTrace

/-- A destination behind a buffer. -/
structure Output where
  destination : Destination
  buffer : ByteArray := .empty
  /-- What diagnostics call the destination. -/
  label : String

namespace Output

/-- The size of a buffer. -/
def bufferSize : Nat := 8192

/-- The bytes of a trace so far, received or buffered. -/
def stream (o : Output) : ByteArray :=
  o.destination.received ++ o.buffer

/-- Drive the buffer out. What the destination takes leaves the buffer, also if it fails in the end. -/
def drain (o : Output) : Output × Except WriteFault Unit :=
  let (destination, rest, result) := o.destination.writeAll o.buffer .bufferStuck
  ({ o with destination, buffer := rest }, result)

/-- Add a line to the buffer. -/
def keep (o : Output) (line : ByteArray) : Output :=
  { o with buffer := o.buffer ++ line }

/-- Write a line past the buffer. -/
def writeThrough (o : Output) (line : ByteArray) : Output × Except WriteFault Unit :=
  let (destination, _, result) := o.destination.writeAll line .lineStuck
  ({ o with destination }, result)

/-- Put a line where there is room for it, the buffer being driven out if need be. -/
def place (o : Output) (line : ByteArray) : Output × Except WriteFault Unit :=
  if bufferSize ≤ line.size then o.writeThrough line else (o.keep line, .ok ())

/-- Write a line. -/
def write (o : Output) (line : ByteArray) : Output × Except WriteFault Unit :=
  let spare := bufferSize - o.buffer.size
  if line.size < spare then (o.keep line, .ok ())
  else if spare < line.size then
    match o.drain with
    | (o, .error fault) => (o, .error fault)
    | (o, .ok ()) => o.place line
  else o.place line

/-- Drive the buffer out, then flush the destination. -/
def flush (o : Output) : Output × Except WriteFault Unit :=
  match o.drain with
  | (o, .error fault) => (o, .error fault)
  | (o, .ok ()) => (o, o.destination.flush)

/-- Let go of the destination. Whatever is still buffered is tried once more, without regard to the result. -/
def release (o : Output) : Destination :=
  o.drain.1.destination

/-- Flush, then let go of the destination. -/
def close (o : Output) : Destination × Except WriteFault Unit :=
  match o.flush with
  | (o, result) => (o.release, result)

/-- Let go of the destination without the buffer. -/
def abandon (o : Output) : Destination :=
  o.destination

end Output

/-- The output of a trace, until it is let go. -/
inductive Channel where
  | held (output : Output)
  | released (destination : Destination)

namespace Channel

/-- The destination, held or not. -/
def destination : Channel → Destination
  | held output => output.destination
  | released destination => destination

/-- Whether the output is still held. -/
def isHeld : Channel → Bool
  | held _ => true
  | released _ => false

/-- The bytes received or buffered so far. -/
def stream : Channel → ByteArray
  | held output => output.stream
  | released destination => destination.received

/-- Let the destination misbehave in another way from here on. -/
def setFaults (faults : Faults) : Channel → Channel
  | held output => held { output with destination := { output.destination with faults } }
  | released destination => released { destination with faults }

/-- Write a line. -/
def write (line : ByteArray) : Channel → Channel × Except WriteFault Unit
  | held output =>
    let (output, result) := output.write line
    (held output, result)
  | released destination => (released destination, .error .released)

/-- Drive the buffer out, if there is one. Returns nothing if the output was let go before. -/
def flush : Channel → Channel × Option (Except WriteFault Unit)
  | held output =>
    let (output, result) := output.flush
    (held output, some result)
  | released destination => (released destination, none)

/-- Flush and let go. -/
def close : Channel → Channel × Except WriteFault Unit
  | held output =>
    let (destination, result) := output.close
    (released destination, result)
  | released destination => (released destination, .ok ())

/-- Let go without the buffer. -/
def abandon : Channel → Channel
  | held output => released output.abandon
  | released destination => released destination

/-- Let go; whatever is buffered is tried once more. -/
def release : Channel → Channel
  | held output => released output.release
  | released destination => released destination

end Channel

end MethodTrace
