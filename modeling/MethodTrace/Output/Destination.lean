import MethodTrace.Text.Utf8

/-!
# Destinations

Where the bytes of a trace end up, and the ways in which that can go wrong: a destination may take only so many
bytes in all or at a time, take none, ask to be tried again, or refuse to flush. It may do so differently from one write
to the next. Whatever it took stays in `received`.
-/

namespace MethodTrace

/-- Why a write did not happen. -/
inductive WriteFault where
  /-- The destination has no room left. -/
  | full
  /-- The destination would not flush. -/
  | flushRefused
  /-- The destination took no byte of the buffer. -/
  | bufferStuck
  /-- The destination took no byte of a long line. -/
  | lineStuck
  /-- The output was released before. -/
  | released
  deriving DecidableEq, Repr

/-- What is said of a fault. -/
def WriteFault.message : WriteFault → String
  | full => "sink full"
  | flushRefused => "flush refused"
  | bufferStuck => "failed to write the buffered data"
  | lineStuck => "failed to write whole buffer"
  | released => "sink released"

/-- How a destination misbehaves in a write. -/
structure Behaviour where
  /-- How many bytes it takes in all. -/
  limit : Option Nat := none
  /-- How many bytes it takes at a time. -/
  chunk : Option Nat := none
  /-- Whether it takes no bytes beyond its limit, instead of failing. -/
  stalls : Bool := false
  refusesFlush : Bool := false
  /-- How often it asks to be tried again. -/
  interrupts : Nat := 0
  deriving DecidableEq, Repr

/-- How many of `length` bytes the next write takes, after `size` bytes in all. -/
def Behaviour.room (b : Behaviour) (size length : Nat) : Nat :=
  let piece := match b.chunk with
    | none => length
    | some chunk => min length chunk
  match b.limit with
  | none => piece
  | some limit => min piece (limit - size)

theorem Behaviour.room_le (b : Behaviour) (size length : Nat) : b.room size length ≤ length := by
  unfold room
  cases b.chunk <;> cases b.limit <;> dsimp only <;> omega

/-- How a destination misbehaves from here on. -/
structure Faults extends Behaviour where
  /-- How it misbehaves after the next write, after the one that follows, and so on. It stays as it is after the last. -/
  later : List Behaviour := []
  deriving DecidableEq, Repr

/-- What is left of the faults after a write. -/
def Faults.next (f : Faults) : Faults :=
  match f.later with
  | [] => f
  | behaviour :: later => { behaviour with later }

/-- A destination: what it took so far, and how it misbehaves from here on. -/
structure Destination where
  received : ByteArray := .empty
  faults : Faults := {}

namespace Destination

/-- The bytes received, as text. -/
def text (d : Destination) : String :=
  Text.ofBytes d.received

/-- How many of `length` bytes the next write takes. -/
def room (d : Destination) (length : Nat) : Nat :=
  d.faults.room d.received.size length

theorem room_le (d : Destination) (length : Nat) : d.room length ≤ length :=
  d.faults.room_le d.received.size length

/-- Take in some bytes. -/
def accept (d : Destination) (bytes : ByteArray) : Destination :=
  { received := d.received ++ bytes, faults := d.faults.next }

/-- Take in none. -/
def refused (d : Destination) : Destination :=
  { d with faults := d.faults.next }

/-- Be tried again. -/
def interrupted (d : Destination) : Destination :=
  { d with faults := { d.faults with interrupts := d.faults.interrupts - 1 } }

/-- What a write of some bytes comes to when the destination takes none of them. -/
def refusal (d : Destination) (stuck : WriteFault) : WriteFault :=
  if d.faults.chunk = some 0 ∨ d.faults.stalls then stuck else .full

/-- Write until the destination has all the bytes or will not go on, trying again when asked to. Returns the bytes
not taken; `stuck` is the fault if the destination takes nothing without failing. It may go on in another way after each
piece. -/
def writeAll (d : Destination) (bytes : ByteArray) (stuck : WriteFault) :
    Destination × ByteArray × Except WriteFault Unit :=
  if bytes.size = 0 then (d, bytes, .ok ())
  else if 0 < d.faults.interrupts then d.interrupted.writeAll bytes stuck
  else if d.room bytes.size = 0 then (d.refused, bytes, .error (d.refusal stuck))
  else
    (d.accept (bytes.extract 0 (d.room bytes.size))).writeAll
      (bytes.extract (d.room bytes.size) bytes.size) stuck
termination_by (d.faults.later.length, d.faults.interrupts + bytes.size)
decreasing_by
  · simp only [interrupted]
    exact Prod.Lex.right _ (by omega)
  · -- The piece that was taken counts only if the destination stays as it is.
    simp only [accept, Faults.next]
    split
    next steady =>
      rw [steady]
      exact Prod.Lex.right _ (by simp only [ByteArray.size_extract]; omega)
    next later changes =>
      rw [changes]
      exact Prod.Lex.left _ _ (Nat.lt_succ_self _)

/-- Ask the destination to pass on what it took. -/
def flush (d : Destination) : Except WriteFault Unit :=
  if d.faults.refusesFlush then .error .flushRefused else .ok ()

end Destination

end MethodTrace
