import MethodTrace.Script.Reading
import MethodTrace.Text.Blank

/-!
# Script files

A script has one operation a line. Blank lines and lines that begin with `#` are passed over but counted, so that an
error names the line one would look for. The lines must be UTF-8. A carriage return before the line feed is blank.
-/

namespace MethodTrace

/-- Why a script cannot be read, with the line, counted from one. -/
inductive ScriptError where
  | unreadable (line : Nat)
  | invalid (line : Nat)
  deriving DecidableEq, Repr

/-- What is said of a script error. -/
def ScriptError.message : ScriptError → String
  | unreadable line => "Failed to read script line " ++ toString line
  | invalid line => "Invalid script operation on line " ++ toString line

namespace Script

/-- Put a byte before the lines that follow it. A line feed ends a line. -/
def addByte (b : UInt8) (lines : List (List UInt8)) : List (List UInt8) :=
  if b = 0x0a then [] :: lines
  else
    match lines with
    | [] => [[b]]
    | line :: lines => (b :: line) :: lines

/-- The lines of a text. Each ends at a line feed, and the last one at the end of the text if anything is left. -/
def linesOf (bytes : List UInt8) : List (List UInt8) :=
  bytes.foldr addByte []

/-- A line's operation, if the line has one, by a reader of operations. -/
def readLine {α : Type} (read : List Char → Option α) (number : Nat) (line : List UInt8) :
    Except ScriptError (Option α) :=
  match String.fromUTF8? ⟨line.toArray⟩ with
  | none => .error (.unreadable number)
  | some text =>
    let text := Text.trimChars text.toList
    if text = [] ∨ text.head? = some '#' then .ok none
    else
      match read text with
      | some operation => .ok (some operation)
      | none => .error (.invalid number)

/-- The operations of a script, by a reader of operations. -/
def parseWith {α : Type} (read : List Char → Option α) (bytes : List UInt8) : Except ScriptError (List α) :=
  (((linesOf bytes).zipIdx 1).mapM fun (line, number) => readLine read number line).map List.reduceOption

/-- The operations of a script. -/
def parse (bytes : ByteArray) : Except ScriptError (List Operation) :=
  parseWith Operation.ofLine? bytes.data.toList

end Script

end MethodTrace
