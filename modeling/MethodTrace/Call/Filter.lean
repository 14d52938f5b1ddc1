import MethodTrace.Call.Event
import MethodTrace.Text.Blank
import MethodTrace.Text.Parts

/-!
# Filters

Which calls leave no record. A call can be hidden by the path it is made at or by the entity it belongs to.
A filter is written as an expression, `exclude=` or `only=` followed by a list with commas.
-/

namespace MethodTrace

/-- Which calls are hidden. -/
inductive Filter where
  /-- None. -/
  | nothing
  /-- Those whose path holds one of the fragments. -/
  | paths (fragments : List String)
  /-- Those of any entity but these, which are distinct and in increasing order. -/
  | allBut (entities : List String)
  deriving DecidableEq, Repr

/-- The distinct members of a list in increasing order. -/
def sortedDistinct (names : List String) : List String :=
  (names.mergeSort fun a b => decide (a ≤ b)).eraseDups

namespace Filter

/-- Hide the calls whose path holds a fragment. An empty fragment would hide every call, and is dropped. -/
def exclude (fragments : List String) : Filter :=
  match fragments.filter (· ≠ "") with
  | [] => .nothing
  | kept => .paths kept

/-- Hide the calls of every entity that is not listed. -/
def only (entities : List String) : Filter :=
  .allBut (sortedDistinct entities)

/-- Whether nothing is hidden. -/
def hidesNothing : Filter → Bool
  | nothing => true
  | _ => false

/-- Whether an event is hidden. -/
def hides : Filter → Event → Bool
  | nothing, _ => false
  | paths fragments, event => fragments.any fun part => Text.occursIn part.toList event.path.toList
  | allBut entities, event => !entities.contains event.method.entity

/-! ### Expressions -/

/-- The parts of a list with commas, without blanks around them; empty parts are dropped. -/
def listParts (text : List Char) : List String :=
  (((Text.cutAt ',' text).map Text.trimChars).filter (· ≠ [])).map String.ofList

/-- A filter expression that is neither form. -/
structure BadExpression where
  expression : String
  deriving DecidableEq, Repr

/-- What is said of a bad expression. -/
def BadExpression.message (bad : BadExpression) : String :=
  "Invalid filter expression: " ++ bad.expression ++ ". Expected format: exclude=PATHS or only=ENTITIES"

/-- Read a filter expression. -/
def ofExpression (expression : String) : Except BadExpression Filter :=
  match Text.behind? "exclude=".toList expression.toList with
  | some list => .ok (exclude (listParts list))
  | none =>
    match Text.behind? "only=".toList expression.toList with
    | some list => .ok (only (listParts list))
    | none => .error ⟨expression⟩

end Filter

end MethodTrace
