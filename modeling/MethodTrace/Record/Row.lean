import MethodTrace.Call.Stack

/-!
# Rows

The text of a trace. There are two layouts, each with a header: one row per call and return, or one row per call
with its caller. Names and paths stand between quotes, with each quote inside written twice. A mark is a line of
its own between rows.
-/

namespace MethodTrace

/-- What a trace has a row for. -/
inductive Layout where
  /-- Every call and every return. -/
  | events
  /-- Every call, with its caller. -/
  | edges
  deriving DecidableEq, Repr

/-- The first line of a trace. -/
def Layout.header : Layout → String
  | events => "event,entity,method_name,method_level,filepath,lineno\n"
  | edges =>
    "entity,method_name,method_level,filepath,lineno,caller_entity,caller_method_name,caller_method_level\n"

namespace Row

/-- The inside of a quoted field: each quote is written twice. -/
def doubled : List Char → List Char
  | [] => []
  | c :: rest => if c = '\x22' then c :: c :: doubled rest else c :: doubled rest

/-- A text as a quoted field. -/
def field (text : String) : String :=
  "\"" ++ String.ofList (doubled text.toList) ++ "\""

/-- The columns of a method and the place of its event. -/
def place (event : Event) : String :=
  field event.method.entity ++ "," ++ field event.method.name ++ "," ++ event.method.level.word ++ "," ++
    field event.path ++ "," ++ toString event.line.toNat

/-- The row of a call or return. -/
def ofEvent (event : Event) : String :=
  event.kind.word ++ "," ++ place event ++ "\n"

/-- The level column of a caller. The root is on no level. -/
def callerLevel (caller : Frame) : String :=
  if caller.isRoot then unknownName else caller.event.method.level.word

/-- The row of a call and its caller. -/
def ofEdge (callee : Event) (caller : Frame) : String :=
  place callee ++ "," ++ field caller.event.method.entity ++ "," ++ field caller.event.method.name ++ "," ++
    callerLevel caller ++ "\n"

/-- The line of a mark. -/
def ofMark (label : String) : String :=
  "--- " ++ label ++ "\n"

end Row

end MethodTrace
