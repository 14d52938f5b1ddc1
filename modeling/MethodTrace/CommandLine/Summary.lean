import MethodTrace.Replay
import MethodTrace.Text.Digits

/-!
# The summary of a run

The counters of a session and the totals of a replay as a table of two columns, under a title in a box.
-/

namespace MethodTrace
namespace Summary

/-- One line of the table. -/
def line (label : String) (count : Nat) : String :=
  Text.padEnd ' ' 30 label ++ " " ++ Text.padStart ' ' 12 (toString count) ++ "\n"

/-- A character many times over. -/
def rule (length : Nat) (c : Char) : String :=
  String.ofList (List.replicate length c)

/-- The title. -/
def title : String :=
  "\n╔" ++ rule 60 '═' ++ "╗\n" ++ "║" ++ Text.padEnd ' ' 60 "  Call Trace Summary" ++ "║\n" ++
    "╚" ++ rule 60 '═' ++ "╝\n\n"

/-- The counters, without those that stay hidden while they are zero. -/
def ofCounters (c : Counters) : String :=
  title ++
  line "Notifications" c.events ++
  line "Calls tracked" c.calls ++
  line "Returns matched" c.returns ++
  line "Records written" c.records ++
  line "Duplicate edges" c.duplicates ++
  line "Suppressed calls" c.suppressed ++
  line "Unmatched returns" c.unmatchedReturns ++
  line "Block returns" c.blockReturns ++
  line "Max stack depth" c.maxDepth ++
  (if c.writeErrors = 0 then "" else line "Write errors" c.writeErrors) ++
  rule 43 '─' ++ "\n" ++
  String.join (IgnoreReason.all.map fun reason =>
    if c.ignored.count reason = 0 then "" else line ("Ignored (" ++ reason.words ++ ")") (c.ignored.count reason)) ++
  line "Ignored total" c.ignored.total

/-- The totals of a replay. -/
def ofTotals (t : ReplayTotals) : String :=
  "\n" ++
  line "Script operations" t.operations ++
  line "Delivered notifications" t.delivered ++
  line "Undelivered (tracing off)" t.undelivered

end Summary
end MethodTrace
