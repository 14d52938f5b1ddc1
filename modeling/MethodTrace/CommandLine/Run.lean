import MethodTrace.CommandLine.Arguments
import MethodTrace.CommandLine.Files
import MethodTrace.CommandLine.Summary
import MethodTrace.Script.Lines
import MethodTrace.Settings.Document

/-!
# Running the command line

Settings and script are read first, then the output is made and the script replayed into it. What the run wrote goes
to the output whether or not the replay reached its end.
-/

namespace MethodTrace
namespace CommandLine

/-- What a run leaves behind: its exit code and what it prints. -/
structure Report where
  exitCode : UInt32 := 0
  output : ByteArray := .empty
  errors : String := ""

/-- Why a run failed: what is said of it, and what is behind it. -/
structure Failure where
  message : String
  causes : List String := []

namespace Failure

/-- A failure with something said before it. -/
def within (f : Failure) (context : String) : Failure :=
  ⟨context, f.message :: f.causes⟩

/-- The failure of a session. -/
def ofSession (error : SessionError) : Failure :=
  ⟨error.message, (error.fault?.map WriteFault.message).toList⟩

/-- The failure of a replay. -/
def ofReplay (error : ReplayError) : Failure :=
  (ofSession error.cause).within error.message

/-- The causes as lines, numbered if there are more than one. -/
def causeLines (causes : List String) : String :=
  match causes with
  | [cause] => "    " ++ cause ++ "\n"
  | causes => String.join ((causes.zipIdx).map fun (cause, i) => "    " ++ toString i ++ ": " ++ cause ++ "\n")

/-- What is printed of a failure. -/
def text (f : Failure) : String :=
  "Error: " ++ f.message ++ "\n" ++
    if f.causes.isEmpty then "" else "\nCaused by:\n" ++ causeLines f.causes

end Failure

/-- The name and version of the program. -/
def versionText : String := "calltrace 0.3.1\n"

/-- How the program is used. -/
def helpText : String :=
  "Method-call tracer: replays runtime notifications into a CSV call graph\n\n" ++
  "Usage: calltrace [OPTIONS] <SCRIPT>\n\n" ++
  "Arguments:\n" ++
  "  <SCRIPT>  Recorded notification script (JSON lines, \x60-\x60 for stdin)\n\n" ++
  "Options:\n" ++
  "  -o, --output <FILE>           Write records to FILE instead of stdout\n" ++
  "  -e, --expr <EXPR>             Filter expression\n" ++
  "      --events                  Log every call and return instead of deduplicated call edges\n" ++
  "      --config <FILE>           Load tracer settings from a TOML file (flags override it)\n" ++
  "      --block-returns <POLICY>  How to treat block returns that surface above their call\n" ++
  "      --nearest-visible-caller  Report the nearest non-filtered ancestor as the caller\n" ++
  "      --root-calls              Also emit edges whose caller is the trace root\n" ++
  "  -c, --summary                 Print a summary of tracer counters to stderr\n" ++
  "      --debug                   Enable debug tracing output to stderr\n" ++
  "  -h, --help                    Print help\n" ++
  "  -V, --version                 Print version\n"

/-- What is said of a usage error. -/
def usageText : UsageError → String
  | .help => helpText
  | .version => versionText
  | .unknownArgument => "error: unexpected argument found\n"
  | .invalidValue => "error: invalid or missing value\n"
  | .tooManyValues => "error: unexpected value for an option that takes none\n"
  | .repeated => "error: an option cannot be used multiple times\n"
  | .missingScript => "error: the script is missing\n"

/-- The report of a run that does not take place. -/
def reportUsage (error : UsageError) : Report :=
  match error with
  | .help | .version => { output := (usageText error).toUTF8 }
  | _ => { exitCode := 2, errors := usageText error }

/-- The settings in a file. -/
def settingsFrom (path : String) (file : FileRead) : Except Failure Settings :=
  let text? := match file with
    | .contents bytes => String.fromUTF8? bytes
    | _ => none
  match text? with
  | none => .error ⟨"Failed to read config " ++ path, []⟩
  | some text => (Settings.ofToml text).mapError fun error => { message := "In " ++ path, causes := [error.message] }

/-- The settings with what the options say about them. -/
def overridden (settings : Settings) (o : Options) : Except Failure Settings :=
  match o.filter.mapM Filter.ofExpression with
  | .error bad => .error ⟨bad.message, []⟩
  | .ok filter => .ok { settings with
      flatten := settings.flatten && !o.events
      filter := filter.getD settings.filter
      blockReturns := o.blockReturns.getD settings.blockReturns
      callerRule := if o.nearestVisibleCaller then .nearestVisible else settings.callerRule
      rootCalls := settings.rootCalls || o.rootCalls }

/-- The script in a file. -/
def scriptFrom (path : String) (file : FileRead) : Except Failure (List Operation) :=
  let context := "In script " ++ path
  match file with
  | .missing => .error ⟨"Failed to open script " ++ path, []⟩
  | .unreadable => .error ⟨context, [(ScriptError.unreadable 1).message]⟩
  | .contents bytes => (Script.parse bytes).mapError fun error => ⟨context, [error.message]⟩

/-- The least process number that no fork of the script names, so that each of them leads to another process. -/
def freshProcess (script : List Operation) : ProcessId :=
  let named := script.filterMap fun
    | .fork process => some process
    | _ => none
  let candidates := (List.range (named.length + 1)).map fun n => UInt32.ofNat (n + 1)
  (candidates.find? fun process => !named.contains process).getD 0

/-- The report of a run whose session could not be opened. Running out of room is no failure like the others, and has
an exit code of its own. -/
def reportOpenError : OpenError → Report
  | .header fault => { exitCode := 1, errors := (Failure.ofSession (.header fault)).text }
  | .stack error => { exitCode := 101, errors := error.message ++ "\n" }

/-- What a replay into some output comes to: the bytes written, the report without them, and the diagnostics. -/
def replayInto (settings : Settings) (label : String) (script : List Operation) (o : Options) :
    ByteArray × Report :=
  let host : Host := { process := freshProcess script }
  match Session.create settings { destination := {}, label } host with
  | .error failure => (failure.destination.received, reportOpenError failure.error)
  | .ok session =>
    let (replay, result) := Replay.run session {} script
    let (session, result) : Session × Except Failure Unit := match result with
      | .error error => (replay.session, .error (.ofReplay error))
      | .ok () =>
        let (session, closed) := replay.session.close
        (session, closed.mapError .ofSession)
    let session := session.drop
    let said := if o.debug then String.join (session.log.toList.map (·.line ++ "\n")) else ""
    let report : Report := match result with
      | .error failure => { exitCode := 1, errors := said ++ failure.text }
      | .ok () =>
        { errors := said ++
            if o.summary then Summary.ofCounters session.counters ++ Summary.ofTotals replay.totals else "" }
    (session.destination.received, report)

/-- Whether a path stands for the standard input: a dash, with nothing behind it that leads elsewhere. -/
def isStandardInput (path : String) : Bool :=
  match path.splitOn "/" with
  | "-" :: rest => rest.all fun part => part = "" || part = "."
  | _ => false

variable {m : Type → Type} [Monad m]

/-- Run with the given options. -/
def runWith (files : Files m) (o : Options) : ExceptT Failure m Report := do
  let settings ← match o.config with
    | none => pure {}
    | some path => settingsFrom path (← files.read path)
  let settings ← overridden settings o
  let script ←
    if isStandardInput o.script then
      (Script.parse (← files.standardInput)).mapError fun error => (⟨error.message, []⟩ : Failure)
    else scriptFrom o.script (← files.read o.script)
  match o.output with
  | none =>
    let (bytes, report) := replayInto settings "<stdout>" script o
    return { report with output := bytes }
  | some path =>
    if ← files.create path then
      let (bytes, report) := replayInto settings path script o
      files.fill path bytes
      return report
    else throw (Failure.ofSession (.unavailable path))

/-- Run the command line. -/
def run (files : Files m) (arguments : List String) : m Report := do
  match parse arguments with
  | .error error => return reportUsage error
  | .ok o =>
    match ← (runWith files o).run with
    | .ok report => return report
    | .error failure => return { exitCode := 1, errors := failure.text }

end CommandLine
end MethodTrace
