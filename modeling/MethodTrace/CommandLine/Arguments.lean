import MethodTrace.Settings.Basic
import MethodTrace.Text.Parts

/-!
# Arguments

The options of the command line and how they are read. A value follows its option or is attached to it, after `=`
or, behind a single letter, directly. Letters of options without a value can be run together. After `--` everything
is positional. An option may be given once. A value is looked at only when the next option or the end comes, so an
unknown option before that is the error that is reported.
-/

namespace MethodTrace

/-- What the command line asks for. -/
structure Options where
  script : String
  output : Option String := none
  filter : Option String := none
  events : Bool := false
  config : Option String := none
  blockReturns : Option BlockReturns := none
  nearestVisibleCaller : Bool := false
  rootCalls : Bool := false
  summary : Bool := false
  debug : Bool := false
  deriving DecidableEq, Repr

/-- Why there is nothing to run: something asked for instead, or an argument that makes no sense. -/
inductive UsageError where
  | help
  | version
  /-- An option that does not exist, or a second script. -/
  | unknownArgument
  /-- A value that is missing, empty or none of the choices. -/
  | invalidValue
  /-- A value for an option that takes none. -/
  | tooManyValues
  /-- An option given twice. -/
  | repeated
  | missingScript
  deriving DecidableEq, Repr

namespace CommandLine

/-- Everything that can be named on the command line. -/
inductive Flag where
  | output
  | filter
  | events
  | config
  | blockReturns
  | nearestVisibleCaller
  | rootCalls
  | summary
  | debug
  | help
  | version
  deriving DecidableEq, Repr

namespace Flag

/-- The flag with a long name. -/
def ofName? : String → Option Flag
  | "output" => some output
  | "expr" => some filter
  | "events" => some events
  | "config" => some config
  | "block-returns" => some blockReturns
  | "nearest-visible-caller" => some nearestVisibleCaller
  | "root-calls" => some rootCalls
  | "summary" => some summary
  | "debug" => some debug
  | "help" => some help
  | "version" => some version
  | _ => none

/-- The flag with a letter. -/
def ofLetter? : Char → Option Flag
  | 'o' => some output
  | 'e' => some filter
  | 'c' => some summary
  | 'h' => some help
  | 'V' => some version
  | _ => none

/-- Whether the flag takes a value. -/
def takesValue : Flag → Bool
  | output | filter | config | blockReturns => true
  | _ => false

end Flag

/-- What waits for its value to be looked at. -/
inductive Pending where
  | nothing
  | option (flag : Flag) (value : Option String)
  | script (path : String)

/-- The arguments read so far. -/
structure Reading where
  seen : List Flag := []
  script : Option String := none
  output : Option String := none
  filter : Option String := none
  config : Option String := none
  blockReturns : Option BlockReturns := none
  pending : Pending := .nothing
  /-- Whether a script was met. -/
  hasScript : Bool := false

namespace Reading

/-- A path, which is not empty. -/
def path (value : String) : Except UsageError String :=
  if value = "" then .error .invalidValue else .ok value

/-- Take the value of an option. -/
def take (r : Reading) (flag : Flag) (value : String) : Except UsageError Reading :=
  match flag with
  | .output => return { r with output := some (← path value) }
  | .filter => return { r with filter := some value }
  | .config => return { r with config := some (← path value) }
  | .blockReturns =>
    match BlockReturns.ofWord? value with
    | some choice => return { r with blockReturns := some choice }
    | none => .error .invalidValue
  | _ => .error .tooManyValues

/-- Note that a flag is given, which may happen once. -/
def note (r : Reading) (flag : Flag) : Except UsageError Reading :=
  if r.seen.contains flag then .error .repeated else .ok { r with seen := flag :: r.seen }

/-- Look at what is pending. -/
def settle (r : Reading) : Except UsageError Reading :=
  let settled := { r with pending := .nothing }
  match r.pending with
  | .nothing => .ok settled
  | .script value => do return { settled with script := some (← path value) }
  | .option _ none => .error .invalidValue
  | .option flag (some value) => do (← settled.note flag).take flag value

/-- A flag without a value. -/
def raise (r : Reading) (flag : Flag) : Except UsageError Reading := do
  let r ← r.settle
  match flag with
  | .help => .error .help
  | .version => .error .version
  | flag => r.note flag

/-- A flag with a value, attached or still to come. -/
def await (r : Reading) (flag : Flag) (value : Option String) : Except UsageError Reading := do
  let r ← r.settle
  let r := { r with pending := .option flag value }
  if value.isSome then r.settle else return r

/-- Letters run together, behind their dash. -/
def letters (r : Reading) : List Char → Except UsageError Reading
  | [] => .ok r
  | letter :: rest =>
    match Flag.ofLetter? letter with
    | none => .error .unknownArgument
    | some flag =>
      if flag.takesValue then
        match rest with
        | [] => r.await flag none
        | '=' :: value => r.await flag (some (String.ofList value))
        | value => r.await flag (some (String.ofList value))
      else
        match r.raise flag with
        | .ok r => r.letters rest
        | .error error => .error error

/-- A long name behind its dashes, with or without an attached value. -/
def name (r : Reading) (text : List Char) : Except UsageError Reading :=
  let front := text.takeWhile (· ≠ '=')
  let value := match text.dropWhile (· ≠ '=') with
    | [] => none
    | _ :: value => some (String.ofList value)
  match Flag.ofName? (String.ofList front) with
  | none => .error .unknownArgument
  | some flag =>
    if flag.takesValue then r.await flag value
    else if value.isSome then .error .tooManyValues
    else r.raise flag

/-- A positional argument; there is one. -/
def positional (r : Reading) (argument : String) : Except UsageError Reading :=
  if r.hasScript then .error .unknownArgument
  else do
    let r ← r.settle
    return { r with pending := .script argument, hasScript := true }

/-- An argument that begins with no dash, or is a single dash. -/
def plain (r : Reading) (argument : String) : Except UsageError Reading :=
  match r.pending with
  | .option flag none => .ok { r with pending := .option flag (some argument) }
  | _ => r.positional argument

/-- One argument before any `--`. -/
def argument (r : Reading) (text : String) : Except UsageError Reading :=
  match text.toList with
  | '-' :: '-' :: rest => r.name rest
  | '-' :: letter :: rest => r.letters (letter :: rest)
  | _ => r.plain text

/-- Arguments one after the other, up to `--` if there is one. -/
def arguments (r : Reading) : List String → Except UsageError Reading
  | [] => .ok r
  | "--" :: rest => rest.foldlM positional r
  | text :: rest =>
    match r.argument text with
    | .ok r => r.arguments rest
    | .error error => .error error

/-- The options, once every argument is read. -/
def finish (r : Reading) : Except UsageError Options := do
  let r ← r.settle
  match r.script with
  | none => .error .missingScript
  | some script =>
    return {
      script
      output := r.output
      filter := r.filter
      events := r.seen.contains .events
      config := r.config
      blockReturns := r.blockReturns
      nearestVisibleCaller := r.seen.contains .nearestVisibleCaller
      rootCalls := r.seen.contains .rootCalls
      summary := r.seen.contains .summary
      debug := r.seen.contains .debug }

end Reading

/-- Read the arguments of the command line. -/
def parse (arguments : List String) : Except UsageError Options := do
  (← Reading.arguments {} arguments).finish

end CommandLine

end MethodTrace
