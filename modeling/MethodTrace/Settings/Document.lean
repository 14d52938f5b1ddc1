import MethodTrace.Settings.Basic
import MethodTrace.Toml.Reader

/-!
# Settings from a TOML document

Each setting is a key of the document, and the document has no other keys. Hidden calls are given by `exclude` or
by `only`, but not by both.
-/

namespace MethodTrace

/-- Why a document gives no settings. -/
inductive SettingsError where
  /-- It is no TOML, or has a key or a value that is no setting. -/
  | malformed
  | excludeAndOnly
  | zeroCapacity
  deriving DecidableEq, Repr

/-- What is said of bad settings. -/
def SettingsError.message : SettingsError → String
  | malformed => "Invalid tracer config"
  | excludeAndOnly => "Invalid tracer config: \x60exclude\x60 and \x60only\x60 are mutually exclusive"
  | zeroCapacity => "Invalid tracer config: stack_capacity must be >= 1"

namespace Toml

/-- A text. -/
def asString? : Toml → Option String
  | string s => some s
  | _ => none

/-- A truth value. -/
def asBool? : Toml → Option Bool
  | boolean b => some b
  | _ => none

/-- An integer that is not negative. -/
def asNat? : Toml → Option Nat
  | integer (.ofNat n) => some n
  | _ => none

/-- An array of texts. -/
def asStrings? : Toml → Option (List String)
  | array items => items.mapM asString?
  | _ => none

/-- The word of a choice: a text, or a table with that word as its only key and nothing under it. -/
def asWord? : Toml → Option String
  | string word => some word
  | table _ [(word, array [])] => some word
  | table _ [(word, table _ [])] => some word
  | _ => none

end Toml

namespace Settings

/-- The keys of a document. -/
def keys : List String :=
  ["flatten", "exclude", "only", "stack_capacity", "block_returns", "caller_policy", "root_calls", "tracer_entity"]

/-- A setting that may be absent. Nothing if it has a value of the wrong kind. -/
def setting? {α : Type} (entries : TomlEntries) (key : String) (read : Toml → Option α) : Option (Option α) :=
  match entries.get? key with
  | none => some none
  | some value => (read value).map some

/-- The filter that the two lists give. -/
def filterOf : Option (List String) → Option (List String) → Except SettingsError Filter
  | some _, some _ => .error .excludeAndOnly
  | some fragments, none => .ok (.exclude fragments)
  | none, some entities => .ok (.only entities)
  | none, none => .ok .nothing

/-- What a document says, setting by setting. -/
structure Document where
  flatten : Option Bool
  exclude : Option (List String)
  only : Option (List String)
  stackCapacity : Option Nat
  blockReturns : Option BlockReturns
  callerRule : Option CallerRule
  rootCalls : Option Bool
  ownEntity : Option String

/-- The settings that the entries of a document spell out. -/
def Document.ofEntries? (entries : TomlEntries) : Option Document := do
  guard (entries.all fun entry => keys.contains entry.1)
  return {
    flatten := ← setting? entries "flatten" Toml.asBool?
    exclude := ← setting? entries "exclude" Toml.asStrings?
    only := ← setting? entries "only" Toml.asStrings?
    stackCapacity := ← setting? entries "stack_capacity" Toml.asNat?
    blockReturns := ← setting? entries "block_returns" fun v => v.asWord?.bind BlockReturns.ofWord?
    callerRule := ← setting? entries "caller_policy" fun v => v.asWord?.bind CallerRule.ofWord?
    rootCalls := ← setting? entries "root_calls" Toml.asBool?
    ownEntity := ← setting? entries "tracer_entity" Toml.asString? }

/-- The settings of a document; what it does not say stays as it is by default. An empty name means that no entity
stands for the tracer. -/
def Document.settings (d : Document) : Except SettingsError Settings :=
  match filterOf d.exclude d.only with
  | .error error => .error error
  | .ok filter =>
    if d.stackCapacity = some 0 then .error .zeroCapacity
    else
      let base : Settings := {}
      .ok {
        flatten := d.flatten.getD base.flatten
        filter
        stackCapacity := d.stackCapacity.getD base.stackCapacity
        blockReturns := d.blockReturns.getD base.blockReturns
        callerRule := d.callerRule.getD base.callerRule
        rootCalls := d.rootCalls.getD base.rootCalls
        ownEntity := match d.ownEntity with
          | none => base.ownEntity
          | some name => if name = "" then none else some name }

/-- The settings that a text spells out. -/
def ofToml (text : String) : Except SettingsError Settings :=
  match (Toml.ofChars? text.toList).bind Document.ofEntries? with
  | none => .error .malformed
  | some document => document.settings

end Settings

end MethodTrace
