import MethodTrace.Text.Parts
import MethodTrace.Toml.Scalar

/-!
# Reading TOML

A document is read line by line. A header opens the table that the following keys go to.
-/

namespace MethodTrace
namespace Toml

/-- The text behind blanks, line ends and comments. -/
def skipLines (inComment : Bool) : List Char → List Char
  | [] => []
  | c :: rest =>
    if c = '\n' then skipLines false rest
    else if c = '\r' && rest.head? = some '\n' then skipLines inComment rest
    else if inComment then if isPlain c then skipLines true rest else c :: rest
    else if isGap c then skipLines false rest
    else if c = '#' then skipLines true rest
    else c :: rest

/-- The text behind the rest of a line, which may hold blanks and a comment. -/
def endLine? (cs : List Char) : Option (List Char) :=
  let behind := match skipGaps cs with
    | '#' :: rest => rest.dropWhile isPlain
    | rest => rest
  match behind with
  | [] => some []
  | rest => behindLineEnd? rest

/-! ### Keys -/

/-- A character of a key without quotes. -/
def isBare (c : Char) : Bool :=
  c.isAlphanum || c = '-' || c = '_'

/-- One name of a key. -/
def readName (cs : List Char) : Option (String × List Char) :=
  match cs with
  | '\x22' :: rest => (readBasic rest).map fun (text, rest) => (String.ofList text, rest)
  | '\x27' :: rest => (readLiteral rest).map fun (text, rest) => (String.ofList text, rest)
  | cs =>
    match cs.takeWhile isBare with
    | [] => none
    | name => some (String.ofList name, cs.dropWhile isBare)

/-- A key of one or more names with points between them: the names on the way, the last one, and the text behind
the blanks that follow. -/
def readKey (fuel : Nat) (cs : List Char) : Option (List String × String × List Char) :=
  match fuel with
  | 0 => none
  | fuel + 1 =>
    match readName (skipGaps cs) with
    | none => none
    | some (name, rest) =>
      match skipGaps rest with
      | '.' :: rest => (readKey fuel rest).map fun (path, last, rest) => (name :: path, last, rest)
      | rest => some ([], name, rest)

/-! ### Values -/

/-- A text, an integer or a truth value. -/
def readScalar (cs : List Char) : Option (Toml × List Char) :=
  match cs with
  | [] => none
  | c :: _ =>
    if c = '\x22' ∨ c = '\x27' then (readString cs).map fun (text, rest) => (.string (String.ofList text), rest)
    else
      match Text.behind? "true".toList cs, Text.behind? "false".toList cs with
      | some rest, _ => some (.boolean true, rest)
      | none, some rest => some (.boolean false, rest)
      | none, none => (readInteger cs).map fun (n, rest) => (.integer n, rest)

mutual

/-- A value. -/
def readValue (fuel : Nat) (cs : List Char) : Option (Toml × List Char) :=
  match fuel with
  | 0 => none
  | fuel + 1 =>
    match cs with
    | '[' :: rest => (readItems fuel rest).map fun (items, rest) => (.array items, rest)
    | '\x7b' :: rest =>
      match skipGaps rest with
      | '\x7d' :: rest => some (.table .inline [], rest)
      | rest => (readPairs fuel [] rest).map fun (entries, rest) => (.table .inline entries, rest)
    | cs => readScalar cs

/-- The items of an array up to its end. A comma may follow the last one. -/
def readItems (fuel : Nat) (cs : List Char) : Option (List Toml × List Char) :=
  match fuel with
  | 0 => none
  | fuel + 1 =>
    match skipLines false cs with
    | ']' :: rest => some ([], rest)
    | cs =>
      match readValue fuel cs with
      | none => none
      | some (item, rest) =>
        match skipLines false rest with
        | ',' :: rest => (readItems fuel rest).map fun (items, rest) => (item :: items, rest)
        | ']' :: rest => some ([item], rest)
        | _ => none

/-- The pairs of an inline table up to its end, at least one, added to those before. -/
def readPairs (fuel : Nat) (entries : TomlEntries) (cs : List Char) : Option (TomlEntries × List Char) :=
  match fuel with
  | 0 => none
  | fuel + 1 =>
    match readKey fuel cs with
    | some (path, key, '=' :: rest) =>
      match readValue fuel (skipGaps rest) with
      | none => none
      | some (value, rest) =>
        match entries.add key value path with
        | none => none
        | some entries =>
          match skipGaps rest with
          | ',' :: rest => readPairs fuel entries rest
          | '\x7d' :: rest => some (entries, rest)
          | _ => none
    | _ => none

end

/-! ### Documents -/

/-- The lines of a document from some point on, where keys go to the table at `here`. -/
def readDocument (fuel : Nat) (here : List String) (entries : TomlEntries) (cs : List Char) :
    Option TomlEntries :=
  match fuel with
  | 0 => none
  | fuel + 1 =>
    match skipGaps cs with
    | [] => some entries
    | '[' :: rest =>
      match readKey fuel rest with
      | some (path, key, ']' :: rest) =>
        match entries.openTable key path, endLine? rest with
        | some entries, some rest => readDocument fuel (path ++ [key]) entries rest
        | _, _ => none
      | _ => none
    | c :: rest =>
      if c = '#' || atSpace (c :: rest) then (endLine? (c :: rest)).bind (readDocument fuel here entries)
      else
        match readKey fuel (c :: rest) with
        | some (path, key, '=' :: rest) =>
          match readValue fuel (skipGaps rest) with
          | none => none
          | some (value, rest) =>
            match TomlEntries.within (·.add key value path) here entries, endLine? rest with
            | some entries, some rest => readDocument fuel here entries rest
            | _, _ => none
        | _ => none

/-- The document that a text holds. A byte order mark may stand before it. Every second step of the reader takes a
character, so the fuel is enough. -/
def ofChars? (cs : List Char) : Option TomlEntries :=
  let cs := (Text.behind? ['\ufeff'] cs).getD cs
  readDocument (2 * cs.length + 2) [] [] cs

end Toml
end MethodTrace
