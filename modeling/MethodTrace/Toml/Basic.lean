/-!
# TOML documents

The part of TOML that settings are written in: texts, integers, truth values, arrays and tables. No setting takes a
date or a fraction, so neither is a value here. A table remembers how it came to be, as that decides what may be
added to it: a header may open a table once, a dotted key may only go through tables that dotted keys made or that
headers passed through, and an inline table is complete.
-/

namespace MethodTrace

/-- How a table came to be. -/
inductive TableOrigin where
  /-- By a header of its own. -/
  | header
  /-- By the header of a table inside it. -/
  | implied
  /-- By a dotted key. -/
  | dotted
  /-- Between braces. -/
  | inline
  deriving DecidableEq, Repr

/-- A value. -/
inductive Toml where
  | string (value : String)
  | integer (value : Int)
  | boolean (value : Bool)
  | array (items : List Toml)
  | table (origin : TableOrigin) (entries : List (String × Toml))

/-- The entries of a table, first to last; no key is repeated. -/
abbrev TomlEntries := List (String × Toml)

namespace TomlEntries

/-- Change the value of a key, which may be absent. A new key comes last. -/
def update (key : String) (change : Option Toml → Option Toml) : TomlEntries → Option TomlEntries
  | [] => (change none).map fun value => [(key, value)]
  | (other, value) :: rest =>
    if other = key then (change (some value)).map fun value => (other, value) :: rest
    else (update key change rest).map ((other, value) :: ·)

/-- Add a value under a dotted key, given as the tables on the way and the key at its end. -/
def add (key : String) (value : Toml) : List String → TomlEntries → Option TomlEntries
  | [], entries => entries.update key fun
    | none => some value
    | some _ => none
  | name :: path, entries => entries.update name fun
    | none => (add key value path []).map (.table .dotted)
    | some (.table .dotted inner) => (add key value path inner).map (.table .dotted)
    | some (.table .implied inner) =>
      if path.isEmpty then none else (add key value path inner).map (.table .implied)
    | some _ => none

/-- Open the table of a header, given as the tables on the way and the one at its end. -/
def openTable (key : String) : List String → TomlEntries → Option TomlEntries
  | [], entries => entries.update key fun
    | none => some (.table .header [])
    | some (.table .implied inner) => some (.table .header inner)
    | some _ => none
  | name :: path, entries => entries.update name fun
    | none => (openTable key path []).map (.table .implied)
    | some (.table .inline _) => none
    | some (.table origin inner) => (openTable key path inner).map (.table origin)
    | some _ => none

/-- Change the entries of the table at a path. -/
def within (change : TomlEntries → Option TomlEntries) : List String → TomlEntries → Option TomlEntries
  | [], entries => change entries
  | name :: path, entries => entries.update name fun
    | some (.table origin inner) => (within change path inner).map (.table origin)
    | _ => none

/-- The value of a key. -/
def get? (entries : TomlEntries) (key : String) : Option Toml :=
  entries.lookup key

end TomlEntries

end MethodTrace
