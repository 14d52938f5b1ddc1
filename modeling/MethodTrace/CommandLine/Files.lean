/-!
# Files

What a command line needs of the files around it, and a small directory in memory that provides it.
-/

namespace MethodTrace

/-- What comes of reading a file. -/
inductive FileRead where
  /-- There is no such file. -/
  | missing
  /-- There is something of that name, but it has no contents. -/
  | unreadable
  | contents (bytes : ByteArray)

/-- The files around a command line. -/
structure Files (m : Type → Type) where
  read : String → m FileRead
  /-- Make an empty file, or empty the one that is there. The answer says whether that was possible. -/
  create : String → m Bool
  /-- Fill a file that was created. -/
  fill : String → ByteArray → m Unit
  standardInput : m ByteArray

/-- A directory of files without directories inside. -/
structure Directory where
  files : List (String × ByteArray) := []
  standardInput : ByteArray := .empty

namespace Directory

/-- What a path leads to. -/
inductive Place where
  /-- A directory: this one, one around it, or that of the devices. -/
  | directory
  /-- The file that is empty whatever is written to it. -/
  | nothing
  /-- A name in this directory. -/
  | name (name : String)
  /-- Somewhere else, where nothing is. -/
  | elsewhere

/-- The greatest number of bytes in a name. -/
def maxName : Nat := 255

/-- Where a path leads. Its last part may be the name of a file. -/
def place (path : String) : Place :=
  let parts := path.splitOn "/"
  let names := parts.filter fun part => part ≠ "" && part ≠ "."
  if path.isEmpty then .elsewhere
  else if names.all (· = "..") then .directory
  else if path.startsWith "/" then
    if names = ["dev"] then .directory
    else if names = ["dev", "null"] && parts.getLast? = some "null" then .nothing
    else .elsewhere
  else
    match names with
    | [name] => if parts.getLast? = some name && name.utf8ByteSize ≤ maxName then .name name else .elsewhere
    | _ => .elsewhere

/-- The contents of a name. -/
def get? (d : Directory) (name : String) : Option ByteArray :=
  d.files.lookup name

/-- Put contents under a name. -/
def put (d : Directory) (name : String) (bytes : ByteArray) : Directory :=
  { d with files := (name, bytes) :: d.files.filter (·.1 ≠ name) }

/-- What comes of reading a path. -/
def read (d : Directory) (path : String) : FileRead :=
  match place path with
  | .elsewhere => .missing
  | .directory => .unreadable
  | .nothing => .contents .empty
  | .name name =>
    match d.get? name with
    | some bytes => .contents bytes
    | none => .missing

/-- The directory as the files around a command line. -/
def asFiles : Files (StateM Directory) where
  read path := return (← get).read path
  create path := do
    match place path with
    | .name name => modify (·.put name .empty); return true
    | .nothing => return true
    | .directory | .elsewhere => return false
  fill path bytes := do
    match place path with
    | .name name => modify (·.put name bytes)
    | _ => return ()
  standardInput := return (← get).standardInput

end Directory
end MethodTrace
