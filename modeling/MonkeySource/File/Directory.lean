set_option autoImplicit false

/-!
# Directories

A directory with everything in it, and how a relative path is followed through it. Reading a file
and making one follow their paths by the same rule, name by name through what is there.
-/

namespace MonkeySource

inductive FileEntry where
  | directory
  | file (bytes : List UInt8)
  deriving DecidableEq, Repr

/-- A place as seen from a directory: so many levels above it, and from there down through names,
the innermost first. The directory itself is no level above and has no names. -/
structure Place where
  above : Nat := 0
  names : List String := []
  deriving DecidableEq, Repr

def Place.child (place : Place) (name : String) : Place :=
  { place with names := name :: place.names }

/-- Every place has a parent; what lies above the directory has no top. -/
def Place.parent (place : Place) : Place :=
  match place.names with
  | [] => { place with above := place.above + 1 }
  | _ :: names => { place with names := names }

/-- What is known to be in a directory and around it. Of two entries for one place the first
counts. -/
structure Directory where
  entries : List (Place × FileEntry) := []
  deriving DecidableEq, Repr

/-- Why a path does not lead to a file. -/
inductive PathFault where
  | nullCharacter
  | missing
  | isDirectory
  | notDirectory
  deriving DecidableEq, Repr

namespace Directory

/-- Whether a name on a path means the place already reached. -/
def isHere (name : String) : Bool := name == "" || name == "."

/-- Whether a name on a path means the place one level up. -/
def isUp (name : String) : Bool := name == ".."

/-- What is at a place. The directory itself and all levels above it are directories. -/
def entry? (directory : Directory) (place : Place) : Option FileEntry :=
  match place.names with
  | [] => some .directory
  | _ :: _ => directory.entries.lookup place

/-- Follows one name of a path. Only directories can be passed through, so a file followed by
anything, even by nothing after a slash, is a fault. -/
def enter (directory : Directory) (place : Place) (name : String) : Except PathFault Place :=
  match directory.entry? place with
  | none => .error .missing
  | some (.file _) => .error .notDirectory
  | some .directory =>
      if isHere name then .ok place
      else if isUp name then .ok place.parent
      else match directory.entry? (place.child name) with
        | some _ => .ok (place.child name)
        | none => .error .missing

/-- Follows the names of a path in order. A name may lead back up, but only from a place that is
there. -/
def follow (directory : Directory) : Place → List String → Except PathFault Place
  | place, [] => .ok place
  | place, name :: names =>
      match directory.enter place name with
      | .ok reached => directory.follow reached names
      | .error fault => .error fault

/-- The content of the file at a relative path. The null character is refused before the path is
followed, and the empty path leads nowhere. -/
def read (directory : Directory) (path : String) : Except PathFault (List UInt8) :=
  if '\x00' ∈ path.toList then .error .nullCharacter
  else if path = "" then .error .missing
  else
    match directory.follow {} (path.splitOn "/") with
    | .error fault => .error fault
    | .ok place =>
        match directory.entry? place with
        | some (.file bytes) => .ok bytes
        | some .directory => .error .isDirectory
        | none => .error .missing

/-- The names of the path to a new entry, the last one first. Slashes after it are allowed where a
directory is to be made, and are a last name of their own where a file is. -/
def newNames (path : String) : FileEntry → List String
  | .directory => (path.splitOn "/").reverse.dropWhile (· == "")
  | .file _ => (path.splitOn "/").reverse

/-- The place for a new entry: the last name, in the directory to which the names before it lead.
A last name that only points to a place makes none. -/
def target? (directory : Directory) : List String → Option Place
  | [] => none
  | name :: parents =>
      if isHere name || isUp name then none
      else match directory.follow {} parents.reverse with
        | .error _ => none
        | .ok parent =>
            if directory.entry? parent = some .directory then some (parent.child name) else none

/-- Makes an entry at a path. A file takes the place of a file. Where something else is in the
way, or the path leads nowhere, nothing is made. -/
def put (directory : Directory) (path : String) (entry : FileEntry) : Directory :=
  match directory.target? (newNames path entry) with
  | none => directory
  | some place =>
      match directory.entry? place, entry with
      | none, _ | some (.file _), .file _ => ⟨(place, entry) :: directory.entries⟩
      | _, _ => directory

end Directory

end MonkeySource
