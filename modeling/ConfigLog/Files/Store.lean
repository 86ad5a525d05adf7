import ConfigLog.Files.Path

set_option autoImplicit false

/-! # The file system

Directories and files under names, as far as logging, loading and watching touch them. A file is a
numbered node: who has opened it keeps the number, and goes on writing to the same file when the
name is moved or removed. Every change leaves a notice for those who watch its directory.
-/

namespace ConfigLog.Files

/-! ## Errors -/

/-- Why the file system refused an operation. -/
inductive FileError where
  | notFound
  | denied
  | alreadyExists
  | notDirectory
  | isDirectory
  | invalidMove
  | tooLong
  | notEmpty
  /-- A path with a null character. -/
  | nullInPath
  deriving DecidableEq, Repr

/-- The wording of the error. -/
def FileError.message : FileError → String
  | notFound => "No such file or directory (os error 2)"
  | denied => "Permission denied (os error 13)"
  | alreadyExists => "File exists (os error 17)"
  | notDirectory => "Not a directory (os error 20)"
  | isDirectory => "Is a directory (os error 21)"
  | invalidMove => "Invalid argument (os error 22)"
  | tooLong => "File name too long (os error 36)"
  | notEmpty => "Directory not empty (os error 39)"
  | nullInPath => "file name contained an unexpected NUL byte"

/-! ## The store -/

/-- A place in the file system: the names from an entry up to the root, which is the empty list. -/
abbrev Place := List String

/-- What a node is. -/
inductive Content where
  | directory
  /-- What is in a file need not be a text. -/
  | file (bytes : ByteArray)

/-- The content is that of a directory. -/
@[simp] def Content.isDirectory : Content → Bool
  | directory => true
  | file _ => false

/-- What happened to an entry of a directory. -/
inductive NoticeKind where
  | created
  | modified
  | removed
  /-- The entry was opened; neither what is in it nor its name has changed. -/
  | accessed
  deriving DecidableEq, Repr

/-- Something that happened in a directory. -/
structure Notice where
  /-- The node of the directory. -/
  directory : Nat
  /-- The name of the entry. -/
  name : String
  kind : NoticeKind
  deriving DecidableEq, Repr

/-- A file system. -/
structure Store where
  /-- The nodes by their numbers. The root is node 0. -/
  nodes : Array Content
  /-- The places below the root that are taken, with their nodes. -/
  names : List (Place × Nat)
  /-- The place where relative paths start. -/
  working : Place
  /-- How many times a file has been asked for to append. -/
  opens : Nat := 0
  /-- Whether that request, by its number and path, is turned down. -/
  refuses : Nat → String → Bool := fun _ _ => false
  notices : Array Notice := #[]

namespace Store

/-- The node at a place. -/
def node? (s : Store) (p : Place) : Option Nat :=
  if p.isEmpty then some 0 else s.names.lookup p

/-- The node is a directory. -/
def isDirectory (s : Store) (i : Nat) : Bool := s.nodes[i]?.any (·.isDirectory)

/-- What is in a file. -/
def bytes? (s : Store) (i : Nat) : Option ByteArray :=
  match s.nodes[i]? with
  | some (.file bytes) => some bytes
  | _ => none

/-- The place of a node that has a name. -/
def place? (s : Store) (i : Nat) : Option Place :=
  (s.names.find? (·.2 == i)).map (·.1)

/-- Leaves a notice about the entry at a place. -/
def notify (s : Store) (p : Place) (kind : NoticeKind) : Store :=
  match p with
  | [] => s
  | name :: parent =>
    match s.node? parent with
    | some directory => { s with notices := s.notices.push { directory, name, kind } }
    | none => s

/-- Adds a node at a place that is free, and gives its number. -/
def add (s : Store) (p : Place) (c : Content) : Store × Nat :=
  ({ s with nodes := s.nodes.push c, names := s.names ++ [(p, s.nodes.size)] }.notify p .created,
    s.nodes.size)

/-- Adds the directory of a place after those above it. -/
def addDirectories (s : Store) : Place → Store
  | [] => s
  | name :: parent => ((s.addDirectories parent).add (name :: parent) .directory).1

/-- A file system with nothing in it but the working directory. -/
def start (working : Place) : Store :=
  { ({ nodes := #[.directory], names := [], working } : Store).addDirectories working with
    notices := #[] }

/-! ## Finding places -/

/-- The components of a path that the file system takes. -/
def components (path : String) : Except FileError (List Component) :=
  if path.toList.contains '\x00' then .error .nullInPath
  else if 4096 ≤ path.utf8ByteSize then .error .tooLong
  else .ok (Path.components path)

/-- The path can only be that of a directory, because it ends in a slash or a dot. -/
def wantsDirectory (path : String) : Bool :=
  match path.toList.reverse with
  | '/' :: _ => true
  | '.' :: '/' :: _ => true
  | _ => false

/-- The place of a name in a directory. -/
def child (parent : Place) (name : String) : Except FileError Place :=
  if 255 < name.utf8ByteSize then .error .tooLong else .ok (name :: parent)

/-- The directory that a component leads to. -/
def enter (s : Store) (p : Place) : Component → Except FileError Place
  | .root => .ok []
  | .current => .ok p
  | .parent => .ok p.tail
  | .name n => do
    let q ← child p n
    match s.node? q with
    | none => .error .notFound
    | some i => if s.isDirectory i then .ok q else .error .notDirectory

/-- The directory that a list of components leads to from the working directory. -/
def directory (s : Store) (cs : List Component) : Except FileError Place :=
  cs.foldlM s.enter s.working

/-- The place that components lead to from the working directory. All but the last one have to lead
to directories; nothing needs to be in the place. -/
def placeOf (s : Store) (cs : List Component) : Except FileError Place :=
  match cs.getLast? with
  | none => .error .notFound
  | some (.name n) => do child (← s.directory cs.dropLast) n
  | some _ => s.directory cs

/-- The place that a path names. -/
def place (s : Store) (path : String) : Except FileError Place := do
  s.placeOf (← components path)

/-- The path of a place. -/
def pathOf (p : Place) : String := "/" ++ "/".intercalate p.reverse

/-- The node that a path names. -/
def find (s : Store) (path : String) : Except FileError Nat := do
  match s.node? (← s.place path) with
  | none => .error .notFound
  | some i =>
    if wantsDirectory path && !s.isDirectory i then .error .notDirectory else .ok i

/-- Something is there under the path. -/
def contains (s : Store) (path : String) : Bool :=
  match s.find path with
  | .ok _ => true
  | .error _ => false

/-- What is in the file under a path. -/
def read (s : Store) (path : String) : Except FileError ByteArray := do
  match s.bytes? (← s.find path) with
  | some bytes => .ok bytes
  | none => .error .isDirectory

/-! ## Directories -/

/-- Goes along components and creates the directories that are missing. -/
def createAlong (s : Store) (p : Place) : List Component → Store × Except FileError Place
  | [] => (s, .ok p)
  | c :: r =>
    match s.enter p c, c with
    | .ok q, _ => s.createAlong q r
    | .error .notFound, .name n => (s.add (n :: p) .directory).1.createAlong (n :: p) r
    | .error .notDirectory, _ =>
      (s, .error (if r.isEmpty then .alreadyExists else .notDirectory))
    | .error e, _ => (s, .error e)

/-- Creates the directory of a path and those above it. -/
def createDirectories (s : Store) (path : String) : Store × Except FileError Unit :=
  match components path with
  | .error e => (s, .error e)
  | .ok cs =>
    let (s, result) := s.createAlong s.working cs
    (s, result.map fun _ => ())

/-- Creates the directory in which a path has its last component. -/
def createParent (s : Store) (path : String) : Store × Except FileError Unit :=
  s.createDirectories (Path.parent path)

/-! ## Files -/

/-- The file under a path, created empty when nothing is there. -/
def openFile (s : Store) (path : String) : Store × Except FileError Nat :=
  match s.place path with
  | .error e => (s, .error e)
  | .ok p =>
    match s.node? p with
    | some i =>
      if s.isDirectory i then (s, .error .isDirectory)
      else if wantsDirectory path then (s, .error .notDirectory)
      else (s.notify p .accessed, .ok i)
    | none =>
      if wantsDirectory path then (s, .error .isDirectory)
      else
        let (s, i) := s.add p (.file .empty)
        (s, .ok i)

/-- Opens a file to append to it, with the directories above it created where they are missing. -/
def openAppend (s : Store) (path : String) : Store × Except FileError Nat :=
  let refused := s.refuses s.opens path
  let s := { s with opens := s.opens + 1 }
  if refused then (s, .error .denied)
  else
    match s.createParent path with
    | (s, .error e) => (s, .error e)
    | (s, .ok ()) => s.openFile path

/-- Changes what is in an open file. -/
def update (s : Store) (i : Nat) (f : ByteArray → ByteArray) : Store :=
  match s.bytes? i with
  | none => s
  | some bytes =>
    let s := { s with nodes := s.nodes.set! i (.file (f bytes)) }
    match s.place? i with
    | some p => s.notify p .modified
    | none => s

/-- Appends a text to an open file. -/
def append (s : Store) (i : Nat) (text : String) : Store :=
  if text.isEmpty then s else s.update i (· ++ text.toUTF8)

/-- Puts something into the file under a path. -/
def write (s : Store) (path : String) (bytes : ByteArray) : Store × Except FileError Unit :=
  match s.createParent path with
  | (s, .error e) => (s, .error e)
  | (s, .ok ()) =>
    match s.openFile path with
    | (s, .error e) => (s, .error e)
    | (s, .ok i) => (s.update i fun _ => bytes, .ok ())

/-! ## Removing and moving -/

/-- The places of an entry and of all below it. -/
def below (s : Store) (p : Place) : List Place :=
  (s.names.map (·.1)).filter fun q => p.isSuffixOf q

/-- Removes the names of an entry and of all below it. -/
def erase (s : Store) (p : Place) : Store :=
  { s with names := s.names.filter fun e => !p.isSuffixOf e.1 }

/-- Removes a file, or a directory with all that is in it. -/
def remove (s : Store) (path : String) : Store × Except FileError Unit :=
  match s.find path, s.place path with
  | .error e, _ => (s, .error e)
  | _, .error e => (s, .error e)
  | .ok _, .ok p =>
    if p.isSuffixOf s.working then (s, .error .invalidMove)
    else
      let s := (s.below p).reverse.foldl (fun s q => s.notify q .removed) s
      (s.erase p, .ok ())

/-- Whether the node at one place may take another place. -/
def mayMove (s : Store) (source target : Place) (i : Nat) : Except FileError Unit :=
  match s.node? target with
  | none => if source.isSuffixOf target then .error .invalidMove else .ok ()
  | some j =>
    if s.isDirectory i then
      if !s.isDirectory j then .error .notDirectory
      else if source.isSuffixOf target then .error .invalidMove
      else if (s.below target).length != 1 then .error .notEmpty
      else .ok ()
    else if s.isDirectory j then .error .isDirectory
    else .ok ()

/-- Gives all places below one entry the same places below another. -/
def relocate (s : Store) (source target : Place) : Store :=
  { s with names := s.names.map fun e =>
      if source.isSuffixOf e.1 then (e.1.take (e.1.length - source.length) ++ target, e.2) else e }

/-- Moves an entry to another path; a file that is there is replaced. -/
def rename (s : Store) (path target : String) : Store × Except FileError Unit :=
  let attempt : Except FileError (Option (Place × Place)) := do
    let i ← s.find path
    let p ← s.place path
    let q ← s.place target
    if s.node? q == some i then return none
    if wantsDirectory target && !s.isDirectory i then .error .notDirectory
    if p.isSuffixOf s.working then .error .invalidMove
    s.mayMove p q i
    return some (p, q)
  match attempt with
  | .error e => (s, .error e)
  | .ok none => (s, .ok ())
  | .ok (some (p, q)) =>
    let s := ((s.erase q).relocate p q)
    ((s.notify p .modified).notify q .modified, .ok ())

end Store

end ConfigLog.Files
