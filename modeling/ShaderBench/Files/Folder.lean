import ShaderBench.Text.Bytes
/-
The files of the program: paths, the folder that holds them, and the watch over one of them.
-/
namespace ShaderBench.Files

abbrev Path := String

namespace Path

def split : List Char → List (List Char)
  | [] => [[]]
  | c :: rest =>
    match c, split rest with
    | '/', parts => [] :: parts
    | c, part :: parts => (c :: part) :: parts
    | c, [] => [[c]]

def join (parts : List (List Char)) : List Char := List.intercalate ['/'] parts

def start : List Char → List Char × List Char
  | '/' :: rest => (['/'], rest)
  | ['.'] => (['.'], [])
  | '.' :: '/' :: rest => (['.'], '/' :: rest)
  | s => ([], s)

def saysNothing (part : List Char) : Bool := part.isEmpty || part = ['.']

def trimParts (parts : List (List Char)) : List (List Char) :=
  (parts.reverse.dropWhile saysNothing).reverse

def parts (p : Path) : List (List Char) := trimParts (split (start p.toList).2)

def fileName? (p : Path) : Option (List Char) := do
  let name ← (parts p).getLast?
  if name = "..".toList then none else some name

def parent? (p : Path) : Option Path :=
  let root := (start p.toList).1
  match parts p with
  | [] => if root = ['.'] then some "" else none
  | ps => some (String.ofList (root ++ join (trimParts ps.dropLast)))

def folder (p : Path) : Path :=
  match parent? p with
  | some parent => if parent.isEmpty then "." else parent
  | none => "."

def child (p : Path) (name : String) : Path :=
  if p.toList.getLast? = some '/' then p ++ name else s!"{p}/{name}"

end Path

/- Folders: the files and folders in one, and how they are read and written by paths. -/

inductive Content where
  | text (s : String)
  | binary (bytes : List UInt8)
  deriving DecidableEq, Repr

def Content.ofBytes (bytes : List UInt8) : Content :=
  match String.fromUTF8? ⟨bytes.toArray⟩ with
  | some s => .text s
  | none => .binary bytes

def Content.shown : Content → String
  | .text s => s
  | .binary bytes => String.ofList (Text.shown bytes)

inductive FileError where
  | missing
  | notFolder
  | isFolder
  | notText
  deriving DecidableEq, Repr

def FileError.message : FileError → String
  | .missing => "No such file or directory (os error 2)"
  | .notFolder => "Not a directory (os error 20)"
  | .isFolder => "Is a directory (os error 21)"
  | .notText => "stream did not contain valid UTF-8"

abbrev Place := List (List Char)

/-- A folder with all that is in it. Work is done in the folder itself or in one below it. -/
structure Folder where
  path : Path
  files : List (Place × Content)
  folders : List Place
  workplace : Place
  deriving DecidableEq, Repr

namespace Folder

def empty (path : Path) : Folder := ⟨path, [], [], []⟩

def content? (f : Folder) (place : Place) : Option Content :=
  (f.files.find? fun entry => entry.1 = place).map Prod.snd

def isFolder (f : Folder) (place : Place) : Bool := place.isEmpty || f.folders.contains place

def isFile (f : Folder) (place : Place) : Bool := (f.content? place).isSome

/-- Follows parts of a path. Only a folder can be left by a part, but the last part need not
    exist. Above the whole folder there is nothing. -/
def follow (f : Folder) : Place → List (List Char) → Except FileError Place
  | here, [] => .ok here
  | here, part :: rest =>
    if !f.isFolder here then .error (if f.isFile here then .notFolder else .missing)
    else if Path.saysNothing part then f.follow here rest
    else if part ≠ "..".toList then f.follow (here ++ [part]) rest
    else if here.isEmpty then .error .missing
    else f.follow here.dropLast rest

def inner? (f : Folder) (text : List Char) : Option (List Char) :=
  let inside := f.path.toList ++ ['/']
  if inside.isPrefixOf text then some (text.drop inside.length)
  else if text = f.path.toList then some []
  else none

def place (f : Folder) (p : Path) : Except FileError Place :=
  match p.toList with
  | [] => .error .missing
  | '/' :: rest =>
    match f.inner? ('/' :: rest) with
    | some text => f.follow [] (Path.split text)
    | none => .error .missing
  | text => f.follow f.workplace (Path.split text)

def exists? (f : Folder) (p : Path) : Bool :=
  match f.place p with
  | .ok place => f.isFolder place || f.isFile place
  | .error _ => false

def read (f : Folder) (p : Path) : Except FileError String := do
  let place ← f.place p
  if f.isFolder place then .error .isFolder
  else
    match f.content? place with
    | some (.text s) => .ok s
    | some (.binary _) => .error .notText
    | none => .error .missing

def direct (f : Folder) : List (String × Content) :=
  f.files.filterMap fun entry =>
    match entry.1 with
    | [name] => some (String.ofList name, entry.2)
    | _ => none

def put (f : Folder) (place : Place) (content : Content) : Folder :=
  { f with files := (f.files.filter fun entry => entry.1 ≠ place) ++ [(place, content)] }

def remove (f : Folder) (place : Place) : Folder :=
  { f with files := f.files.filter fun entry => entry.1 ≠ place }

def above (place : Place) : List Place :=
  (List.range place.length).tail.map place.take

def putDeep (f : Folder) (place : Place) (content : Content) : Folder :=
  { f with folders := f.folders ++ (above place).filter fun p => !f.folders.contains p }.put place
    content

/-- Where a file would be written. A path that ends with a slash cannot name a new file. -/
def target (f : Folder) (p : Path) : Except FileError Place :=
  match f.place p with
  | .ok place => if f.isFolder place then .error .isFolder else .ok place
  | .error e =>
    if p.toList.getLast? = some '/' then
      match f.place (String.ofList ((p.toList.reverse.dropWhile (· = '/')).reverse)) with
      | .ok _ => .error .isFolder
      | .error e => .error e
    else .error e

def write (f : Folder) (p : Path) (text : String) : Except FileError Folder :=
  (f.target p).map fun place => f.put place (.text text)

end Folder

/-
The watch on a file: a burst of changes counts once, when it has settled. Times are nanoseconds.
-/

def settlingTime : Nat := 100000000

structure Burst where
  last : Option Nat
  deriving DecidableEq, Repr

namespace Burst

def none : Burst := ⟨.none⟩

def change (now : Nat) : Burst := ⟨some now⟩

def check (b : Burst) (now : Nat) : Burst × Bool :=
  match b.last with
  | some last => if settlingTime ≤ now - last then (none, true) else (b, false)
  | .none => (b, false)

end Burst

abbrev Notice := List Path

structure Watcher where
  /-- The name of the watched file; without one every notice concerns it. -/
  name : Option (List Char)
  notices : List Notice
  burst : Burst
  deriving DecidableEq, Repr

namespace Watcher

def ofPath (p : Path) : Watcher := ⟨p.fileName?, [], .none⟩

def notify (w : Watcher) (n : Notice) : Watcher := { w with notices := w.notices ++ [n] }

/-- Files of the same name in other folders concern it too. -/
def concerns (w : Watcher) (n : Notice) : Bool :=
  match w.name with
  | some name => n.any fun p => p.fileName? = some name
  | none => true

/-- Takes all notices at one time, and reports a burst that has settled. -/
def check (w : Watcher) (now : Nat) : Watcher × Bool :=
  let burst := if w.notices.any w.concerns then .change now else w.burst
  ({ w with notices := [], burst := (burst.check now).1 }, (burst.check now).2)

end Watcher
end ShaderBench.Files
