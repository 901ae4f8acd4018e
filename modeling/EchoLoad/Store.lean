import EchoLoad.Frame
import EchoLoad.Store.Path
/-!
A store of files and directories. Every entry has a location, the names from the root down to
it; paths are looked up step by step from the working directory or the root. A call that fails
leaves the store as it is.
-/

namespace EchoLoad

inductive Content where
  | text (text : String)
  /-- Bytes that are no UTF-8 text. -/
  | binary (bytes : Bytes)
  deriving DecidableEq, Repr

namespace Content

def ofBytes (bytes : Bytes) : Content :=
  match String.fromUTF8? ⟨bytes.toArray⟩ with
  | some s => .text s
  | none => .binary bytes

def append (c : Content) (more : String) : Content :=
  match c with
  | .text s => .text (s ++ more)
  | .binary b => .binary (b ++ more.toUTF8.toList)

end Content

inductive Entry where
  | directory
  | file (content : Content)
  deriving DecidableEq, Repr

/-- Names from the root down. -/
abbrev Location := List String

structure Store where
  workDir : Location := []
  entries : List (Location × Entry) := []
  deriving DecidableEq, Repr

namespace Store

/-- The entry at a location. The root is a directory. -/
def find? (s : Store) (l : Location) : Option Entry :=
  if l = [] then some .directory else s.entries.lookup l

/-- Replace the entry at a location, or add it behind the others. -/
def putEntry (l : Location) (e : Entry) : List (Location × Entry) → List (Location × Entry)
  | [] => [(l, e)]
  | (l', e') :: rest => if l' = l then (l, e) :: rest else (l', e') :: putEntry l e rest

def put (s : Store) (l : Location) (e : Entry) : Store :=
  { s with entries := putEntry l e s.entries }

def enter (s : Store) (l : Location) (name : String) : Except IoError Location :=
  match s.find? l with
  | none => .error .fileNotFound
  | some (.file _) => .error .notADirectory
  | some .directory =>
    if name = "." then .ok l
    else if name = ".." then .ok l.dropLast
    else if 255 < name.utf8ByteSize then .error .nameTooLong
    else .ok (l ++ [name])

def start (s : Store) (path : String) : Location :=
  if Path.isAbsolute path then [] else s.workDir

/-- Where some steps lead. The last one need not exist. -/
def follow (s : Store) (start : Location) (steps : List String) : Except IoError Location :=
  steps.foldlM s.enter start

def locate (s : Store) (path : String) : Except IoError Location :=
  s.follow (s.start path) (Path.components path)

def makeDir (s : Store) (start : Location) (steps : List String) : Except IoError Store := do
  let l ← s.follow start steps
  match s.find? l with
  | some _ => throw .fileExists
  | none => return s.put l .directory

def isDir (s : Store) (start : Location) (steps : List String) : Bool :=
  match s.follow start steps with
  | .ok l => s.find? l = some .directory
  | .error _ => false

/-- Make a directory and those above it. One that is there already is fine. -/
def makeDirs (absolute : Bool) (start : Location) (steps : List String) (s : Store) :
    Except IoError Store :=
  if steps = [] then .ok s
  else
    match s.makeDir start steps with
    | .ok s => .ok s
    | .error e =>
      if e = .fileNotFound then
        match makeDirs absolute start (Path.parent absolute steps) s with
        | .error e => .error e
        | .ok s =>
          match s.makeDir start steps with
          | .ok s => .ok s
          | .error e => if s.isDir start steps then .ok s else .error e
      else if s.isDir start steps then .ok s
      else .error e
termination_by steps.length
decreasing_by exact Path.parent_length_lt absolute ‹¬steps = []›

/-- A path with a NUL in it names nothing. -/
def usable (path : String) : Except IoError Unit :=
  if '\x00' ∈ path.toList then .error .nulInPath else .ok ()

def createDirs (s : Store) (path : String) : Except IoError Store := do
  usable path
  makeDirs (Path.isAbsolute path) (s.start path) (Path.components path) s

/-- Where a file can be written: nothing is there yet, or a file. -/
def writable (s : Store) (path : String) : Except IoError Location := do
  usable path
  if path = "" then throw .fileNotFound
  let l ← s.locate path
  match s.find? l with
  | some .directory => throw .isADirectory
  | some (.file _) => return l
  | none =>
    match s.find? l.dropLast with
    | some .directory => return l
    | some (.file _) => throw .notADirectory
    | none => throw .fileNotFound

def write (s : Store) (path text : String) : Except IoError Store := do
  let l ← s.writable path
  return s.put l (.file (.text text))

/-- Add `text` to the end of a file, which is made if it is missing. -/
def append (s : Store) (path text : String) : Except IoError Store := do
  let l ← s.writable path
  match s.find? l with
  | some (.file c) => return s.put l (.file (c.append text))
  | _ => return s.put l (.file (.text text))

def readText (s : Store) (path : String) : Except IoError String := do
  usable path
  if path = "" then throw .fileNotFound
  let l ← s.locate path
  match s.find? l with
  | none => throw .fileNotFound
  | some .directory => throw .isADirectory
  | some (.file c) =>
    if path.toList.getLast? = some '/' then throw .notADirectory
    match c with
    | .text t => return t
    | .binary _ => throw .invalidUtf8

end Store

end EchoLoad
