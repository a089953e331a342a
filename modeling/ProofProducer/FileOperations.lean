import ProofProducer.Shared.Action
import ProofProducer.Shared.OutputStream
import Mathlib.Data.List.DropRight

/-!
# `file_operations.hpp`

The path checks, the two probes and the binary reader and writer. Paths are sequences of
characters as `std::string` has them.
-/

namespace ProofProducer

open Effects Files

set_option autoImplicit false

/-- A `std::exception`, by the text of its `what()`. -/
structure Exception where
  what : String
  deriving DecidableEq, Repr

/-- The `//host` that POSIX lets a path begin with. -/
def rootName : Path → Path
  | ['/', '/'] => ['/', '/']
  | '/' :: '/' :: c :: p => if c = '/' then [] else '/' :: '/' :: (c :: p).takeWhile (· ≠ '/')
  | _ => []

/-- `operator/` -/
def appendPath (p q : Path) : Path :=
  if q = [] then p
  else if p = [] || q.head? = some '/' || p.getLast? = some '/' then p ++ q
  else p ++ '/' :: q

def currentPath (fs : FileSystem) : Path :=
  if fs.currentDirectory = [] then ['/'] else fs.currentDirectory.flatMap fun name => '/' :: name

def absolute (fs : FileSystem) (p : Path) : Path :=
  let root := rootName p
  if p = [] then currentPath fs
  else if (p.drop root.length).head? = some '/' then p
  else if root = [] then appendPath (currentPath fs) p
  else appendPath (root ++ ['/']) ((currentPath fs).dropWhile (· = '/'))

def parentPath (p : Path) : Path :=
  let root := rootName p
  let rest := p.drop root.length
  let name := rest.rtakeWhile (· ≠ '/')
  let body := rest.rdropWhile (· ≠ '/')
  let parent := body.rdropWhile (· = '/')
  if parent ≠ [] then root ++ parent
  else if body ≠ [] then (if name ≠ [] then root ++ ['/'] else root)
  else (if name ≠ [] then root else [])

def filename (p : Path) : Path :=
  let name := p.rtakeWhile (· ≠ '/')
  if name ≠ [] then name
  else if p.dropWhile (· = '/') ≠ [] then ['.'] else p.take 1

def pathMax : Nat := 4096

def filenameMax : Nat := 4096

def isValidPath (path : Path) : Bool :=
  if pathMax ≤ path.length then false
  else if filenameMax ≤ (filename path).length then false
  else true

/-- `boost::filesystem::exists` -/
def fileExists (fs : FileSystem) (path : Path) : Bool := (fs.lookup path).isSome

def canReadFromFile (fs : FileSystem) (path : Path) : Bool :=
  if !isValidPath path then false else (fs.lookup path).isSome

def tempFileName : Path := "temp_file_to_test_write_permission".toList

/-- The file that the write probe creates next to a missing target. -/
def probeFile (fs : FileSystem) (path : Path) : Path :=
  appendPath (parentPath (absolute fs path)) tempFileName

/-- `open_file<std::ofstream>`: the file is created or truncated. -/
def openOutputFile (path : Path) : Action FileSystem Exception (Option Location) := fun fs =>
  match fs.openForWriting path with
  | none => (.ok none, fs)
  | some l => (.ok (some l), fs.store l [])

/-- `boost::filesystem::remove`; a permission problem throws. -/
def removeFile (path : Path) : Action FileSystem Exception Bool := fun fs =>
  match fs.remove path with
  | (.removed, fs') => (.ok true, fs')
  | (.absent, fs') => (.ok false, fs')
  | (.denied, fs') => (.error ⟨"boost::filesystem::remove"⟩, fs')

/-- Opening for appending creates a missing file and leaves an existing one alone. -/
def openForAppending (path : Path) : Action FileSystem Exception Bool := fun fs =>
  match fs.openForWriting path with
  | none => (.ok false, fs)
  | some l => (.ok true, fs.touch l)

def canWriteToFile (path : Path) : Action FileSystem Exception Bool := do
  if !isValidPath path then return false
  let fs ← Action.observe .ok
  if fileExists fs path then
    openForAppending path
  else
    let parentDir := parentPath (absolute fs path)
    if parentDir = [] then return false
    if !fileExists fs parentDir then return false
    match ← openOutputFile (probeFile fs path) with
    | none => return false
    | some _ =>
      let _ ← removeFile (probeFile fs path)
      return true

/-- A directory can be opened for reading, and its size comes out as more than can be allocated. -/
def readFileToVector (fs : FileSystem) (path : Path) : Except Exception (Option Bytes) :=
  match fs.lookup path with
  | none => .ok none
  | some (.directory _) => .error ⟨"std::bad_alloc"⟩
  | some (.file c _) => .ok (some c)

/-- What writing `v` through one stream and destroying the stream leaves. The write is journaled
unless the stream reported a failure. -/
def delivered (d : Disk) (fs : FileSystem) (path : Path) (l : Location) (v : Bytes) : FileSystem :=
  let s := OutStream.opened.write d l v
  let fs' := fs.store l (s.close d l)
  if s.failed then fs' else fs'.record path v

/-- Whether the stream is still good after `v` was written to it, before it is destroyed. -/
def reports (d : Disk) (l : Location) (v : Bytes) : Bool := !(OutStream.opened.write d l v).failed

def writeStream (d : Disk) (path : Path) (l : Location) (v : Bytes) :
    Action FileSystem Exception Bool := fun fs => (.ok (reports d l v), delivered d fs path l v)

def writeVectorToFile (d : Disk) (v : Bytes) (path : Path) : Action FileSystem Exception Bool := do
  match ← openOutputFile path with
  | none => return false
  | some l => writeStream d path l v

end ProofProducer
