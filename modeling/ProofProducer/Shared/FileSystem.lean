import Mathlib.Data.List.Defs
import Mathlib.Logic.Basic

/-!
# A file system of files and directories

Locations are absolute sequences of names; paths are strings resolved component by component,
every component before the last being an existing directory. Whether a file can be opened for
writing is decided by its existence, its kind and the write permissions. There are no links.
The journal records what has been written since the start; no operation reads it.
-/

namespace Files

set_option autoImplicit false

abbrev Bytes := List UInt8
abbrev Path := List Char
abbrev Location := List (List Char)

inductive Node where
  | file (content : Bytes) (writable : Bool)
  | directory (writable : Bool)
  deriving DecidableEq, Repr

structure FileSystem where
  currentDirectory : Location
  node : Location → Option Node
  journal : List (Path × Bytes)

/-- Where a path leads. `directoryOnly` is set by a trailing slash, `.` and `..`. -/
structure Target where
  location : Location
  directoryOnly : Bool
  deriving DecidableEq

namespace FileSystem

def isDirectory (fs : FileSystem) (l : Location) : Bool :=
  match fs.node l with
  | some (.directory _) => true
  | _ => false

def components (p : Path) : List (List Char) := (p.splitOn '/').filter (· ≠ [])

def move (l : Location) (name : List Char) : Location :=
  if name = ['.'] then l else if name = ['.', '.'] then l.dropLast else l ++ [name]

/-- Follow components that all have to be existing directories. -/
def descend (fs : FileSystem) : Location → List (List Char) → Option Location
  | l, [] => if fs.isDirectory l then some l else none
  | l, name :: names => if fs.isDirectory l then fs.descend (move l name) names else none

def locate (fs : FileSystem) (p : Path) : Option Target :=
  if p = [] then none else
  let start := if p.head? = some '/' then [] else fs.currentDirectory
  match (components p).getLast? with
  | none => some ⟨start, true⟩
  | some last =>
    (fs.descend start (components p).dropLast).map fun l =>
      ⟨move l last, last = ['.'] || last = ['.', '.'] || p.getLast? = some '/'⟩

/-- What `stat` finds at a path. -/
def lookup (fs : FileSystem) (p : Path) : Option Node :=
  match fs.locate p with
  | none => none
  | some t =>
    match fs.node t.location with
    | some (.file c w) => if t.directoryOnly then none else some (.file c w)
    | n => n

def content (fs : FileSystem) (p : Path) : Option Bytes :=
  match fs.lookup p with
  | some (.file c _) => some c
  | _ => none

/-- The location of the file a path names, whether it exists or not. -/
def fileLocation (fs : FileSystem) (p : Path) : Option Location :=
  match fs.locate p with
  | some ⟨l, false⟩ => some l
  | _ => none

def SameFile (fs : FileSystem) (p q : Path) : Prop :=
  ∃ l, fs.fileLocation p = some l ∧ fs.fileLocation q = some l

/-- Whether a directory lets its entries be created and removed. -/
def directoryWritable (fs : FileSystem) (l : Location) : Bool :=
  match fs.node l with
  | some (.directory w) => w
  | _ => false

/-- Whether an open for writing at the location succeeds. -/
def accepts (fs : FileSystem) (l : Location) : Bool :=
  match fs.node l with
  | some (.file _ w) => w
  | some (.directory _) => false
  | none => fs.directoryWritable l.dropLast

/-- Opening a path for writing: the location of the file on success. -/
def openForWriting (fs : FileSystem) (p : Path) : Option Location :=
  (fs.fileLocation p).filter fs.accepts

/-- Replace the content of a file; a new file is writable. -/
def store (fs : FileSystem) (l : Location) (c : Bytes) : FileSystem :=
  { fs with node := fun k => if k = l then some (.file c true) else fs.node k }

/-- Create the file if it is missing, as opening for appending does. -/
def touch (fs : FileSystem) (l : Location) : FileSystem :=
  match fs.node l with
  | none => fs.store l []
  | some _ => fs

def erase (fs : FileSystem) (l : Location) : FileSystem :=
  { fs with node := fun k => if k = l then none else fs.node k }

def record (fs : FileSystem) (p : Path) (c : Bytes) : FileSystem :=
  { fs with journal := (p, c) :: fs.journal }

/-- Nothing but a writable root directory. -/
def empty : FileSystem := ⟨[], fun l => if l = [] then some (.directory true) else none, []⟩

inductive Removal where
  | removed
  | absent
  | denied
  deriving DecidableEq, Repr

/-- Unlink a file. Directories are refused; an emptied one is not modelled. -/
def remove (fs : FileSystem) (p : Path) : Removal × FileSystem :=
  match fs.fileLocation p with
  | none => (.absent, fs)
  | some l =>
    match fs.node l with
    | none => (.absent, fs)
    | some (.directory _) => (.denied, fs)
    | some (.file _ _) =>
      if fs.directoryWritable l.dropLast then (.removed, fs.erase l) else (.denied, fs)

/-- The same directories with the same permissions, and the same one to start from. -/
structure SameDirectories (a b : FileSystem) : Prop where
  currentDirectory : b.currentDirectory = a.currentDirectory
  directory : ∀ l w, b.node l = some (.directory w) ↔ a.node l = some (.directory w)

namespace SameDirectories
variable {a b c : FileSystem}

theorem symm (h : SameDirectories a b) : SameDirectories b a :=
  ⟨h.currentDirectory.symm, fun l w => (h.directory l w).symm⟩

theorem trans (hab : SameDirectories a b) (hbc : SameDirectories b c) : SameDirectories a c :=
  ⟨hbc.currentDirectory.trans hab.currentDirectory,
    fun l w => (hbc.directory l w).trans (hab.directory l w)⟩

theorem isDirectory_eq (h : SameDirectories a b) (l : Location) :
    b.isDirectory l = a.isDirectory l := by
  have key : ∀ fs : FileSystem, fs.isDirectory l = true ↔ ∃ w, fs.node l = some (.directory w) := by
    intro fs
    unfold FileSystem.isDirectory
    split <;> simp_all
  rw [Bool.eq_iff_iff, key, key]
  exact exists_congr fun w => h.directory l w

theorem descend_eq (h : SameDirectories a b) (l : Location) (names : List (List Char)) :
    b.descend l names = a.descend l names := by
  induction names generalizing l with
  | nil => simp only [descend, h.isDirectory_eq]
  | cons name names ih => simp only [descend, h.isDirectory_eq, ih]

theorem locate_eq (h : SameDirectories a b) (p : Path) : b.locate p = a.locate p := by
  simp only [locate, h.currentDirectory, h.descend_eq]

theorem fileLocation_eq (h : SameDirectories a b) (p : Path) :
    b.fileLocation p = a.fileLocation p := by
  simp only [fileLocation, h.locate_eq]

/-- What can be opened at all is opened at the same location. -/
theorem openForWriting_eq (h : SameDirectories a b) {p : Path}
    (hp : (b.openForWriting p).isSome = (a.openForWriting p).isSome) :
    b.openForWriting p = a.openForWriting p := by
  unfold openForWriting at hp ⊢
  rw [h.fileLocation_eq] at hp ⊢
  cases hl : a.fileLocation p with
  | none => rfl
  | some l =>
    rw [hl] at hp
    cases ha : a.accepts l <;> cases hb : b.accepts l <;> simp_all [Option.filter]

end SameDirectories

/-- Two file systems with the same directories in which the same opens for writing succeed. -/
structure Steady (a b : FileSystem) : Prop where
  currentDirectory : b.currentDirectory = a.currentDirectory
  directory : ∀ l w, b.node l = some (.directory w) ↔ a.node l = some (.directory w)
  accepts : ∀ l, b.accepts l = a.accepts l

namespace Steady
variable {a b c : FileSystem}

theorem refl (a : FileSystem) : Steady a a := ⟨rfl, fun _ _ => Iff.rfl, fun _ => rfl⟩

theorem symm (h : Steady a b) : Steady b a :=
  ⟨h.currentDirectory.symm, fun l w => (h.directory l w).symm, fun l => (h.accepts l).symm⟩

theorem trans (hab : Steady a b) (hbc : Steady b c) : Steady a c :=
  ⟨hbc.currentDirectory.trans hab.currentDirectory,
    fun l w => (hbc.directory l w).trans (hab.directory l w),
    fun l => (hbc.accepts l).trans (hab.accepts l)⟩

theorem sameDirectories (h : Steady a b) : SameDirectories a b :=
  ⟨h.currentDirectory, h.directory⟩

theorem descend_eq (h : Steady a b) (l : Location) (names : List (List Char)) :
    b.descend l names = a.descend l names := h.sameDirectories.descend_eq l names

theorem locate_eq (h : Steady a b) (p : Path) : b.locate p = a.locate p :=
  h.sameDirectories.locate_eq p

theorem fileLocation_eq (h : Steady a b) (p : Path) : b.fileLocation p = a.fileLocation p :=
  h.sameDirectories.fileLocation_eq p

theorem openForWriting_eq (h : Steady a b) (p : Path) :
    b.openForWriting p = a.openForWriting p := by
  have hAccepts : b.accepts = a.accepts := funext h.accepts
  simp only [openForWriting, h.fileLocation_eq, hAccepts]

theorem sameFile_iff (h : Steady a b) (p q : Path) : b.SameFile p q ↔ a.SameFile p q := by
  simp only [SameFile, h.fileLocation_eq]

end Steady

theorem sameFile_iff_isSome {fs : FileSystem} {p q : Path} :
    fs.SameFile p q ↔ (fs.fileLocation p).isSome ∧ fs.fileLocation q = fs.fileLocation p := by
  unfold SameFile
  cases hp : fs.fileLocation p with
  | none => simp
  | some l => simp

theorem sameFile_comm {fs : FileSystem} {p q : Path} : fs.SameFile p q ↔ fs.SameFile q p :=
  exists_congr fun _ => And.comm

instance (fs : FileSystem) (p q : Path) : Decidable (fs.SameFile p q) :=
  decidable_of_iff _ sameFile_iff_isSome.symm

theorem openForWriting_eq_some_iff {fs : FileSystem} {p : Path} {l : Location} :
    fs.openForWriting p = some l ↔ fs.fileLocation p = some l ∧ fs.accepts l = true := by
  simp [openForWriting, Option.filter_eq_some_iff]

theorem not_directory_of_accepts {fs : FileSystem} {l : Location} (h : fs.accepts l = true)
    (w : Bool) : fs.node l ≠ some (.directory w) := by
  intro hn
  simp [FileSystem.accepts, hn] at h

theorem directoryWritable_eq_true_iff (fs : FileSystem) (l : Location) :
    fs.directoryWritable l = true ↔ fs.node l = some (.directory true) := by
  unfold directoryWritable
  split <;> simp_all

theorem directoryWritable_congr {a b : FileSystem}
    (h : ∀ l w, b.node l = some (.directory w) ↔ a.node l = some (.directory w)) (l : Location) :
    b.directoryWritable l = a.directoryWritable l := by
  rw [Bool.eq_iff_iff, directoryWritable_eq_true_iff, directoryWritable_eq_true_iff]
  exact h l true

/-- Changing one location that is not and does not become a directory keeps the others. -/
theorem steady_of_update {a b : FileSystem} {l : Location}
    (hcwd : b.currentDirectory = a.currentDirectory)
    (hother : ∀ k, k ≠ l → b.node k = a.node k)
    (ha : ∀ w, a.node l ≠ some (.directory w)) (hb : ∀ w, b.node l ≠ some (.directory w))
    (hl : b.accepts l = a.accepts l) : Steady a b := by
  have hdir : ∀ k w, b.node k = some (.directory w) ↔ a.node k = some (.directory w) := by
    intro k w
    by_cases hk : k = l
    · subst k
      exact iff_of_false (hb w) (ha w)
    · rw [hother k hk]
  refine ⟨hcwd, hdir, fun k => ?_⟩
  by_cases hk : k = l
  · subst k
    exact hl
  · simp only [accepts, hother k hk, directoryWritable_congr hdir]

@[simp] theorem node_store (fs : FileSystem) (l k : Location) (c : Bytes) :
    (fs.store l c).node k = if k = l then some (.file c true) else fs.node k := rfl

@[simp] theorem node_erase (fs : FileSystem) (l k : Location) :
    (fs.erase l).node k = if k = l then none else fs.node k := rfl

@[simp] theorem node_record (fs : FileSystem) (p : Path) (c : Bytes) :
    (fs.record p c).node = fs.node := rfl

@[simp] theorem journal_record (fs : FileSystem) (p : Path) (c : Bytes) :
    (fs.record p c).journal = (p, c) :: fs.journal := rfl

@[simp] theorem journal_store (fs : FileSystem) (l : Location) (c : Bytes) :
    (fs.store l c).journal = fs.journal := rfl

@[simp] theorem journal_erase (fs : FileSystem) (l : Location) :
    (fs.erase l).journal = fs.journal := rfl

theorem store_store (fs : FileSystem) (l : Location) (c d : Bytes) :
    (fs.store l c).store l d = fs.store l d := by
  simp only [store]
  congr 1
  funext k
  split <;> rfl

theorem store_steady {fs : FileSystem} {l : Location} (h : fs.accepts l = true) (c : Bytes) :
    Steady fs (fs.store l c) := by
  refine steady_of_update (l := l) rfl ?_ (not_directory_of_accepts h) ?_ ?_
  · intro k hk
    simp [hk]
  · intro w
    simp
  · rw [h]
    simp [accepts]

theorem record_steady (fs : FileSystem) (p : Path) (c : Bytes) : Steady fs (fs.record p c) :=
  ⟨rfl, fun _ _ => Iff.rfl, fun _ => rfl⟩

theorem erase_steady {fs : FileSystem} {l : Location} (h : fs.accepts l = true)
    (hdir : fs.directoryWritable l.dropLast = true) : Steady fs (fs.erase l) := by
  refine steady_of_update (l := l) rfl ?_ (not_directory_of_accepts h) ?_ ?_
  · intro k hk
    simp [hk]
  · intro w
    simp
  · rw [h]
    have hparent := (directoryWritable_eq_true_iff fs _).mp hdir
    -- a root that were its own parent would be a directory, which an open for writing excludes
    have hne : l.dropLast ≠ l := by
      intro he
      exact not_directory_of_accepts h true (he ▸ hparent)
    simp [accepts, (directoryWritable_eq_true_iff (fs.erase l) _).mpr, hparent, hne]

/-- Reading is decided by the node at the resolved location. -/
theorem lookup_eq_of_node {a b : FileSystem} (h : Steady a b) {p : Path}
    (hn : ∀ t, a.locate p = some t → b.node t.location = a.node t.location) :
    b.lookup p = a.lookup p := by
  simp only [lookup, h.locate_eq]
  cases ht : a.locate p with
  | none => rfl
  | some t => simp only [hn t ht]

theorem fileLocation_eq_some_iff {fs : FileSystem} {p : Path} {l : Location} :
    fs.fileLocation p = some l ↔ fs.locate p = some ⟨l, false⟩ := by
  unfold fileLocation
  split
  · rename_i h
    rw [h]
    simp
  · rename_i hno
    constructor
    · simp
    · exact fun h => (hno l h).elim

theorem lookup_of_fileLocation {fs : FileSystem} {p : Path} {l : Location}
    (h : fs.fileLocation p = some l) : fs.lookup p = fs.node l := by
  rw [fileLocation_eq_some_iff] at h
  simp only [lookup, h]
  split <;> simp_all

theorem lookup_store_self {fs : FileSystem} {p : Path} {l : Location}
    (hp : fs.fileLocation p = some l) (ha : fs.accepts l = true) (c : Bytes) :
    (fs.store l c).lookup p = some (.file c true) := by
  have hq : (fs.store l c).fileLocation p = some l := by
    rw [(store_steady ha c).fileLocation_eq, hp]
  rw [lookup_of_fileLocation hq]
  simp

/-- A path with a trailing slash sees no file, whatever is stored under its location. -/
theorem lookup_of_directoryOnly {fs : FileSystem} {p : Path} {l : Location}
    (h : fs.locate p = some ⟨l, true⟩) (ha : ∀ w, fs.node l ≠ some (.directory w)) :
    fs.lookup p = none := by
  simp only [lookup, h]
  cases hn : fs.node l with
  | none => rfl
  | some n =>
    cases n with
    | file c w => rfl
    | directory w => exact (ha w hn).elim

theorem lookup_update_of_ne {a b : FileSystem} (h : Steady a b) {p : Path} {l : Location}
    (hother : ∀ k, k ≠ l → b.node k = a.node k)
    (ha : ∀ w, a.node l ≠ some (.directory w)) (hp : a.fileLocation p ≠ some l) :
    b.lookup p = a.lookup p := by
  cases ht : a.locate p with
  | none => simp only [lookup, h.locate_eq, ht]
  | some t =>
    by_cases hl : t.location = l
    · obtain ⟨k, d⟩ := t
      subst hl
      cases d with
      | false => exact (hp (fileLocation_eq_some_iff.mpr ht)).elim
      | true =>
        have hb : ∀ w, b.node k ≠ some (.directory w) :=
          fun w hw => ha w ((h.directory k w).mp hw)
        rw [lookup_of_directoryOnly ht ha, lookup_of_directoryOnly (by rw [h.locate_eq, ht]) hb]
    · refine lookup_eq_of_node h fun u hu => ?_
      rw [Option.some.inj (hu.symm.trans ht)]
      exact hother _ hl

theorem lookup_store_of_ne {fs : FileSystem} {p : Path} {l : Location}
    (ha : fs.accepts l = true) (hp : fs.fileLocation p ≠ some l) (c : Bytes) :
    (fs.store l c).lookup p = fs.lookup p := by
  refine lookup_update_of_ne (store_steady ha c) ?_ (not_directory_of_accepts ha) hp
  intro k hk
  simp [hk]

@[simp] theorem lookup_record (fs : FileSystem) (p q : Path) (c : Bytes) :
    (fs.record p c).lookup q = fs.lookup q := by
  simp only [lookup, (record_steady fs p c).locate_eq, node_record]

theorem content_congr {a b : FileSystem} {p : Path} (h : b.lookup p = a.lookup p) :
    b.content p = a.content p := by
  simp only [content, h]

theorem content_of_lookup {fs : FileSystem} {p : Path} {c : Bytes} {w : Bool}
    (h : fs.lookup p = some (.file c w)) : fs.content p = some c := by
  simp only [content, h]

end FileSystem
end Files
