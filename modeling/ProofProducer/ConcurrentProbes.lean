import ProofProducer.ProbePrediction
import ProofProducer.Shared.Interleaving

/-!
# Write probes of several processes

The probe as a sequence of steps that other processes may come between. All of them use one
temporary file, and may find it, empty it or remove it behind each other's back.
-/

namespace ProofProducer

open Effects Files Files.FileSystem Interleavings

set_option autoImplicit false

/-- Where `can_write_to_file` is, by what it does next. -/
inductive ProbeState where
  | start
  | append
  | parent
  | create
  | close (opened : Bool)
  | remove
  | done (answer : Except Exception Bool)

def probeStep (path : Path) : ProbeState × FileSystem → ProbeState × FileSystem
  | (.start, fs) =>
    (if !isValidPath path then .done (.ok false)
      else if fileExists fs path then .append else .parent, fs)
  | (.append, fs) => (.done ((openForAppending path).run fs).1, ((openForAppending path).run fs).2)
  | (.parent, fs) =>
    let parentDir := parentPath (absolute fs path)
    (if parentDir = [] then .done (.ok false)
      else if !fileExists fs parentDir then .done (.ok false) else .create, fs)
  | (.create, fs) =>
    match fs.openForWriting (probeFile fs path) with
    | none => (.close false, fs)
    | some l => (.close true, fs.store l [])
  | (.close opened, fs) => (if opened then .remove else .done (.ok false), fs)
  | (.remove, fs) =>
    match (removeFile (probeFile fs path)).run fs with
    | (.ok _, fs') => (.done (.ok true), fs')
    | (.error e, fs') => (.done (.error e), fs')
  | (.done answer, fs) => (.done answer, fs)

section Steps
variable (path : Path) (fs : FileSystem)

@[simp] theorem probeStep_start : probeStep path (.start, fs) =
    (if !isValidPath path then .done (.ok false)
      else if fileExists fs path then .append else .parent, fs) := rfl

@[simp] theorem probeStep_append : probeStep path (.append, fs) =
    (.done ((openForAppending path).run fs).1, ((openForAppending path).run fs).2) := rfl

@[simp] theorem probeStep_parent : probeStep path (.parent, fs) =
    (if parentPath (absolute fs path) = [] then .done (.ok false)
      else if !fileExists fs (parentPath (absolute fs path)) then .done (.ok false)
      else .create, fs) := rfl

@[simp] theorem probeStep_create : probeStep path (.create, fs) =
    match fs.openForWriting (probeFile fs path) with
    | none => (.close false, fs)
    | some l => (.close true, fs.store l []) := rfl

@[simp] theorem probeStep_close (opened : Bool) : probeStep path (.close opened, fs) =
    (if opened then .remove else .done (.ok false), fs) := rfl

/-- That the file was not there any more makes no difference. -/
@[simp] theorem probeStep_remove : probeStep path (.remove, fs) =
    match fs.remove (probeFile fs path) with
    | (.removed, fs') => (.done (.ok true), fs')
    | (.absent, fs') => (.done (.ok true), fs')
    | (.denied, fs') => (.done (.error ⟨"boost::filesystem::remove"⟩), fs') := by
  have hremove : (removeFile (probeFile fs path)).run fs =
      match fs.remove (probeFile fs path) with
      | (.removed, fs') => (.ok true, fs')
      | (.absent, fs') => (.ok false, fs')
      | (.denied, fs') => (.error ⟨"boost::filesystem::remove"⟩, fs') := rfl
  change (match (removeFile (probeFile fs path)).run fs with
    | (.ok _, fs') => (ProbeState.done (.ok true), fs')
    | (.error e, fs') => (.done (.error e), fs')) = _
  rw [hremove]
  rcases fs.remove (probeFile fs path) with ⟨removal, fs'⟩
  cases removal <;> rfl

@[simp] theorem probeStep_done (answer : Except Exception Bool) :
    probeStep path (.done answer, fs) = (.done answer, fs) := rfl

end Steps

/-- How many steps are left at most. -/
def ProbeState.rank : ProbeState → Nat
  | .start => 5
  | .append => 1
  | .parent => 4
  | .create => 3
  | .close _ => 2
  | .remove => 1
  | .done _ => 0

variable {path : Path} {fs fs₀ : FileSystem} {l : Location}

/-- The steps made one after the other are the probe. -/
theorem probeStep_alone (path : Path) (fs : FileSystem) :
    (probeStep path)^[5] (.start, fs) =
      (.done ((canWriteToFile path).run fs).1, ((canWriteToFile path).run fs).2) := by
  have hdone : ∀ n r fs, (probeStep path)^[n] (.done r, fs) = (.done r, fs) := by
    intro n r fs
    exact Function.iterate_fixed rfl n
  rw [canWriteToFile_run, Function.iterate_succ_apply]
  cases hv : isValidPath path with
  | false => simp [hv, hdone]
  | true =>
    cases he : fileExists fs path with
    | true =>
      have hstart : probeStep path (.start, fs) = (.append, fs) := by simp [hv, he]
      rw [hstart, Function.iterate_succ_apply]
      simp [openForAppending_run_of_exists he, hdone]
    | false =>
      have hstart : probeStep path (.start, fs) = (.parent, fs) := by simp [hv, he]
      rw [hstart, Function.iterate_succ_apply]
      by_cases hparent : parentPath (absolute fs path) = []
      · simp [hparent, hdone]
      cases hdir : fileExists fs (parentPath (absolute fs path)) with
      | false => simp [hparent, hdir, hdone]
      | true =>
        have hcreate : probeStep path (.parent, fs) = (.create, fs) := by
          simp [hparent, hdir]
        rw [hcreate, Function.iterate_succ_apply]
        cases ho : fs.openForWriting (probeFile fs path) with
        | none => simp [hparent, ho]
        | some l =>
          obtain ⟨hl, ha⟩ := openForWriting_eq_some_iff.mp ho
          have hprobe : probeFile (fs.store l []) path = probeFile fs path :=
            probeFile_steady (store_steady ha []) path
          simp only [probeStep_create, ho, Function.iterate_succ_apply, Function.iterate_zero,
            id_eq, probeStep_close, if_true, probeStep_remove, hprobe, remove_store hl ha]
          cases fs.directoryWritable l.dropLast <;> simp [hparent]

theorem rank_probeStep (path : Path) (state : ProbeState) (fs : FileSystem) :
    (probeStep path (state, fs)).1.rank ≤ state.rank - 1 := by
  cases state with
  | start =>
    simp only [probeStep_start]
    split
    · exact Nat.zero_le _
    · split
      · exact Nat.le_of_ble_eq_true rfl
      · exact Nat.le_refl _
  | append => exact Nat.le_refl _
  | parent =>
    simp only [probeStep_parent]
    split
    · exact Nat.zero_le _
    · split
      · exact Nat.zero_le _
      · exact Nat.le_refl _
  | create =>
    simp only [probeStep_create]
    split
    · exact Nat.le_refl _
    · exact Nat.le_refl _
  | close opened => cases opened <;> simp [ProbeState.rank]
  | remove =>
    simp only [probeStep_remove]
    split
    · exact Nat.le_refl _
    · exact Nat.le_refl _
    · exact Nat.le_refl _
  | done r => exact Nat.le_refl _

/-- The file system is the one at the start, but for an empty file at `l` that may be there. -/
inductive OrTemporary (initial : FileSystem) (k : Location) : FileSystem → Prop where
  | absent : OrTemporary initial k initial
  | present : initial.accepts k = true → OrTemporary initial k (initial.store k [])

theorem OrTemporary.steady (h : OrTemporary fs₀ l fs) : Steady fs₀ fs := by
  cases h with
  | absent => exact .refl _
  | present ha => exact store_steady ha []

theorem OrTemporary.fileExists_eq (h : OrTemporary fs₀ l fs) {p : Path}
    (hp : fs₀.fileLocation p ≠ some l) : fileExists fs p = fileExists fs₀ p := by
  cases h with
  | absent => rfl
  | present ha => rw [fileExists, lookup_store_of_ne ha hp, fileExists]

theorem OrTemporary.store (h : OrTemporary fs₀ l fs) (ha : fs₀.accepts l = true) :
    OrTemporary fs₀ l (fs.store l []) := by
  cases h with
  | absent => exact .present ha
  | present _ =>
    rw [store_store]
    exact .present ha

/-- A missing target whose probe uses no other temporary file than `l`, and whose tests do not
look at that file. -/
structure Clear (fs₀ : FileSystem) (l : Location) (path : Path) : Prop where
  free : fs₀.node l = none
  missing : fileExists fs₀ path = false
  target : fs₀.fileLocation path ≠ some l
  parent : fs₀.fileLocation (parentPath (absolute fs₀ path)) ≠ some l
  probe : ∀ k, Probes fs₀ path k → k = l

theorem Clear.writable (h : Clear fs₀ l path) {k : Location} (hk : Probes fs₀ path k) :
    fs₀.directoryWritable l.dropLast = true := by
  have ha := hk.accepts
  rw [h.probe k hk, FileSystem.accepts, h.free] at ha
  exact ha

theorem Clear.answer_yes (h : Clear fs₀ l path) {k : Location} (hk : Probes fs₀ path k) :
    ((canWriteToFile path).run fs₀).1 = .ok true := by
  have hw := h.writable hk
  rw [canWriteToFile_of_probes hk, h.probe k hk, if_pos hw]

theorem Clear.answer_no (h : Clear fs₀ l path) (hno : ∀ k, ¬ Probes fs₀ path k) :
    ((canWriteToFile path).run fs₀).1 = .ok false := by
  rw [canWriteToFile_of_not_probes hno, h.missing]
  simp

theorem Clear.no_throw (h : Clear fs₀ l path) :
    ∃ b, ((canWriteToFile path).run fs₀).1 = .ok b := by
  by_cases hk : ∃ k, Probes fs₀ path k
  · obtain ⟨k, hk⟩ := hk
    exact ⟨true, h.answer_yes hk⟩
  · exact ⟨false, h.answer_no fun k hp => hk ⟨k, hp⟩⟩

/-- What a process has found out on its way, in terms of the file system at the start. -/
def Expected (fs₀ : FileSystem) (path : Path) : ProbeState → Prop
  | .start => True
  | .append => False
  | .parent => isValidPath path = true
  | .create => isValidPath path = true ∧ parentPath (absolute fs₀ path) ≠ [] ∧
      fileExists fs₀ (parentPath (absolute fs₀ path)) = true
  | .close opened => opened = true ↔ ∃ k, Probes fs₀ path k
  | .remove => ∃ k, Probes fs₀ path k
  | .done answer => answer = ((canWriteToFile path).run fs₀).1

/-- The process has opened the temporary file and is going to remove it. -/
def Owes : ProbeState → Prop
  | .close opened => opened = true
  | .remove => True
  | _ => False

/-- The outcome of a step: the file system is still the one at the start but for the temporary
file, and if that is there, the process holds it or has left it as it was. -/
structure Kept (fs₀ fs : FileSystem) (l : Location) (path : Path) (state : ProbeState)
    (next : ProbeState × FileSystem) : Prop where
  expected : Expected fs₀ path next.1
  files : OrTemporary fs₀ l next.2
  held : next.2 = fs₀ ∨ Owes next.1 ∨ next.2 = fs ∧ ¬ Owes state

theorem kept_start (hclear : Clear fs₀ l path) (hfs : OrTemporary fs₀ l fs) :
    Kept fs₀ fs l path .start (probeStep path (.start, fs)) := by
  refine ⟨?_, hfs, Or.inr (Or.inr ⟨rfl, id⟩)⟩
  have hmissing : fileExists fs path = false := by
    rw [hfs.fileExists_eq hclear.target, hclear.missing]
  cases hv : isValidPath path with
  | false =>
    have hno : ∀ k, ¬ Probes fs₀ path k := by
      intro k hk
      rw [hk.valid] at hv
      simp at hv
    simp [hv, Expected, hclear.answer_no hno]
  | true => simp [hv, hmissing, Expected]

theorem kept_parent (hclear : Clear fs₀ l path) (hfs : OrTemporary fs₀ l fs)
    (hvalid : isValidPath path = true) :
    Kept fs₀ fs l path .parent (probeStep path (.parent, fs)) := by
  refine ⟨?_, hfs, Or.inr (Or.inr ⟨rfl, id⟩)⟩
  have habs := absolute_steady hfs.steady path
  have hexists := hfs.fileExists_eq hclear.parent
  by_cases hnil : parentPath (absolute fs₀ path) = []
  · have hno : ∀ k, ¬ Probes fs₀ path k := fun k hk => hk.parent hnil
    simp [habs, hnil, Expected, hclear.answer_no hno]
  cases hdir : fileExists fs₀ (parentPath (absolute fs₀ path)) with
  | false =>
    have hno : ∀ k, ¬ Probes fs₀ path k := by
      intro k hk
      rw [hk.parentExists] at hdir
      simp at hdir
    simp [habs, hnil, hexists, hdir, Expected, hclear.answer_no hno]
  | true => simp [habs, hnil, hexists, hdir, Expected, hvalid]

theorem kept_create (hclear : Clear fs₀ l path) (hfs : OrTemporary fs₀ l fs)
    (hexpected : Expected fs₀ path .create) :
    Kept fs₀ fs l path .create (probeStep path (.create, fs)) := by
  obtain ⟨hvalid, hparent, hdir⟩ := hexpected
  have hopen : fs.openForWriting (probeFile fs path) =
      fs₀.openForWriting (probeFile fs₀ path) := by
    rw [probeFile_steady hfs.steady, hfs.steady.openForWriting_eq]
  cases ho : fs₀.openForWriting (probeFile fs₀ path) with
  | none =>
    have hstep : probeStep path (.create, fs) = (.close false, fs) := by
      simp [hopen, ho]
    rw [hstep]
    refine ⟨?_, hfs, Or.inr (Or.inr ⟨rfl, id⟩)⟩
    apply iff_of_false Bool.false_ne_true
    intro h
    obtain ⟨k, hk⟩ := h
    rw [hk.opens] at ho
    simp at ho
  | some k =>
    have hk : Probes fs₀ path k := ⟨hvalid, hclear.missing, hparent, hdir, ho⟩
    have hstep : probeStep path (.create, fs) = (.close true, fs.store k []) := by
      simp [hopen, ho]
    rw [hstep, hclear.probe k hk]
    have ha := hk.accepts
    rw [hclear.probe k hk] at ha
    exact ⟨iff_of_true rfl ⟨k, hk⟩, hfs.store ha, Or.inr (Or.inl rfl)⟩

theorem kept_close (hclear : Clear fs₀ l path) (hfs : OrTemporary fs₀ l fs) {opened : Bool}
    (hexpected : Expected fs₀ path (.close opened)) :
    Kept fs₀ fs l path (.close opened) (probeStep path (.close opened, fs)) := by
  cases opened with
  | true => exact ⟨hexpected.mp rfl, hfs, Or.inr (Or.inl trivial)⟩
  | false =>
    have hno : ∀ k, ¬ Probes fs₀ path k := fun k hk => by simpa using hexpected.mpr ⟨k, hk⟩
    exact ⟨(hclear.answer_no hno).symm, hfs, Or.inr (Or.inr ⟨rfl, Bool.false_ne_true⟩)⟩

/-- Whoever removes the temporary file, after that it is gone. -/
theorem kept_remove (hclear : Clear fs₀ l path) (hfs : OrTemporary fs₀ l fs)
    (hexpected : Expected fs₀ path .remove) :
    Kept fs₀ fs l path .remove (probeStep path (.remove, fs)) := by
  obtain ⟨k, hk⟩ := hexpected
  have hw := hclear.writable hk
  have hl : fs₀.fileLocation (probeFile fs₀ path) = some l := by
    rw [← hclear.probe k hk]
    exact (openForWriting_eq_some_iff.mp hk.opens).1
  have hstep : probeStep path (.remove, fs) = (.done (.ok true), fs₀) := by
    cases hfs with
    | absent => simp [FileSystem.remove, hl, hclear.free]
    | present ha =>
      have hback : (fs₀.store l []).erase l = fs₀ := erase_store_eq_self_iff.mpr hclear.free
      simp [probeFile_steady (store_steady ha []), remove_store hl ha,
        hw, hback]
  rw [hstep]
  exact ⟨(hclear.answer_yes hk).symm, .absent, Or.inl rfl⟩

/-- No step of any process does more than create or remove the temporary file. -/
theorem probeStep_kept (hclear : Clear fs₀ l path) (hfs : OrTemporary fs₀ l fs)
    {state : ProbeState} (hexpected : Expected fs₀ path state) :
    Kept fs₀ fs l path state (probeStep path (state, fs)) := by
  cases state with
  | start => exact kept_start hclear hfs
  | append => exact hexpected.elim
  | parent => exact kept_parent hclear hfs hexpected
  | create => exact kept_create hclear hfs hexpected
  | close opened => exact kept_close hclear hfs hexpected
  | remove => exact kept_remove hclear hfs hexpected
  | done answer => exact ⟨hexpected, hfs, Or.inr (Or.inr ⟨rfl, id⟩)⟩

/-- A missing target in the directory that is not the temporary file there. -/
structure MissingIn (fs : FileSystem) (dir : Location) (path : Path) : Prop where
  missing : fileExists fs path = false
  located : ∃ name directoryOnly, fs.locate path = some ⟨dir ++ [name], directoryOnly⟩ ∧
    name ≠ tempFileName

/-- The walk to a missing target ends in the directory that the target would be in. -/
theorem walk_of_missing (hwf : fs.WellFormed) (hmissing : fileExists fs path = false)
    {dir : Location} {name : List Char} {flag : Bool}
    (hlocate : fs.locate path = some ⟨dir ++ [name], flag⟩) :
    path ≠ [] ∧ ∃ xs, components path = xs ++ [name] ∧
      fs.descend (fs.origin path) xs = some dir := by
  have hne : path ≠ [] := by
    intro h
    simp [locate, h] at hlocate
  refine ⟨hne, ?_⟩
  rcases List.eq_nil_or_concat (components path) with hnil | ⟨xs, last, hc⟩
  · have hwalk := descend_of_missing hmissing hne
    rw [hnil] at hwalk
    simp [descend, hwf.isDirectory_origin path] at hwalk
  · rw [List.concat_eq_append] at hc
    have hshape := hlocate
    rw [locate_of_components hne hc, Option.map_eq_some_iff] at hshape
    obtain ⟨m, hm, ht⟩ := hshape
    have hdots : ¬ (last = ['.'] ∨ last = ['.', '.']) := by
      intro h
      have hsome := lookup_of_dots hwf hne hc h hm
      rw [fileExists, hsome] at hmissing
      simp at hmissing
    obtain ⟨hdot, hdotdot⟩ := not_or.mp hdots
    have hloc : m ++ [last] = dir ++ [name] := by
      have h := congrArg Target.location ht
      simpa [move, hdot, hdotdot] using h
    obtain ⟨rfl, hlast⟩ := List.append_inj' hloc rfl
    exact ⟨xs, by rw [hc, hlast], hm⟩

/-- A walk that comes by a missing path or goes to the directory it would be in does not end at
the temporary file. -/
theorem parent_not_temporary (hwf : fs.WellFormed) (hmissing : fileExists fs path = false)
    {dir : Location} {name : List Char} (hname : name ≠ tempFileName) {xs : List (List Char)}
    (hne : path ≠ []) (hc : components path = xs ++ [name])
    (hdir : fs.descend (fs.origin path) xs = some dir)
    (hfree : fs.node (dir ++ [tempFileName]) = none) {p : Path} (horigin : fs.origin p = [])
    (hp : components p = fs.origin path ++ xs ∨
      ∃ ws, components p = fs.origin path ++ components path ++ ws) :
    fs.fileLocation p ≠ some (dir ++ [tempFileName]) := by
  intro hl
  have hstart := hwf.isDirectory_origin path
  obtain ⟨ys, last, m, hlast, hdot, hdotdot, _, hwalk, heq⟩ := fileLocation_inv hl
  obtain ⟨rfl, htemp⟩ := List.append_inj' heq rfl
  have hend : last = tempFileName := (List.cons.inj htemp).1.symm
  rw [horigin] at hwalk
  rcases hp with hp | ⟨ws, hp⟩
  · -- the directory would be its own entry, the temporary file
    have hself : fs.descend [] (ys ++ [last]) = some dir := by
      rw [← hlast, hp, hwf.descend_under hstart, hdir]
    rw [descend_concat, hwalk, Option.bind_some, move, if_neg hdot, if_neg hdotdot, hend] at hself
    have hnode : fs.isDirectory (dir ++ [tempFileName]) = false := by
      simp [isDirectory, hfree]
    simp [hnode] at hself
  · rcases List.eq_nil_or_concat ws with hnil | ⟨vs, w, hw⟩
    · -- the last name of the path would be that of the temporary file
      rw [hlast, hnil, List.append_nil, hc, ← List.append_assoc] at hp
      have hsame := (List.append_inj' hp rfl).2
      exact hname ((List.cons.inj hsame).1.symm.trans hend)
    · -- the walk would go through the missing path
      rw [hlast, hw, List.concat_eq_append, ← List.append_assoc] at hp
      rw [(List.append_inj' hp rfl).1, List.append_assoc, hwf.descend_under hstart,
        descend_append, descend_of_missing hmissing hne] at hwalk
      simp at hwalk

theorem MissingIn.clear (hwf : fs.WellFormed) {dir : Location} (h : MissingIn fs dir path)
    (hfree : fs.node (dir ++ [tempFileName]) = none) : Clear fs (dir ++ [tempFileName]) path := by
  obtain ⟨hmissing, name, flag, hlocate, hname⟩ := h
  obtain ⟨hne, xs, hc, hdir⟩ := walk_of_missing hwf hmissing hlocate
  have horigin := hwf.isDirectory_origin path
  have hwalk := descend_of_missing hmissing hne
  -- the parent that is probed, as a walk from the root
  have hkey : (∃ rest, absolute fs path = rootName (absolute fs path) ++ '/' :: rest) ∧
      (components (parentPath (absolute fs path)) = fs.origin path ++ xs ∨
        ∃ ws, components (parentPath (absolute fs path)) =
          fs.origin path ++ components path ++ ws) := by
    by_cases hroot : rootName path = path
    · obtain ⟨hsplit, ws, hws⟩ := bare_root_parent fs hne hroot (bare_root_long hwf hmissing)
      refine ⟨hsplit, Or.inr ⟨ws, ?_⟩⟩
      rw [origin_of_bare_root hne hroot, List.nil_append, hws]
    · refine ⟨(absolute_spec hwf hne hroot).1, ?_⟩
      have hparent := parent_components hwf hne hroot
      split at hparent
      · exact Or.inr ⟨[], by rw [hparent, List.append_nil]⟩
      · rw [hc, List.dropLast_concat] at hparent
        exact Or.inl hparent.2
  obtain ⟨⟨rest, hsplit⟩, hparent⟩ := hkey
  refine ⟨hfree, hmissing, ?_, ?_, ?_⟩
  · intro hl
    rw [fileLocation_eq_some_iff, hlocate] at hl
    have hsame := (List.append_inj' (congrArg Target.location (Option.some.inj hl)) rfl).2
    exact hname (List.cons.inj hsame).1
  · intro hl
    obtain ⟨_, _, _, _, _, hhead⟩ := parentPath_spec hsplit
    have hparentNe : parentPath (absolute fs path) ≠ [] := by
      intro hnil
      rw [hnil] at hl
      simp [fileLocation, locate] at hl
    have hroot : fs.origin (parentPath (absolute fs path)) = [] := by
      rw [origin, if_pos (hhead hparentNe)]
    exact parent_not_temporary hwf hmissing hname hne hc hdir hfree hroot hparent hl
  · intro k hk
    obtain ⟨_, m, hm, hk', _⟩ := (probes_iff hk.valid hmissing hsplit).mp hk
    rcases hparent with hparent | ⟨ws, hparent⟩
    · rw [hparent, hwf.descend_under horigin, hdir] at hm
      rw [hk', Option.some.inj hm]
    · rw [hparent, List.append_assoc, hwf.descend_under horigin, descend_append, hwalk] at hm
      simp at hm

abbrev Tree := Location → Option Node

/-- The file tree as a process in the directory `cwd` sees it. -/
def seen (cwd : Location) (tree : Tree) : FileSystem := ⟨cwd, tree, []⟩

section Processes
variable {ι : Type} [DecidableEq ι] {cwd : ι → Location} {paths : ι → Path}
variable {tree₀ tree : Tree} {c : Location}

/-- One step of the process `i`, which has its own current directory and its own target. -/
def processStep (cwd : ι → Location) (paths : ι → Path) (i : ι) :
    ProbeState × Tree → ProbeState × Tree
  | (state, tree) =>
    let next := probeStep (paths i) (state, seen (cwd i) tree)
    (next.1, next.2.node)

theorem remove_seen (c : Location) (tree : Tree) (p : Path) :
    ((seen c tree).remove p).2 = seen c ((seen c tree).remove p).2.node := by
  unfold FileSystem.remove
  split
  · rfl
  · split
    · rfl
    · rfl
    · split
      · rfl
      · rfl

theorem openForAppending_seen (c : Location) (tree : Tree) (p : Path) :
    ((openForAppending p).run (seen c tree)).2 =
      seen c ((openForAppending p).run (seen c tree)).2.node := by
  simp only [Action.run, openForAppending]
  split
  · rfl
  · unfold touch
    split
    · rfl
    · rfl

/-- No step changes more of the file system than the tree. -/
theorem probeStep_seen (path : Path) (state : ProbeState) (c : Location) (tree : Tree) :
    (probeStep path (state, seen c tree)).2 =
      seen c (probeStep path (state, seen c tree)).2.node := by
  cases state with
  | append => exact openForAppending_seen c tree path
  | create =>
    simp only [probeStep_create]
    split
    · rfl
    · rfl
  | remove =>
    have hremove := remove_seen c tree (probeFile (seen c tree) path)
    simp only [probeStep_remove]
    cases hr : (seen c tree).remove (probeFile (seen c tree) path) with
    | mk removal after =>
      rw [hr] at hremove
      cases removal <;> exact hremove
  | start => rfl
  | parent => rfl
  | close opened => rfl
  | done answer => rfl

/-- A process that is never interrupted calls `can_write_to_file`. -/
theorem processStep_alone (i : ι) (tree : Tree) :
    let g := run (processStep cwd paths) ⟨fun _ => .start, tree⟩ (List.replicate 5 i)
    let called := (canWriteToFile (paths i)).run (seen (cwd i) tree)
    g.locals i = .done called.1 ∧ seen (cwd i) g.shared = called.2 := by
  have hsteps : ∀ n state tree, (probeStep (paths i))^[n] (state, seen (cwd i) tree) =
      (((processStep cwd paths i)^[n] (state, tree)).1,
        seen (cwd i) ((processStep cwd paths i)^[n] (state, tree)).2) := by
    intro n
    induction n with
    | zero => exact fun _ _ => rfl
    | succ n ih =>
      intro state tree
      have hstep : probeStep (paths i) (state, seen (cwd i) tree) =
          ((processStep cwd paths i (state, tree)).1,
            seen (cwd i) (processStep cwd paths i (state, tree)).2) :=
        Prod.ext rfl (probeStep_seen (paths i) state (cwd i) tree)
      rw [Function.iterate_succ_apply, hstep, ih, Function.iterate_succ_apply]
  have halone := probeStep_alone (paths i) (seen (cwd i) tree)
  have hrun := run_replicate (processStep cwd paths) ⟨fun _ => .start, tree⟩ i 5
  rw [hsteps, ← hrun] at halone
  exact ⟨congrArg Prod.fst halone, congrArg Prod.snd halone⟩

/-- Where a process is does not matter for what has become of the tree. -/
theorem OrTemporary.seen (h : OrTemporary (seen c tree₀) l (seen c tree)) (d : Location) :
    OrTemporary (ProofProducer.seen d tree₀) l (ProofProducer.seen d tree) := by
  generalize hafter : ProofProducer.seen c tree = after at h
  have htree : after.node = tree := by rw [← hafter]; rfl
  cases h with
  | absent =>
    rw [← htree]
    exact .absent
  | present ha =>
    rw [← htree]
    exact .present ha

/-- The invariant of all interleavings: every process is where it would be without the others, and
a temporary file that is there is going to be removed by one of them. -/
structure Undisturbed (cwd : ι → Location) (paths : ι → Path) (tree₀ : Tree) (l : Location)
    (g : Global ι ProbeState Tree) : Prop where
  expected : ∀ i, Expected (seen (cwd i) tree₀) (paths i) (g.locals i)
  files : ∀ c, OrTemporary (seen c tree₀) l (seen c g.shared)
  owed : g.shared ≠ tree₀ → ∃ i, Owes (g.locals i)

omit [DecidableEq ι] in
theorem undisturbed_start : Undisturbed cwd paths tree₀ l ⟨fun _ => .start, tree₀⟩ :=
  ⟨fun _ => trivial, fun _ => .absent, fun h => (h rfl).elim⟩

theorem undisturbed_turn (hclear : ∀ i, Clear (seen (cwd i) tree₀) l (paths i))
    (g : Global ι ProbeState Tree) (i : ι) (h : Undisturbed cwd paths tree₀ l g) :
    Undisturbed cwd paths tree₀ l (turn (processStep cwd paths) g i) := by
  have hkept := probeStep_kept (hclear i) (h.files (cwd i)) (h.expected i)
  have hseen := probeStep_seen (paths i) (g.locals i) (cwd i) g.shared
  refine ⟨?_, ?_, ?_⟩
  · exact locals_turn (P := fun j => Expected (seen (cwd j) tree₀) (paths j)) hkept.expected
      h.expected
  · intro c
    have hfiles := hkept.files
    rw [hseen] at hfiles
    exact hfiles.seen c
  · intro hchanged
    rcases hkept.held with hback | howes | ⟨hsame, hfree⟩
    · exact (hchanged (congrArg FileSystem.node hback)).elim
    · refine ⟨i, ?_⟩
      rw [locals_turn_self]
      exact howes
    · -- whoever owes the removal has not moved
      have hshared : (turn (processStep cwd paths) g i).shared = g.shared :=
        congrArg FileSystem.node hsame
      rw [hshared] at hchanged
      obtain ⟨j, hj⟩ := h.owed hchanged
      have hne : j ≠ i := by
        intro he
        subst j
        exact hfree hj
      refine ⟨j, ?_⟩
      rw [locals_turn_of_ne hne]
      exact hj

/-- However the steps of the processes are interleaved, each call returns what it would return
alone, and in the end the files are those at the start. -/
theorem concurrent_probes_undisturbed (cwd : ι → Location) (paths : ι → Path) (tree₀ : Tree)
    (dir : Location) (hwf : ∀ i, (seen (cwd i) tree₀).WellFormed)
    (hmissing : ∀ i, MissingIn (seen (cwd i) tree₀) dir (paths i))
    (hfree : tree₀ (dir ++ [tempFileName]) = none) (schedule : List ι) :
    let g := run (processStep cwd paths) ⟨fun _ => .start, tree₀⟩ schedule
    (∀ i, 5 ≤ schedule.count i → ∃ answer, g.locals i = .done answer) ∧
      (∀ i answer, g.locals i = .done answer →
        answer = ((canWriteToFile (paths i)).run (seen (cwd i) tree₀)).1 ∧
          ∃ b, answer = .ok b) ∧
      ((∀ i, ∃ answer, g.locals i = .done answer) → g.shared = tree₀) := by
  intro g
  have hclear : ∀ i, Clear (seen (cwd i) tree₀) (dir ++ [tempFileName]) (paths i) :=
    fun i => (hmissing i).clear (hwf i) hfree
  have hinvariant : Undisturbed cwd paths tree₀ (dir ++ [tempFileName]) g :=
    run_invariant undisturbed_start (undisturbed_turn hclear) schedule
  refine ⟨?_, ?_, ?_⟩
  · intro i hcount
    have hrank : (g.locals i).rank ≤ 5 - schedule.count i :=
      rank_run (fun i state tree => rank_probeStep (paths i) state (seen (cwd i) tree)) i schedule
    have hzero : (g.locals i).rank = 0 := by omega
    cases hstate : g.locals i with
    | done answer => exact ⟨answer, rfl⟩
    | _ => simp [hstate, ProbeState.rank] at hzero
  · intro i answer hdone
    have hexpected := hinvariant.expected i
    rw [hdone] at hexpected
    refine ⟨hexpected, ?_⟩
    rw [hexpected]
    exact (hclear i).no_throw
  · intro hall
    by_contra hchanged
    obtain ⟨i, howes⟩ := hinvariant.owed hchanged
    obtain ⟨answer, hdone⟩ := hall i
    rw [hdone] at howes
    exact howes

end Processes

/-- Two targets in an empty root directory, probed by two processes that take turns. -/
def twoTargets (first : Bool) : Path := if first then ['p'] else ['q']

theorem concurrent_probes_undisturbed_two :
    (run (processStep (fun _ => []) twoTargets) ⟨fun _ => .start, FileSystem.empty.node⟩
      [true, false, true, false, true, false, true, false, true, false]).shared =
      FileSystem.empty.node := by
  have hmissing : ∀ i, MissingIn (seen [] FileSystem.empty.node) [] (twoTargets i) := by
    intro i
    cases i with
    | false => exact ⟨by decide, ['q'], false, by decide, by decide⟩
    | true => exact ⟨by decide, ['p'], false, by decide, by decide⟩
  obtain ⟨hdone, _, hend⟩ := concurrent_probes_undisturbed (fun _ => []) twoTargets
    FileSystem.empty.node [] (fun _ => empty_wellFormed) hmissing (by decide)
    [true, false, true, false, true, false, true, false, true, false]
  apply hend
  intro i
  apply hdone
  cases i <;> decide

end ProofProducer
