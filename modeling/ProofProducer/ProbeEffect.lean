import ProofProducer.FileEffects

/-!
# What the write probe leaves behind

For a missing target the probe creates, truncates and removes a file of a fixed name next to it,
whoever that file belongs to.
-/

namespace ProofProducer

open Effects Files Files.FileSystem

set_option autoImplicit false

variable {fs : FileSystem} {path : Path} {l : Location}

/-- The probe opens its temporary file: the target is missing, its parent directory exists and
the temporary file next to it can be opened for writing. -/
structure Probes (fs : FileSystem) (path : Path) (l : Location) : Prop where
  valid : isValidPath path = true
  missing : fileExists fs path = false
  parent : parentPath (absolute fs path) ≠ []
  parentExists : fileExists fs (parentPath (absolute fs path)) = true
  opens : fs.openForWriting (probeFile fs path) = some l

theorem Probes.accepts (h : Probes fs path l) : fs.accepts l = true :=
  (openForWriting_eq_some_iff.mp h.opens).2

theorem Probes.unique {k : Location} (h : Probes fs path l) (hk : Probes fs path k) : k = l :=
  Option.some.inj (hk.opens.symm.trans h.opens)

theorem canWriteToFile_of_probes (h : Probes fs path l) :
    (canWriteToFile path).run fs =
      if fs.directoryWritable l.dropLast then (.ok true, (fs.store l []).erase l)
      else (.error ⟨"boost::filesystem::remove"⟩, fs.store l []) := by
  rw [canWriteToFile_run]
  simp [h.valid, h.missing, h.parent, h.parentExists, h.opens]

theorem canWriteToFile_of_not_probes (h : ∀ l, ¬ Probes fs path l) :
    (canWriteToFile path).run fs =
      (.ok (isValidPath path && fileExists fs path && (fs.openForWriting path).isSome), fs) := by
  rw [canWriteToFile_run]
  cases hv : isValidPath path with
  | false => rfl
  | true =>
    cases he : fileExists fs path with
    | true => rfl
    | false =>
      simp only [Bool.true_eq_false, if_false, Bool.false_eq_true, Bool.and_false, Bool.false_and]
      split
      · rfl
      rename_i hparent
      split
      · rfl
      rename_i hdir
      cases ho : fs.openForWriting (probeFile fs path) with
      | none => rfl
      | some l => exact (h l ⟨hv, he, hparent, Bool.of_not_eq_false hdir, ho⟩).elim

/-- Creating and removing a file changes nothing exactly if the file did not exist. -/
theorem erase_store_eq_self_iff {c : Bytes} :
    (fs.store l c).erase l = fs ↔ fs.node l = none := by
  constructor
  · intro h
    rw [← h]
    simp
  · intro h
    have hnode : ((fs.store l c).erase l).node = fs.node := by
      funext k
      by_cases hk : k = l
      · rw [hk, h]
        simp
      · simp [hk]
    exact congrArg (fun node => { fs with node := node }) hnode

theorem store_eq_self_iff {c : Bytes} : fs.store l c = fs ↔ fs.node l = some (.file c true) := by
  constructor
  · intro h
    rw [← h]
    simp
  · intro h
    have hnode : (fs.store l c).node = fs.node := by
      funext k
      by_cases hk : k = l
      · rw [hk, h]
        simp
      · simp [hk]
    exact congrArg (fun node => { fs with node := node }) hnode

/-- The temporary file does not exist, or it is empty and cannot be removed. -/
def LeavesAlone (fs : FileSystem) (l : Location) : Prop :=
  fs.node l = none ∨
    fs.directoryWritable l.dropLast = false ∧ fs.node l = some (.file [] true)

/-- The probe has no effect exactly if it does not come to its temporary file or finds none
there; an empty one that the directory keeps is not changed either. -/
theorem canWriteToFile_unchanged_iff (path : Path) (fs : FileSystem) :
    ((canWriteToFile path).run fs).2 = fs ↔ ∀ l, Probes fs path l → LeavesAlone fs l := by
  by_cases hprobes : ∃ l, Probes fs path l
  · obtain ⟨l, hl⟩ := hprobes
    have honly : (∀ k, Probes fs path k → LeavesAlone fs k) ↔ LeavesAlone fs l := by
      constructor
      · exact fun h => h l hl
      · intro h k hk
        rw [hl.unique hk]
        exact h
    rw [honly, canWriteToFile_of_probes hl]
    unfold LeavesAlone
    cases hw : fs.directoryWritable l.dropLast with
    | true => simp [erase_store_eq_self_iff]
    | false =>
      have hexists : fs.node l ≠ none := by
        intro hn
        have ha := hl.accepts
        simp [FileSystem.accepts, hn, hw] at ha
      simp [store_eq_self_iff, hexists]
  · have hno : ∀ l, ¬ Probes fs path l := fun l hl => hprobes ⟨l, hl⟩
    rw [canWriteToFile_of_not_probes hno]
    exact iff_of_true rfl fun l hl => (hno l hl).elim

/-- A user's file of the probe's name. -/
def occupiedFiles : FileSystem := FileSystem.empty.store [tempFileName] [1]

/-- The file is gone after a probe for its neighbour. -/
theorem probe_removes_user_file :
    ¬ ∀ (path : Path) (fs : FileSystem), ((canWriteToFile path).run fs).2 = fs := by
  intro h
  have hkept := h ['p'] occupiedFiles
  have hgone : ((canWriteToFile ['p']).run occupiedFiles).2.node [tempFileName] = none := by
    decide +kernel
  rw [hkept] at hgone
  exact absurd hgone (by decide)

end ProofProducer
