import ProofProducer.FileOperations

/-!
# What the file operations change

Every operation keeps the directories and the set of files that can be opened for writing. A
write touches the file it names, and the probe touches its temporary file only.
-/

namespace ProofProducer

open Effects Files Files.FileSystem

set_option autoImplicit false

variable {d : Disk} {fs fs₁ : FileSystem} {p q : Path} {l : Location} {v : Bytes}

theorem delivered_steady (h : fs.accepts l = true) (d : Disk) (p : Path) (v : Bytes) :
    Steady fs (delivered d fs p l v) := by
  have hs := store_steady h ((OutStream.opened.write d l v).close d l)
  unfold delivered
  dsimp only
  split
  · exact hs
  · exact hs.trans (record_steady _ p v)

theorem lookup_delivered_self (hp : fs.fileLocation q = some l) (h : fs.accepts l = true) :
    (delivered d fs p l v).lookup q =
      some (.file ((OutStream.opened.write d l v).close d l) true) := by
  unfold delivered
  dsimp only
  split
  · exact lookup_store_self hp h _
  · rw [lookup_record]
    exact lookup_store_self hp h _

theorem lookup_delivered_of_ne (hp : fs.fileLocation q ≠ some l) (h : fs.accepts l = true) :
    (delivered d fs p l v).lookup q = fs.lookup q := by
  unfold delivered
  dsimp only
  split
  · exact lookup_store_of_ne h hp _
  · rw [lookup_record]
    exact lookup_store_of_ne h hp _

theorem delivered_store (d : Disk) (fs : FileSystem) (p : Path) (l : Location) (v c : Bytes) :
    delivered d (fs.store l c) p l v = delivered d fs p l v := by
  simp only [delivered, store_store]

theorem openOutputFile_run (p : Path) (fs : FileSystem) :
    (openOutputFile p).run fs =
      match fs.openForWriting p with
      | none => (.ok none, fs)
      | some l => (.ok (some l), fs.store l []) := by
  unfold Action.run openOutputFile
  cases fs.openForWriting p <;> rfl

theorem writeVectorToFile_run (d : Disk) (v : Bytes) (p : Path) (fs : FileSystem) :
    (writeVectorToFile d v p).run fs =
      match fs.openForWriting p with
      | none => (.ok false, fs)
      | some l => (.ok (reports d l v), delivered d fs p l v) := by
  unfold writeVectorToFile
  rw [Action.run_bind, openOutputFile_run]
  cases fs.openForWriting p with
  | none => rfl
  | some l =>
    change (Except.ok (reports d l v), delivered d (fs.store l []) p l v) = _
    rw [delivered_store]

theorem remove_store (hp : fs.fileLocation p = some l) (h : fs.accepts l = true) :
    (fs.store l []).remove p =
      if fs.directoryWritable l.dropLast then (.removed, (fs.store l []).erase l)
      else (.denied, fs.store l []) := by
  have hs := store_steady h []
  have hdir : (fs.store l []).directoryWritable l.dropLast = fs.directoryWritable l.dropLast :=
    directoryWritable_congr hs.directory _
  unfold FileSystem.remove
  rw [hs.fileLocation_eq, hp]
  simp [hdir]

/-- The four ways a probe can go: a refusal, an append to an existing file, a temporary file
created and removed, a temporary file that could be opened but not removed. -/
inductive ProbeRun (p : Path) (fs : FileSystem) : Except Exception Bool × FileSystem → Prop where
  | refused : ProbeRun p fs (.ok false, fs)
  | existing (l : Location) : isValidPath p = true → fileExists fs p = true →
      fs.openForWriting p = some l → ProbeRun p fs (.ok true, fs)
  | created (l : Location) : isValidPath p = true → fileExists fs p = false →
      parentPath (absolute fs p) ≠ [] → fileExists fs (parentPath (absolute fs p)) = true →
      fs.openForWriting (probeFile fs p) = some l → fs.directoryWritable l.dropLast = true →
      ProbeRun p fs (.ok true, (fs.store l []).erase l)
  | stuck (l : Location) (e : Exception) : isValidPath p = true → fileExists fs p = false →
      fs.openForWriting (probeFile fs p) = some l →
      ProbeRun p fs (.error e, fs.store l [])

theorem openForAppending_run_of_exists (he : fileExists fs p = true) :
    (openForAppending p).run fs = (.ok (fs.openForWriting p).isSome, fs) := by
  simp only [Action.run, openForAppending]
  cases ho : fs.openForWriting p with
  | none => rfl
  | some l =>
    have hl := lookup_of_fileLocation (openForWriting_eq_some_iff.mp ho).1
    have hn : ∃ n, fs.node l = some n := Option.isSome_iff_exists.mp (hl ▸ he)
    obtain ⟨n, hn⟩ := hn
    simp [FileSystem.touch, hn]

/-- The probe as one case distinction over the file system it starts from. -/
theorem canWriteToFile_run (p : Path) (fs : FileSystem) :
    (canWriteToFile p).run fs =
      if isValidPath p = false then (.ok false, fs)
      else if fileExists fs p then (.ok (fs.openForWriting p).isSome, fs)
      else if parentPath (absolute fs p) = [] then (.ok false, fs)
      else if fileExists fs (parentPath (absolute fs p)) = false then (.ok false, fs)
      else
        match fs.openForWriting (probeFile fs p) with
        | none => (.ok false, fs)
        | some l =>
          if fs.directoryWritable l.dropLast then (.ok true, (fs.store l []).erase l)
          else (.error ⟨"boost::filesystem::remove"⟩, fs.store l []) := by
  unfold canWriteToFile
  cases hv : isValidPath p with
  | false => rfl
  | true =>
    simp only [Bool.not_true, Bool.false_eq_true, Bool.true_eq_false, if_false]
    rw [Action.run_bind, Action.run_observe]
    dsimp only
    cases he : fileExists fs p with
    | true =>
      simp only [if_true]
      exact openForAppending_run_of_exists he
    | false =>
      simp only [Bool.false_eq_true, if_false]
      by_cases hparent : parentPath (absolute fs p) = []
      · simp only [hparent, if_true, Action.run_pure]
      simp only [hparent, if_false]
      cases hdir : fileExists fs (parentPath (absolute fs p)) with
      | false => rfl
      | true =>
        simp only [Bool.not_true, Bool.false_eq_true, Bool.true_eq_false, if_false]
        rw [Action.run_bind, openOutputFile_run]
        cases ho : fs.openForWriting (probeFile fs p) with
        | none => rfl
        | some l =>
          obtain ⟨hl, ha⟩ := openForWriting_eq_some_iff.mp ho
          dsimp only
          rw [Action.run_bind]
          simp only [Action.run, removeFile, remove_store hl ha]
          cases fs.directoryWritable l.dropLast <;> rfl

theorem canWriteToFile_cases (p : Path) (fs : FileSystem) :
    ProbeRun p fs ((canWriteToFile p).run fs) := by
  rw [canWriteToFile_run]
  split
  · exact .refused
  rename_i hv
  have hvalid : isValidPath p = true := Bool.of_not_eq_false hv
  split
  · rename_i he
    cases ho : fs.openForWriting p with
    | none => exact .refused
    | some l => exact .existing l hvalid he ho
  rename_i he
  have hmissing : fileExists fs p = false := Bool.of_not_eq_true he
  split
  · exact .refused
  rename_i hparent
  split
  · exact .refused
  rename_i hdir
  cases ho : fs.openForWriting (probeFile fs p) with
  | none => exact .refused
  | some l =>
    dsimp only
    split
    · rename_i hw
      exact .created l hvalid hmissing hparent (Bool.of_not_eq_false hdir) ho hw
    · exact .stuck l _ hvalid hmissing ho

theorem ProbeRun.steady {r : Except Exception Bool × FileSystem} (h : ProbeRun p fs r) :
    Steady fs r.2 := by
  cases h with
  | refused => exact .refl fs
  | existing => exact .refl fs
  | created l _ _ _ _ ho hw =>
    obtain ⟨hl, ha⟩ := openForWriting_eq_some_iff.mp ho
    have hs := store_steady ha []
    have ha' : (fs.store l []).accepts l = true := by rw [hs.accepts, ha]
    have hw' : (fs.store l []).directoryWritable l.dropLast = true := by
      rw [directoryWritable_congr hs.directory, hw]
    exact hs.trans (erase_steady ha' hw')
  | stuck l _ _ _ ho =>
    exact store_steady (openForWriting_eq_some_iff.mp ho).2 []

theorem ProbeRun.lookup {r : Except Exception Bool × FileSystem} (h : ProbeRun p fs r)
    (hq : ¬ fs.SameFile q (probeFile fs p)) : r.2.lookup q = fs.lookup q := by
  have key : ∀ l b, fs.openForWriting (probeFile fs p) = some l → Steady fs b →
      (∀ k, k ≠ l → b.node k = fs.node k) → b.lookup q = fs.lookup q := by
    intro l b ho hs hb
    obtain ⟨hl, ha⟩ := openForWriting_eq_some_iff.mp ho
    refine lookup_update_of_ne hs hb (not_directory_of_accepts ha) ?_
    exact fun hql => hq ⟨l, hql, hl⟩
  have hsteady := h.steady
  cases h with
  | refused => rfl
  | existing => rfl
  | created l _ _ _ _ ho _ =>
    refine key l _ ho hsteady fun k hk => ?_
    simp [hk]
  | stuck l _ _ _ ho =>
    refine key l _ ho hsteady fun k hk => ?_
    simp [hk]

theorem ProbeRun.journal {r : Except Exception Bool × FileSystem} (h : ProbeRun p fs r) :
    r.2.journal = fs.journal := by
  cases h <;> rfl

theorem canWriteToFile_steady (p : Path) (fs : FileSystem) :
    Steady fs ((canWriteToFile p).run fs).2 := (canWriteToFile_cases p fs).steady

theorem exists_probed (h : ((canWriteToFile p).run fs).1 = .ok true) :
    ∃ fs₁, (canWriteToFile p).run fs = (.ok true, fs₁) := ⟨_, Prod.ext h rfl⟩

theorem absolute_congr (h : SameDirectories fs fs₁) (p : Path) :
    absolute fs₁ p = absolute fs p := by
  simp only [absolute, currentPath, h.currentDirectory]

theorem probeFile_congr (h : SameDirectories fs fs₁) (p : Path) :
    probeFile fs₁ p = probeFile fs p := by
  simp only [probeFile, absolute_congr h]

theorem absolute_steady (h : Steady fs fs₁) (p : Path) : absolute fs₁ p = absolute fs p :=
  absolute_congr h.sameDirectories p

theorem probeFile_steady (h : Steady fs fs₁) (p : Path) : probeFile fs₁ p = probeFile fs p :=
  probeFile_congr h.sameDirectories p

/-- A probe that answered yes answers yes again after files were written elsewhere. -/
theorem canWriteToFile_true_of_steady (h : Steady fs fs₁)
    (hmore : ∀ q, fileExists fs q = true → fileExists fs₁ q = true)
    (hsame : fileExists fs₁ p = fileExists fs p)
    (hyes : ((canWriteToFile p).run fs).1 = .ok true) :
    ((canWriteToFile p).run fs₁).1 = .ok true := by
  have hrun := canWriteToFile_cases p fs
  rcases hr : (canWriteToFile p).run fs with ⟨r, fs'⟩
  rw [hr] at hrun hyes
  obtain rfl : r = .ok true := hyes
  rw [canWriteToFile_run]
  cases hrun with
  | existing l hv he ho =>
    have he₁ : fileExists fs₁ p = true := by rw [hsame, he]
    simp [hv, he₁, h.openForWriting_eq, ho]
  | created l hv he hparent hdir ho hw =>
    have he₁ : fileExists fs₁ p = false := by rw [hsame, he]
    have ho₁ : fs₁.openForWriting (probeFile fs₁ p) = some l := by
      rw [probeFile_steady h, h.openForWriting_eq, ho]
    have hw₁ : fs₁.directoryWritable l.dropLast = true := by
      rw [directoryWritable_congr h.directory, hw]
    simp [hv, he₁, absolute_steady h, hparent, hmore _ hdir, ho₁, hw₁]

end ProofProducer
