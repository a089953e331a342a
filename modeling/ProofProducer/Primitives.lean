import ProofProducer.Shared.Composition
import ProofProducer.Footprint
import ProofProducer.Lifecycle

/-!
# What the methods are made of

Every method of `Prover` is a composition of a few primitives: it reads a member or a parameter,
puts a value into a member, asks the library, or does one thing to one file. What is shown of the
primitives then holds of all methods.
-/

namespace ProofProducer

open Effects Files Files.FileSystem Codecs Composition

set_option autoImplicit false

variable {L : Crypto3} {d : Disk} {α β M : Type} {fs₀ : FileSystem} {R W T : Path → Prop}

/-- Remove a file, whether it is still there or not. -/
def dropFile (p : Path) : Action FileSystem Exception Unit := do
  let _ ← removeFile p

/-- One operation on one file: a look at one of those in `R`, writing one of those in `W`, or
creating or removing one of those in `T`. Opening for appending is both a look and a change. The
file systems that occur have the directories of `fs₀`, which decides where a path leads. -/
inductive FilePrimitive (d : Disk) (fs₀ : FileSystem) (R W T : Path → Prop) :
    Primitives FileSystem Exception where
  | exist {p : Path} (hp : R p) :
    FilePrimitive d fs₀ R W T Bool (Action.observe fun fs => .ok (fileExists fs p)) Anything
  | parent (p : Path) :
    FilePrimitive d fs₀ R W T Path (Action.observe fun fs => .ok (parentPath (absolute fs p)))
      (· = parentPath (absolute fs₀ p))
  | create {p : Path} (hp : W p ∨ T p) :
    FilePrimitive d fs₀ R W T (Option Location) (openOutputFile p)
      fun r => ∀ l, r = some l → fs₀.openForWriting p = some l
  | append {p : Path} (hseen : R p) (hp : W p) :
    FilePrimitive d fs₀ R W T Bool (openForAppending p) Anything
  | remove {p : Path} {l : Location} (hp : T p) (hl : fs₀.openForWriting p = some l) :
    FilePrimitive d fs₀ R W T Unit (dropFile p) Anything
  | write {p : Path} {l : Location} (hp : W p) (hl : fs₀.openForWriting p = some l) (v : Bytes) :
    FilePrimitive d fs₀ R W T Bool (writeStream d p l v) Anything

theorem accepts_of_opens {fs : FileSystem} {p : Path} {l : Location} (hfs : Steady fs₀ fs)
    (hl : fs₀.openForWriting p = some l) : fs.accepts l = true := by
  rw [hfs.accepts]
  exact (openForWriting_eq_some_iff.mp hl).2

theorem openForAppending_run (p : Path) (fs : FileSystem) :
    (openForAppending p).run fs =
      match fs.openForWriting p with
      | none => (.ok false, fs)
      | some l => (.ok true, fs.touch l) := by
  unfold Action.run openForAppending
  cases fs.openForWriting p <;> rfl

theorem dropFile_bind (p : Path) (m : Action FileSystem Exception β) :
    (dropFile p >>= fun _ => m) = removeFile p >>= fun _ => m :=
  Action.bind_assoc (removeFile p) (fun _ => pure ()) fun _ => m

theorem erase_of_absent {fs : FileSystem} {l : Location} (h : fs.node l = none) :
    fs.erase l = fs := by
  unfold FileSystem.erase
  congr 1
  funext k
  by_cases hk : k = l
  · rw [if_pos hk, hk, h]
  · rw [if_neg hk]

/-- A file that can be opened for writing is gone afterwards, if its directory lets go of it: a
missing file can only be opened where that is so. -/
theorem dropFile_run_of_opens {p : Path} {l : Location} {fs : FileSystem}
    (hl : fs.openForWriting p = some l) :
    (dropFile p).run fs =
      if fs.directoryWritable l.dropLast then (.ok (), fs.erase l)
      else (.error ⟨"boost::filesystem::remove"⟩, fs) := by
  obtain ⟨hlocation, haccepts⟩ := openForWriting_eq_some_iff.mp hl
  unfold dropFile
  rw [Action.run_bind]
  unfold Action.run removeFile FileSystem.remove
  rw [hlocation]
  cases hnode : fs.node l with
  | none =>
    have hdir : fs.directoryWritable l.dropLast = true := by
      simpa [FileSystem.accepts, hnode] using haccepts
    have hgone : fs.erase l = fs := erase_of_absent hnode
    simp [hnode, hdir, hgone, pure]
  | some n =>
    cases n with
    | directory w => exact (not_directory_of_accepts haccepts w hnode).elim
    | file c w => cases hdir : fs.directoryWritable l.dropLast <;> simp [hnode, hdir, pure]

/-- The directories stay as they are, and what is created is where its path leads. -/
theorem FilePrimitive.spec {m : Action FileSystem Exception α} {P : α → Prop} {fs : FileSystem}
    (hm : FilePrimitive d fs₀ R W T α m P) (hfs : Steady fs₀ fs) :
    Steady fs₀ (m.run fs).2 ∧ ∀ a, (m.run fs).1 = .ok a → P a := by
  cases hm with
  | exist hp => exact ⟨hfs, fun _ _ => trivial⟩
  | parent p =>
    refine ⟨hfs, fun a ha => ?_⟩
    rw [← Except.ok.inj ha, absolute_steady hfs]
  | @create p hp =>
    rw [openOutputFile_run, hfs.openForWriting_eq]
    cases ho : fs₀.openForWriting p with
    | none => exact ⟨hfs, fun a ha l hl => by simp [← Except.ok.inj ha] at hl⟩
    | some l =>
      refine ⟨hfs.trans (store_steady (accepts_of_opens hfs ho) []), fun a ha k hk => ?_⟩
      rw [← Except.ok.inj ha] at hk
      exact hk
  | @append p hseen hp =>
    refine ⟨?_, fun _ _ => trivial⟩
    rw [openForAppending_run, hfs.openForWriting_eq]
    cases ho : fs₀.openForWriting p with
    | none => exact hfs
    | some l =>
      dsimp only [FileSystem.touch]
      cases hnode : fs.node l with
      | none => exact hfs.trans (store_steady (accepts_of_opens hfs ho) [])
      | some n => exact hfs
  | @remove p l hp hl =>
    refine ⟨?_, fun _ _ => trivial⟩
    rw [dropFile_run_of_opens (by rw [hfs.openForWriting_eq, hl])]
    split
    · rename_i hdir
      exact hfs.trans (erase_steady (accepts_of_opens hfs hl) hdir)
    · exact hfs
  | @write p l hp hl v =>
    exact ⟨hfs.trans (delivered_steady (accepts_of_opens hfs hl) d p v), fun _ _ => trivial⟩

/-- The probe, with a look of its own at the files for each question. -/
def canWriteToFileByLooks (p : Path) : Action FileSystem Exception Bool :=
  if isValidPath p = false then pure false
  else do
    let known ← Action.observe fun fs => .ok (fileExists fs p)
    if known then openForAppending p
    else do
      let parentDir ← Action.observe fun fs => .ok (parentPath (absolute fs p))
      if parentDir = [] then pure false
      else do
        let present ← Action.observe fun fs => .ok (fileExists fs parentDir)
        if present = false then pure false
        else do
          match ← openOutputFile (appendPath parentDir tempFileName) with
          | none => pure false
          | some _ =>
            dropFile (appendPath parentDir tempFileName)
            pure true

theorem canWriteToFile_eq_byLooks (p : Path) : canWriteToFile p = canWriteToFileByLooks p := by
  funext fs
  show (canWriteToFile p).run fs = (canWriteToFileByLooks p).run fs
  unfold canWriteToFile canWriteToFileByLooks
  simp only [dropFile_bind]
  cases hv : isValidPath p with
  | false => rfl
  | true =>
    simp only [Bool.not_true, Bool.true_eq_false, Bool.false_eq_true, if_false]
    rw [Action.run_bind, Action.run_bind, Action.run_observe, Action.run_observe]
    dsimp only
    cases he : fileExists fs p with
    | true => rfl
    | false =>
      simp only [Bool.false_eq_true, if_false]
      rw [Action.run_bind, Action.run_observe]
      dsimp only
      by_cases hparent : parentPath (absolute fs p) = []
      · simp only [hparent, if_true]
      simp only [hparent, if_false]
      rw [Action.run_bind, Action.run_observe]
      dsimp only
      cases hdir : fileExists fs (parentPath (absolute fs p)) with
      | false => rfl
      | true => rfl

/-- What the probe of a path looks at and may change. -/
structure Probing (fs₀ : FileSystem) (R W T : Path → Prop) (p : Path) : Prop where
  seen : R p
  parent : R (parentPath (absolute fs₀ p))
  opened : W p
  temporary : T (probeFile fs₀ p)

theorem composed_canWriteToFile {p : Path} (hp : Probing fs₀ R W T p) :
    Composed (FilePrimitive d fs₀ R W T) Anything (canWriteToFile p) := by
  rw [canWriteToFile_eq_byLooks]
  refine composed_ite (fun _ => .pure trivial) fun _ => ?_
  refine .after (.exist hp.seen) fun known _ => ?_
  refine composed_ite (fun _ => .primitive (.append hp.seen hp.opened)) fun _ => ?_
  refine .after (.parent p) fun parentDir hdir => ?_
  rw [hdir]
  refine composed_ite (fun _ => .pure trivial) fun _ => ?_
  refine .after (.exist hp.parent) fun present _ => ?_
  refine composed_ite (fun _ => .pure trivial) fun _ => ?_
  refine .after (.create (.inr hp.temporary)) fun l hl => ?_
  cases l with
  | none => exact .pure trivial
  | some l => exact .after (.remove hp.temporary (hl l rfl)) fun _ _ => .pure trivial

theorem composed_writeText {p : Path} (hp : W p) (v : Bytes) :
    Composed (FilePrimitive d fs₀ R W T) Anything (do
      match ← openOutputFile p with
      | none => return false
      | some l => writeStream d p l v) := by
  refine .after (.create (.inl hp)) fun l hl => ?_
  cases l with
  | none => exact .pure trivial
  | some l => exact .primitive (.write hp (hl l rfl) v)

theorem composed_encodeMarshallingToFile (codec : Codec Exception M) {p : Path} (hp : W p) (m : M)
    (hex : Bool) :
    Composed (FilePrimitive d fs₀ R W T) Anything (encodeMarshallingToFile d codec p m hex) := by
  unfold encodeMarshallingToFile
  cases codec.encoding m with
  | none => exact .pure trivial
  | some v =>
    cases hex with
    | true => exact composed_writeText hp (hexText v)
    | false => exact composed_writeText hp v

inductive Parameter where
  | lambda
  | expandFactor
  | maxQuotientChunks
  | grind
  deriving DecidableEq, Repr

namespace Prover

def parameter (p : Prover L) : Parameter → SizeT
  | .lambda => p.lambda
  | .expandFactor => p.expandFactor
  | .maxQuotientChunks => p.maxQuotientChunks
  | .grind => p.grind

def parameterOf (k : Parameter) : Step L SizeT := Action.observe fun s => .ok (s.prover.parameter k)

end Prover

/-- Changes that fill members or drop the assignment table or the scheme. -/
inductive Change : (Prover L → Prover L) → Prop where
  | emplace (m : Member) (v : m.Value L) : Change fun p => p.emplace m v
  | dropTable : Change fun p => { p with assignmentTable := none }
  | dropScheme : Change fun p => { p with lpcScheme := none }
  | comp {f g : Prover L → Prover L} : Change f → Change g → Change fun p => g (f p)

/-- What a method does at a time. It reads only the parameters that it `uses`, and common data
only where there are no preprocessed data. -/
inductive Primitive (L : Crypto3) (d : Disk) (fs₀ : FileSystem) (R W T : Path → Prop)
    (uses : Parameter → Prop) : Primitives (Session L) Stop where
  | external {α : Type} (r : Except Exception α) :
    Primitive L d fs₀ R W T uses α (Prover.external r) Anything
  | member {α : Type} {m : Member} {get : Prover L → Option α} (hm : m ≠ .commonData)
      (hget : ∀ p q : Prover L, q.get m = p.get m → get q = get p) :
    Primitive L d fs₀ R W T uses α (Prover.deref m get) Anything
  | common :
    Primitive L d fs₀ R W T uses L.CommonData (Prover.deref .commonData Prover.heldCommonData)
      Anything
  | parameter {k : Parameter} (hk : uses k) :
    Primitive L d fs₀ R W T uses SizeT (Prover.parameterOf k) Anything
  | change {f : Prover L → Prover L} (hf : Change f) :
    Primitive L d fs₀ R W T uses Unit (Prover.update f) Anything
  | decode {M : Type} (codec : Codec Exception M) {p : Path} (hp : R p) (hex : Bool) :
    Primitive L d fs₀ R W T uses (Option M)
      (Prover.reads fun fs => decodeMarshallingFromFile codec fs p hex) Anything
  | readable {p : Path} (hp : R p) :
    Primitive L d fs₀ R W T uses Bool (Prover.reads fun fs => .ok (canReadFromFile fs p)) Anything
  | files {α : Type} {m : Action FileSystem Exception α} {P : α → Prop}
      (hm : FilePrimitive d fs₀ R W T α m P) :
    Primitive L d fs₀ R W T uses α (Prover.onFiles m) P

section Methods
variable {uses : Parameter → Prop} {P : α → Prop} {Q : β → Prop}

theorem onFiles_bind (m : Action FileSystem Exception α) (f : α → Action FileSystem Exception β) :
    (Prover.onFiles (m >>= f) : Step L β) = Prover.onFiles m >>= fun a => Prover.onFiles (f a) := by
  funext s
  obtain ⟨p, fs⟩ := s
  show (Prover.onFiles (m >>= f)).run ⟨p, fs⟩ =
    (Prover.onFiles m >>= fun a => Prover.onFiles (f a)).run ⟨p, fs⟩
  rw [Prover.run_onFiles, Action.run_bind, Action.run_bind, Prover.run_onFiles]
  rcases m.run fs with ⟨r, fs'⟩
  cases r with
  | error e => rfl
  | ok a => exact (Prover.run_onFiles (f a) p fs').symm

theorem composed_onFiles {m : Action FileSystem Exception α}
    (h : Composed (FilePrimitive d fs₀ R W T) P m) :
    Composed (Primitive L d fs₀ R W T uses) P (Prover.onFiles m) := by
  induction h with
  | @pure α Q a ha => exact .pure ha
  | stop e => exact .stop (Stop.thrown e)
  | primitive hm => exact .primitive (.files hm)
  | bind _ _ ihm ihf =>
    rw [onFiles_bind]
    exact .bind ihm ihf

theorem composed_deref {m : Member} {get : Prover L → Option α} {f : α → Step L β}
    (hm : m ≠ .commonData) (hget : ∀ p q : Prover L, q.get m = p.get m → get q = get p)
    (hf : ∀ a, Composed (Primitive L d fs₀ R W T uses) Q (f a)) :
    Composed (Primitive L d fs₀ R W T uses) Q (Prover.deref m get >>= f) :=
  .after (.member hm hget) fun a _ => hf a

theorem composed_external (r : Except Exception α) {f : α → Step L β}
    (hf : ∀ a, Composed (Primitive L d fs₀ R W T uses) Q (f a)) :
    Composed (Primitive L d fs₀ R W T uses) Q (Prover.external r >>= f) :=
  .after (.external r) fun a _ => hf a

theorem composed_change {g : Prover L → Prover L} {f : Unit → Step L β} (hg : Change g)
    (hf : Composed (Primitive L d fs₀ R W T uses) Q (f ())) :
    Composed (Primitive L d fs₀ R W T uses) Q (Prover.update g >>= f) :=
  .after (.change hg) fun _ _ => hf

theorem composed_ofPart {part : TablePart} {moved : Bool} {a : α} {f : α → Step L β}
    (hf : ∀ a, Composed (Primitive L d fs₀ R W T uses) Q (f a)) :
    Composed (Primitive L d fs₀ R W T uses) Q (Prover.ofPart part moved a >>= f) := by
  unfold Prover.ofPart
  refine .bind (composed_ite (P := Anything) (fun _ => .stop _) fun _ => .pure trivial) ?_
  exact fun a _ => hf a

theorem composed_readMember {codec : Codec Exception M} {make : M → Except Exception α}
    {emplace : α → Prover L → Prover L} {path : Path} (hpath : R path)
    (hemplace : ∀ a, Change (emplace a)) :
    Composed (Primitive L d fs₀ R W T uses) Anything
      (Prover.readMember codec make emplace path) := by
  refine .after (.decode codec hpath false) fun m _ => ?_
  cases m with
  | none => exact .pure trivial
  | some m =>
    refine composed_external _ fun a => ?_
    exact composed_change (hemplace a) (.pure trivial)

theorem composed_saveObject {codec : Codec Exception M} {m : Member} {get : Prover L → Option α}
    {fill : α → Except Exception M} {path : Path} (hpath : W path) (hm : m ≠ .commonData)
    (hget : ∀ p q : Prover L, q.get m = p.get m → get q = get p) :
    Composed (Primitive L d fs₀ R W T uses) Anything
      (Prover.saveObject d codec (Prover.deref m get) fill path) := by
  refine composed_deref hm hget fun a => ?_
  refine composed_external _ fun v => ?_
  exact composed_onFiles (composed_encodeMarshallingToFile codec hpath v false)

theorem composed_createLpcScheme (hlambda : uses .lambda) (hexpand : uses .expandFactor) :
    Composed (Primitive L d fs₀ R W T uses) Anything (Prover.createLpcScheme : Step L Unit) := by
  refine composed_deref (by decide) (fun _ _ h => h) fun description => ?_
  cases Prover.ceilLog2 (L.rowsAmount description) with
  | none => exact .stop _
  | some n =>
    show Composed _ _ (Prover.parameterOf .lambda >>= fun lambda =>
      Prover.parameterOf .expandFactor >>= fun expandFactor =>
        Prover.external (L.friParams 1 (UInt64.ofNat n) lambda expandFactor) >>=
          Prover.emplaceLpcScheme)
    refine .after (.parameter hlambda) fun lambda _ => ?_
    refine .after (.parameter hexpand) fun expandFactor _ => ?_
    refine composed_external _ fun params => ?_
    refine composed_change .dropScheme ?_
    refine composed_external _ fun scheme => ?_
    exact .primitive (.change (.emplace .lpcScheme scheme))

theorem composed_movePublicTable :
    Composed (Primitive L d fs₀ R W T uses) Anything
      (Prover.movePublicTable : Step L L.PublicTable) := by
  refine composed_deref (by decide) (fun _ _ h => h) fun slot => ?_
  refine composed_ofPart fun r => ?_
  exact composed_change (.emplace .assignmentTable ⟨r.2, true, slot.privateMoved⟩) (.pure trivial)

theorem composed_movePrivateTable :
    Composed (Primitive L d fs₀ R W T uses) Anything
      (Prover.movePrivateTable : Step L L.PrivateTable) := by
  refine composed_deref (by decide) (fun _ _ h => h) fun slot => ?_
  refine composed_ofPart fun r => ?_
  exact composed_change (.emplace .assignmentTable ⟨r.2, slot.publicMoved, true⟩) (.pure trivial)

theorem composed_preprocessPublicData (hlambda : uses .lambda) (hexpand : uses .expandFactor)
    (hchunks : uses .maxQuotientChunks) :
    Composed (Primitive L d fs₀ R W T uses) Anything
      (Prover.preprocessPublicData : Step L Bool) := by
  refine composed_deref (by decide) (fun _ _ h => h) fun slot => ?_
  refine composed_ofPart fun inputs => ?_
  refine composed_change (.emplace .publicInputs inputs) ?_
  refine .bind (composed_createLpcScheme hlambda hexpand) fun _ _ => ?_
  refine composed_deref (by decide) (fun _ _ h => h) fun cs => ?_
  refine .bind composed_movePublicTable fun publicTable _ => ?_
  refine composed_deref (by decide) (fun _ _ h => h) fun description => ?_
  refine composed_deref (by decide) (fun _ _ h => h) fun scheme => ?_
  show Composed _ _ (Prover.parameterOf .maxQuotientChunks >>= fun chunks =>
    Prover.external
      (L.placeholderPublicPreprocessor cs publicTable description scheme chunks) >>= fun r =>
        Prover.update (fun p =>
          { p with lpcScheme := some r.2, publicPreprocessedData := some r.1 }) >>= fun _ =>
            pure true)
  refine .after (.parameter hchunks) fun chunks _ => ?_
  refine composed_external _ fun r => ?_
  exact composed_change (.comp (.emplace .lpcScheme r.2) (.emplace .publicPreprocessedData r.1))
    (.pure trivial)

theorem composed_preprocessPrivateData :
    Composed (Primitive L d fs₀ R W T uses) Anything
      (Prover.preprocessPrivateData : Step L Bool) := by
  refine composed_deref (by decide) (fun _ _ h => h) fun cs => ?_
  refine .bind composed_movePrivateTable fun privateTable _ => ?_
  refine composed_deref (by decide) (fun _ _ h => h) fun description => ?_
  refine composed_external _ fun data => ?_
  exact composed_change (.comp (.emplace .privatePreprocessedData data) .dropTable) (.pure trivial)

theorem composed_verify (proof : L.Proof) :
    Composed (Primitive L d fs₀ R W T uses) Anything (Prover.verify proof) := by
  rw [Prover.verify_eq]
  refine .after .common fun common _ => ?_
  refine composed_deref (by decide) (fun _ _ h => h) fun description => ?_
  refine composed_deref (by decide) (fun _ _ h => h) fun cs => ?_
  refine composed_deref (by decide) (fun _ _ h => h) fun scheme => ?_
  exact .primitive (.external _)

theorem composed_verifyFromFile {path : Path} (hpath : R path) (hlambda : uses .lambda)
    (hexpand : uses .expandFactor) :
    Composed (Primitive L d fs₀ R W T uses) Anything
      (Prover.verifyFromFile path : Step L Bool) := by
  refine .bind (composed_createLpcScheme hlambda hexpand) fun _ _ => ?_
  refine .after (.decode L.placeholderProof hpath true) fun m _ => ?_
  cases m with
  | none => exact .pure trivial
  | some m => exact composed_external _ fun proof => composed_verify proof

theorem composed_acceptProof {path : Path} (hpath : Probing fs₀ R W T path)
    (skip : Bool) :
    Composed (Primitive L d fs₀ R W T uses) Anything
      (Prover.acceptProof path skip : Step L (Option L.Proof)) := by
  refine .bind (composed_onFiles (composed_canWriteToFile hpath)) fun writable _ => ?_
  refine composed_ite (fun _ => .pure trivial) fun _ => ?_
  refine composed_deref (by decide) (fun _ _ h => h) fun publicData => ?_
  refine composed_deref (by decide) (fun _ _ h => h) fun privateData => ?_
  refine composed_deref (by decide) (fun _ _ h => h) fun description => ?_
  refine composed_deref (by decide) (fun _ _ h => h) fun cs => ?_
  refine composed_deref (by decide) (fun _ _ h => h) fun scheme => ?_
  refine composed_external _ fun r => ?_
  refine composed_change (.emplace .lpcScheme r.2) ?_
  refine composed_ite (fun _ => .pure trivial) fun _ => ?_
  refine .bind (composed_verify r.1) fun accepted _ => ?_
  exact composed_ite (fun _ => .pure trivial) fun _ => .pure trivial

theorem composed_publishProof {proofFile jsonFile : Path} (hproof : W proofFile)
    (hjson : W jsonFile) (proof : L.Proof) :
    Composed (Primitive L d fs₀ R W T uses) Anything
      (Prover.publishProof d proofFile jsonFile proof) := by
  refine composed_deref (by decide) (fun _ _ h => h) fun scheme => ?_
  refine composed_external _ fun filled => ?_
  refine .bind (composed_onFiles (composed_encodeMarshallingToFile _ hproof filled true))
    fun res _ => ?_
  refine .after (.files (.create (.inl hjson))) fun l hl => ?_
  cases l with
  | none => exact .pure trivial
  | some l =>
    refine composed_deref (by decide) (fun _ _ h => h) fun description => ?_
    refine composed_deref (by decide) (fun _ _ h => h) fun inputs => ?_
    refine composed_deref (by decide) (fun _ _ h => h) fun cs => ?_
    refine composed_external _ fun text => ?_
    exact .after (.files (.write hjson (hl l rfl) text)) fun _ _ => .pure trivial

theorem composed_generateToFile {proofFile jsonFile : Path}
    (hproof : Probing fs₀ R W T proofFile) (hjson : W jsonFile) (skip : Bool) :
    Composed (Primitive L d fs₀ R W T uses) Anything
      (Prover.generateToFile d proofFile jsonFile skip : Step L Bool) := by
  refine .bind (composed_acceptProof hproof skip) fun proof _ => ?_
  cases proof with
  | none => exact .pure trivial
  | some proof =>
    exact composed_publishProof hproof.opened hjson proof

theorem composed_readable {files : List Path} (hfiles : ∀ q ∈ files, R q) :
    Composed (Primitive L d fs₀ R W T uses) Anything
      (Prover.reads fun fs => .ok (files.all (canReadFromFile fs)) : Step L Bool) := by
  induction files with
  | nil => exact .pure trivial
  | cons file files ih =>
    have hsplit : (Prover.reads fun fs => .ok ((file :: files).all (canReadFromFile fs)) :
        Step L Bool) = Prover.reads (fun fs => .ok (canReadFromFile fs file)) >>= fun b =>
          if b then Prover.reads fun fs => .ok (files.all (canReadFromFile fs))
          else pure false := by
      funext s
      show _ = (_ >>= _ : Step L Bool).run s
      rw [Action.run_bind, Prover.run_reads]
      simp only [Except.mapError]
      cases hb : canReadFromFile s.files file with
      | true => simp [Prover.reads, Action.observe, Action.run, hb, Except.mapError]
      | false => simp [Prover.reads, Action.observe, Except.mapError, hb]
    rw [hsplit]
    refine .after (.readable (hfiles file List.mem_cons_self)) fun b _ => ?_
    refine composed_ite (fun _ => ih fun q hq => ?_) fun _ => .pure trivial
    exact hfiles q (List.mem_cons_of_mem file hq)

theorem composed_absorbChallenges {files : List Path} (hfiles : ∀ q ∈ files, R q)
    (transcript : L.Transcript) :
    Composed (Primitive L d fs₀ R W T uses) Anything
      (Prover.reads fun fs => Prover.absorbChallenges L fs files transcript :
        Step L (Option L.Transcript)) := by
  induction files generalizing transcript with
  | nil => exact .pure trivial
  | cons file files ih =>
    have hsplit : (Prover.reads fun fs => Prover.absorbChallenges L fs (file :: files) transcript :
        Step L (Option L.Transcript)) =
        Prover.reads (fun fs => decodeMarshallingFromFile L.fieldElement fs file false) >>= fun c =>
          match c with
          | none => pure none
          | some c => Prover.reads fun fs => Prover.absorbChallenges L fs files
              (L.absorb transcript (L.fieldElementValue c)) := by
      funext s
      show (Prover.reads _).run s = (_ >>= _ : Step L (Option L.Transcript)).run s
      rw [Action.run_bind, Prover.run_reads, Prover.run_reads, Prover.absorbChallenges]
      rcases decodeMarshallingFromFile L.fieldElement s.files file false with e | c
      · rfl
      · cases c <;> rfl
    rw [hsplit]
    refine .after (.decode L.fieldElement (hfiles file List.mem_cons_self) false) fun c _ => ?_
    cases c with
    | none => exact .pure trivial
    | some c => exact ih (fun q hq => hfiles q (List.mem_cons_of_mem file hq)) _

theorem composed_generateAggregatedChallengeToFile {files : List Path} {path : Path}
    (hfiles : ∀ q ∈ files, R q) (hpath : W path) :
    Composed (Primitive L d fs₀ R W T uses) Anything
      (Prover.generateAggregatedChallengeToFile d files path : Step L Bool) := by
  refine composed_ite (fun _ => .pure trivial) fun _ => ?_
  refine .bind (composed_readable hfiles) fun readable _ => ?_
  refine composed_ite (fun _ => .pure trivial) fun _ => ?_
  refine .bind (composed_absorbChallenges hfiles _) fun transcript _ => ?_
  cases transcript with
  | none => exact .pure trivial
  | some transcript =>
    exact composed_onFiles (composed_encodeMarshallingToFile _ hpath _ false)

end Methods

section Differences
variable {uses : Parameter → Prop} {E : Prover L → Prover L → Prop}
  {G : FileSystem → FileSystem → Prop}

/-- A difference between objects that the primitives neither see nor undo. -/
structure Unseen (uses : Parameter → Prop) (E : Prover L → Prover L → Prop) : Prop where
  member : ∀ {p q m}, E p q → m ≠ .commonData → q.get m = p.get m
  common : ∀ {p q}, E p q → q.heldCommonData = p.heldCommonData
  parameter : ∀ {p q k}, E p q → uses k → q.parameter k = p.parameter k
  change : ∀ {p q f}, E p q → Change f → E (f p) (f q)

/-- A difference between file systems that they neither see nor undo. -/
structure Unread (d : Disk) (fs₀ : FileSystem) (R W T : Path → Prop)
    (G : FileSystem → FileSystem → Prop) : Prop where
  lookup : ∀ {a b q}, G a b → R q → b.lookup q = a.lookup q
  faithful : ∀ {α} {m : Action FileSystem Exception α} {P : α → Prop},
    FilePrimitive d fs₀ R W T α m P → Faithful G P m

/-- The objects differ in one way and the files in another. -/
structure Side (E : Prover L → Prover L → Prop) (G : FileSystem → FileSystem → Prop)
    (s t : Session L) : Prop where
  prover : E s.prover t.prover
  files : G s.files t.files

theorem unseen_eq : Unseen uses (Eq : Prover L → Prover L → Prop) where
  member h _ := by rw [h]
  common h := by rw [h]
  parameter h _ := by rw [h]
  change h _ := by rw [h]

theorem Primitive.faithful (hE : Unseen uses E) (hG : Unread d fs₀ R W T G) {m : Step L α}
    {P : α → Prop} (hm : Primitive L d fs₀ R W T uses α m P) : Faithful (Side E G) P m := by
  intro s t hst
  cases hm with
  | external r => exact ⟨rfl, hst, fun _ _ => trivial⟩
  | member hm hget =>
    refine ⟨?_, hst, fun _ _ => trivial⟩
    rw [Prover.run_deref, Prover.run_deref, hget _ _ (hE.member hst.prover hm)]
  | common =>
    refine ⟨?_, hst, fun _ _ => trivial⟩
    rw [Prover.run_deref, Prover.run_deref, hE.common hst.prover]
  | parameter hk =>
    refine ⟨?_, hst, fun _ _ => trivial⟩
    exact congrArg Except.ok (hE.parameter hst.prover hk)
  | change hf => exact ⟨rfl, ⟨hE.change hst.prover hf, hst.files⟩, fun _ _ => trivial⟩
  | decode codec hp hex =>
    refine ⟨?_, hst, fun _ _ => trivial⟩
    rw [Prover.run_reads, Prover.run_reads, decodeMarshallingFromFile,
      decodeMarshallingFromFile, heldBytes_congr (hG.lookup hst.files hp)]
  | readable hp =>
    refine ⟨?_, hst, fun _ _ => trivial⟩
    rw [Prover.run_reads, Prover.run_reads, canReadFromFile, canReadFromFile,
      hG.lookup hst.files hp]
  | @files _ m P hm =>
    obtain ⟨p, a⟩ := s
    obtain ⟨q, b⟩ := t
    obtain ⟨hanswer, hend, hpromise⟩ := hG.faithful hm a b hst.files
    rw [Prover.run_onFiles, Prover.run_onFiles]
    refine ⟨congrArg (Except.mapError Stop.thrown) hanswer, ⟨hst.prover, hend⟩, fun x hx => ?_⟩
    refine hpromise x ?_
    cases hr : (m.run a).1 with
    | error e => simp [hr, Except.mapError] at hx
    | ok y => simpa [hr, Except.mapError] using hx

/-- The files are the same. -/
def SameFiles (fs₀ a b : FileSystem) : Prop := Steady fs₀ a ∧ b = a

theorem unread_sameFiles : Unread d fs₀ R W T (SameFiles fs₀) where
  lookup h _ := by rw [h.2]
  faithful {_ m P} hm := by
    rintro a b ⟨hsteady, rfl⟩
    obtain ⟨hend, hpromise⟩ := hm.spec hsteady
    exact ⟨rfl, ⟨hend, rfl⟩, hpromise⟩

/-- The directories stay as they are, and a primitive keeps its promise. -/
theorem Primitive.spec {m : Step L α} {P : α → Prop} {s : Session L}
    (hm : Primitive L d fs₀ R W T uses α m P) (hs : Steady fs₀ s.files) :
    Steady fs₀ (m.run s).2.files ∧ ∀ a, (m.run s).1 = .ok a → P a := by
  obtain ⟨_, hend, hpromise⟩ := hm.faithful unseen_eq unread_sameFiles s s ⟨rfl, hs, rfl⟩
  exact ⟨hend.files.1, hpromise⟩

end Differences

/-- The files that a call reads. -/
def Call.reads : Call L → List Path
  | .operation (.readCircuit path) => [path]
  | .operation (.readAssignmentTable path) => [path]
  | .operation (.readAssignmentDescription path) => [path]
  | .operation (.readPreprocessedCommonDataFromFile path) => [path]
  | .operation (.readPublicPreprocessedDataFromFile path) => [path]
  | .operation (.readCommitmentSchemeFromFile path) => [path]
  | .operation (.verifyFromFile proofFile) => [proofFile]
  | .operation (.generateAggregatedChallengeToFile inputFiles _) => inputFiles
  | _ => []

/-- The files that it probes. -/
def Call.probes : Call L → List Path
  | .operation (.generateToFile proofFile _ _) => [proofFile]
  | _ => []

/-- The files that it writes. -/
def Call.writes : Call L → List Path
  | .operation (.savePreprocessedCommonDataToFile path) => [path]
  | .operation (.savePublicPreprocessedDataToFile path) => [path]
  | .operation (.saveCommitmentStateToFile path) => [path]
  | .operation (.saveAssignmentDescription path) => [path]
  | .operation (.generateToFile proofFile jsonFile _) => [proofFile, jsonFile]
  | .operation (.generateAggregatedChallengeToFile _ challengeFile) => [challengeFile]
  | _ => []

/-- The parameters that it reads. -/
def Call.parameters : Call L → List Parameter
  | .operation (.verifyFromFile _) => [.lambda, .expandFactor]
  | .createLpcScheme => [.lambda, .expandFactor]
  | .preprocessPublicData => [.lambda, .expandFactor, .maxQuotientChunks]
  | _ => []

theorem composed_call {uses : Parameter → Prop} (c : Call L) (hreads : ∀ q ∈ c.reads, R q)
    (hprobes : ∀ q ∈ c.probes, Probing fs₀ R W T q) (hwrites : ∀ q ∈ c.writes, W q)
    (huses : ∀ k ∈ c.parameters, uses k) :
    Composed (Primitive L d fs₀ R W T uses) Anything (c.run d) := by
  cases c with
  | createLpcScheme =>
    refine .bind (composed_createLpcScheme (huses _ ?_) (huses _ ?_)) fun _ _ => .pure trivial
    · simp [Call.parameters]
    · simp [Call.parameters]
  | preprocessPublicData =>
    refine composed_preprocessPublicData (huses _ ?_) (huses _ ?_) (huses _ ?_)
    · simp [Call.parameters]
    · simp [Call.parameters]
    · simp [Call.parameters]
  | preprocessPrivateData => exact composed_preprocessPrivateData
  | verify proof => exact composed_verify proof
  | operation op =>
    cases op with
    | readCircuit path =>
      refine composed_readMember (hreads path List.mem_cons_self) ?_
      exact fun cs => .emplace .constraintSystem cs
    | readAssignmentTable path =>
      refine composed_readMember (hreads path List.mem_cons_self) fun r => ?_
      exact .comp (.emplace .tableDescription r.1) (.emplace .assignmentTable ⟨r.2, false, false⟩)
    | readAssignmentDescription path =>
      refine composed_readMember (hreads path List.mem_cons_self) ?_
      exact fun description => .emplace .tableDescription description
    | readPreprocessedCommonDataFromFile path =>
      refine composed_readMember (hreads path List.mem_cons_self) ?_
      exact fun common => .emplace .commonData common
    | readPublicPreprocessedDataFromFile path =>
      refine composed_readMember (hreads path List.mem_cons_self) ?_
      exact fun data => .emplace .publicPreprocessedData data
    | readCommitmentSchemeFromFile path =>
      refine composed_readMember (hreads path List.mem_cons_self) ?_
      exact fun scheme => .emplace .lpcScheme scheme
    | savePreprocessedCommonDataToFile path =>
      refine composed_saveObject (hwrites path List.mem_cons_self) (by decide) fun p q h => ?_
      exact congrArg (Option.map L.commonData) h
    | savePublicPreprocessedDataToFile path =>
      exact composed_saveObject (hwrites path List.mem_cons_self) (by decide) fun _ _ h => h
    | saveCommitmentStateToFile path =>
      exact composed_saveObject (hwrites path List.mem_cons_self) (by decide) fun _ _ h => h
    | saveAssignmentDescription path =>
      exact composed_saveObject (hwrites path List.mem_cons_self) (by decide) fun _ _ h => h
    | verifyFromFile proofFile =>
      refine composed_verifyFromFile (hreads proofFile List.mem_cons_self) (huses _ ?_) (huses _ ?_)
      · simp [Call.parameters]
      · simp [Call.parameters]
    | generateToFile proofFile jsonFile skip =>
      have hjson : W jsonFile := hwrites jsonFile (by simp [Call.writes])
      exact composed_generateToFile (hprobes proofFile List.mem_cons_self) hjson skip
    | generateAggregatedChallengeToFile inputs challengeFile =>
      exact composed_generateAggregatedChallengeToFile hreads
        (hwrites challengeFile List.mem_cons_self)

/-- The steps of a stage are calls of one object. -/
def stageCalls (L : Crypto3) (o : ProverOptions) : ProverStage → List (Call L)
  | .all =>
    [.operation (.readCircuit o.circuitFilePath),
      .operation (.readAssignmentTable o.assignmentTableFilePath),
      .preprocessPublicData,
      .preprocessPrivateData,
      .operation (.generateToFile o.proofFilePath o.jsonFilePath false),
      .operation (.savePreprocessedCommonDataToFile o.preprocessedCommonDataPath),
      .operation (.savePublicPreprocessedDataToFile o.preprocessedPublicDataPath),
      .operation (.saveCommitmentStateToFile o.commitmentSchemeStatePath)]
  | .preprocess =>
    [.operation (.readCircuit o.circuitFilePath),
      .operation (.readAssignmentTable o.assignmentTableFilePath),
      .operation (.saveAssignmentDescription o.assignmentDescriptionFilePath),
      .preprocessPublicData,
      .operation (.savePreprocessedCommonDataToFile o.preprocessedCommonDataPath),
      .operation (.savePublicPreprocessedDataToFile o.preprocessedPublicDataPath),
      .operation (.saveCommitmentStateToFile o.commitmentSchemeStatePath)]
  | .prove =>
    [.operation (.readCircuit o.circuitFilePath),
      .operation (.readAssignmentTable o.assignmentTableFilePath),
      .operation (.readPublicPreprocessedDataFromFile o.preprocessedPublicDataPath),
      .operation (.readCommitmentSchemeFromFile o.commitmentSchemeStatePath),
      .preprocessPrivateData,
      .operation (.generateToFile o.proofFilePath o.jsonFilePath true)]
  | .verify =>
    [.operation (.readCircuit o.circuitFilePath),
      .operation (.readPreprocessedCommonDataFromFile o.preprocessedCommonDataPath),
      .operation (.readAssignmentDescription o.assignmentDescriptionFilePath),
      .operation (.verifyFromFile o.proofFilePath)]
  | .generateAggregatedChallenge =>
    [.operation (.generateAggregatedChallengeToFile o.inputChallengeFiles
      o.aggregatedChallengeFile)]

theorem stageSteps_eq_map (o : ProverOptions) (stage : ProverStage) :
    stageSteps L d o stage = (stageCalls L o stage).map (Call.run d) := by
  cases stage <;> rfl

/-- The parameters that the steps of a stage read. -/
def stageParameters : ProverStage → List Parameter
  | .all => [.lambda, .expandFactor, .maxQuotientChunks]
  | .preprocess => [.lambda, .expandFactor, .maxQuotientChunks]
  | .prove => []
  | .verify => [.lambda, .expandFactor]
  | .generateAggregatedChallenge => []

theorem reads_of_stage (o : ProverOptions) (stage : ProverStage) :
    ∀ c ∈ stageCalls L o stage, ∀ q ∈ c.reads, q ∈ stageInputs o stage := by
  cases stage <;> simp [stageCalls, stageInputs, Call.reads]

theorem probed_of_stage (o : ProverOptions) (stage : ProverStage) :
    ∀ c ∈ stageCalls L o stage, ∀ q ∈ c.probes, q ∈ stageProbes o stage := by
  cases stage <;> simp [stageCalls, stageProbes, Call.probes]

theorem writes_of_stage (o : ProverOptions) (stage : ProverStage) :
    ∀ c ∈ stageCalls L o stage, ∀ q ∈ c.writes, q ∈ stageOutputs o stage := by
  cases stage <;> simp [stageCalls, stageOutputs, Call.writes]

theorem parameters_of_stage (o : ProverOptions) (stage : ProverStage) :
    ∀ c ∈ stageCalls L o stage, ∀ k ∈ c.parameters, k ∈ stageParameters stage := by
  cases stage <;> simp [stageCalls, stageParameters, Call.parameters]

theorem composed_stageSteps {o : ProverOptions} {uses : Parameter → Prop} (stage : ProverStage)
    (hinputs : ∀ q ∈ stageInputs o stage, R q)
    (hprobes : ∀ q ∈ stageProbes o stage, Probing fs₀ R W T q)
    (houtputs : ∀ q ∈ stageOutputs o stage, W q) (huses : ∀ k ∈ stageParameters stage, uses k) :
    ∀ m ∈ stageSteps L d o stage, Composed (Primitive L d fs₀ R W T uses) Anything m := by
  intro m hm
  rw [stageSteps_eq_map] at hm
  obtain ⟨c, hc, rfl⟩ := List.mem_map.mp hm
  refine composed_call c ?_ ?_ ?_ ?_
  · exact fun q hq => hinputs q (reads_of_stage o stage c hc q hq)
  · exact fun q hq => hprobes q (probed_of_stage o stage c hc q hq)
  · exact fun q hq => houtputs q (writes_of_stage o stage c hc q hq)
  · exact fun k hk => huses k (parameters_of_stage o stage c hc k hk)

end ProofProducer
