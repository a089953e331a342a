import ProofProducer.Stages

/-!
# Steps that leave the files alone

Only the saving methods, the probe and the publication of a proof change a file. Up to the
acceptance of a proof a stage changes what the probe changes and nothing else.
-/

namespace ProofProducer

open Effects Files Files.FileSystem Codecs

set_option autoImplicit false

variable {L : Crypto3} {d : Disk} {o : ProverOptions} {fs fs₁ : FileSystem}

/-- However the step ends, the files are what they were. -/
abbrev KeepsFiles {α : Type} (m : Step L α) : Prop :=
  ∀ fs, Action.Keeps (fun s => s.files = fs) m

variable {M α : Type}

theorem keepsFiles_deref (m : Member) (get : Prover L → Option α) :
    KeepsFiles (Prover.deref m get) := fun _ => Action.keeps_observe _ _

theorem keepsFiles_external (r : Except Exception α) :
    KeepsFiles (Prover.external r : Step L α) := fun _ => Action.keeps_observe _ _

theorem keepsFiles_reads (f : FileSystem → Except Exception α) :
    KeepsFiles (Prover.reads f : Step L α) := fun _ => Action.keeps_observe _ _

theorem keepsFiles_self : KeepsFiles (Prover.self : Step L (Prover L)) :=
  fun _ => Action.keeps_observe _ _

theorem keepsFiles_update (f : Prover L → Prover L) : KeepsFiles (Prover.update f) :=
  fun _ _ h => h

theorem keepsFiles_pure (a : α) : KeepsFiles (pure a : Step L α) := fun _ => Action.keeps_pure _ a

theorem keepsFiles_bind {β : Type} {m : Step L α} {f : α → Step L β} (hm : KeepsFiles m)
    (hf : ∀ a, KeepsFiles (f a)) : KeepsFiles (m >>= f) :=
  fun fs => Action.keeps_bind (hm fs) fun a => hf a fs

theorem keepsFiles_ofPart (part : TablePart) (moved : Bool) (a : α) :
    KeepsFiles (Prover.ofPart part moved a : Step L α) :=
  fun _ => Action.keeps_ite (Action.keeps_stop _ _) (Action.keeps_pure _ a)

theorem keepsFiles_readMember (codec : Codec Exception M) (make : M → Except Exception α)
    (emplace : α → Prover L → Prover L) (path : Path) :
    KeepsFiles (Prover.readMember codec make emplace path) := by
  apply keepsFiles_bind (keepsFiles_reads _)
  intro m
  cases m with
  | none => exact keepsFiles_pure false
  | some m =>
    apply keepsFiles_bind (keepsFiles_external _)
    intro a
    exact keepsFiles_bind (keepsFiles_update _) fun _ => keepsFiles_pure true

theorem keepsFiles_createLpcScheme : KeepsFiles (Prover.createLpcScheme : Step L Unit) := by
  apply keepsFiles_bind (keepsFiles_deref _ _)
  intro description
  cases Prover.ceilLog2 (L.rowsAmount description) with
  | none => exact fun _ => Action.keeps_stop _ _
  | some n =>
    apply keepsFiles_bind keepsFiles_self
    intro p
    apply keepsFiles_bind (keepsFiles_external _)
    intro params
    apply keepsFiles_bind (keepsFiles_update _)
    intro _
    exact keepsFiles_bind (keepsFiles_external _) fun _ => keepsFiles_update _

theorem keepsFiles_movePublicTable :
    KeepsFiles (Prover.movePublicTable : Step L L.PublicTable) := by
  apply keepsFiles_bind (keepsFiles_deref _ _)
  intro slot
  apply keepsFiles_bind (keepsFiles_ofPart _ _ _)
  intro r
  exact keepsFiles_bind (keepsFiles_update _) fun _ => keepsFiles_pure _

theorem keepsFiles_movePrivateTable :
    KeepsFiles (Prover.movePrivateTable : Step L L.PrivateTable) := by
  apply keepsFiles_bind (keepsFiles_deref _ _)
  intro slot
  apply keepsFiles_bind (keepsFiles_ofPart _ _ _)
  intro r
  exact keepsFiles_bind (keepsFiles_update _) fun _ => keepsFiles_pure _

theorem keepsFiles_preprocessPublicData :
    KeepsFiles (Prover.preprocessPublicData : Step L Bool) := by
  apply keepsFiles_bind (keepsFiles_deref _ _)
  intro slot
  apply keepsFiles_bind (keepsFiles_ofPart _ _ _)
  intro inputs
  apply keepsFiles_bind (keepsFiles_update _)
  intro _
  apply keepsFiles_bind keepsFiles_createLpcScheme
  intro _
  apply keepsFiles_bind (keepsFiles_deref _ _)
  intro cs
  apply keepsFiles_bind keepsFiles_movePublicTable
  intro publicTable
  apply keepsFiles_bind (keepsFiles_deref _ _)
  intro description
  apply keepsFiles_bind (keepsFiles_deref _ _)
  intro scheme
  apply keepsFiles_bind keepsFiles_self
  intro p
  apply keepsFiles_bind (keepsFiles_external _)
  intro r
  exact keepsFiles_bind (keepsFiles_update _) fun _ => keepsFiles_pure true

theorem keepsFiles_preprocessPrivateData :
    KeepsFiles (Prover.preprocessPrivateData : Step L Bool) := by
  apply keepsFiles_bind (keepsFiles_deref _ _)
  intro cs
  apply keepsFiles_bind keepsFiles_movePrivateTable
  intro privateTable
  apply keepsFiles_bind (keepsFiles_deref _ _)
  intro description
  apply keepsFiles_bind (keepsFiles_external _)
  intro data
  exact keepsFiles_bind (keepsFiles_update _) fun _ => keepsFiles_pure true

theorem keepsFiles_verify (proof : L.Proof) : KeepsFiles (Prover.verify proof) := by
  apply keepsFiles_bind keepsFiles_self
  intro p
  have hrest : ∀ common : L.CommonData, KeepsFiles (do
      let description ← Prover.deref .tableDescription Prover.tableDescription
      let cs ← Prover.deref .constraintSystem Prover.constraintSystem
      let scheme ← Prover.deref .lpcScheme Prover.lpcScheme
      Prover.external (L.placeholderVerifier common proof description cs scheme) :
        Step L Bool) := by
    intro common
    apply keepsFiles_bind (keepsFiles_deref _ _)
    intro description
    apply keepsFiles_bind (keepsFiles_deref _ _)
    intro cs
    exact keepsFiles_bind (keepsFiles_deref _ _) fun _ => keepsFiles_external _
  dsimp only
  cases p.publicPreprocessedData with
  | some data => exact keepsFiles_bind (keepsFiles_pure _) hrest
  | none => exact keepsFiles_bind (keepsFiles_deref _ _) hrest

theorem keepsFiles_verifyFromFile (path : Path) :
    KeepsFiles (Prover.verifyFromFile path : Step L Bool) := by
  apply keepsFiles_bind keepsFiles_createLpcScheme
  intro _
  apply keepsFiles_bind (keepsFiles_reads _)
  intro m
  cases m with
  | none => exact keepsFiles_pure false
  | some m => exact keepsFiles_bind (keepsFiles_external _) keepsFiles_verify

theorem keepsFiles_allOf {steps : List (Step L Bool)} (h : ∀ m ∈ steps, KeepsFiles m) :
    KeepsFiles (Action.allOf steps) :=
  fun fs => Action.keeps_allOf fun m hm => h m hm fs

theorem KeepsFiles.files_eq {m : Step L α} (h : KeepsFiles m) (s : Session L) :
    (m.run s).2.files = s.files := h s.files s rfl

/-- After the probe nothing touches the files until the proof is published. -/
theorem acceptProof_files (path : Path) (skip : Bool) (s : Session L) :
    ((Prover.acceptProof path skip).run s).2.files = ((canWriteToFile path).run s.files).2 := by
  obtain ⟨p, fs⟩ := s
  unfold Prover.acceptProof
  rw [Action.run_bind, Prover.run_onFiles]
  rcases (canWriteToFile path).run fs with ⟨r, fs₁⟩
  rcases r with e | b
  · rfl
  refine KeepsFiles.files_eq ?_ ⟨p, fs₁⟩
  cases b with
  | false => exact keepsFiles_pure none
  | true =>
    apply keepsFiles_bind (keepsFiles_deref _ _)
    intro publicData
    apply keepsFiles_bind (keepsFiles_deref _ _)
    intro privateData
    apply keepsFiles_bind (keepsFiles_deref _ _)
    intro description
    apply keepsFiles_bind (keepsFiles_deref _ _)
    intro cs
    apply keepsFiles_bind (keepsFiles_deref _ _)
    intro scheme
    apply keepsFiles_bind (keepsFiles_external _)
    intro r
    apply keepsFiles_bind (keepsFiles_update _)
    intro _
    cases skip with
    | true => exact keepsFiles_pure _
    | false =>
      apply keepsFiles_bind (keepsFiles_verify _)
      intro accepted
      cases accepted with
      | true => exact keepsFiles_pure _
      | false => exact keepsFiles_pure _

theorem acceptedProof_files {steps : List (Step L Bool)} (h : ∀ m ∈ steps, KeepsFiles m)
    (path : Path) (skip : Bool) (s : Session L) :
    ((acceptedProof steps path skip).run s).2.files = s.files ∨
      ((acceptedProof steps path skip).run s).2.files =
        ((canWriteToFile path).run s.files).2 := by
  have hsteps := (keepsFiles_allOf h).files_eq s
  unfold acceptedProof
  rw [Action.run_bind]
  rcases hr : (Action.allOf steps).run s with ⟨r, t⟩
  rw [hr] at hsteps
  rcases r with e | b
  · exact Or.inl hsteps
  cases b with
  | false => exact Or.inl hsteps
  | true =>
    refine Or.inr ((acceptProof_files path skip t).trans ?_)
    rw [show t.files = s.files from hsteps]

theorem keepsFiles_preparation (L : Crypto3) (o : ProverOptions) :
    ∀ m ∈ preparation L o, KeepsFiles m := by
  intro m hm
  simp only [preparation, List.mem_cons, List.not_mem_nil, or_false] at hm
  rcases hm with rfl | rfl | rfl | rfl
  · exact keepsFiles_readMember _ _ _ _
  · exact keepsFiles_readMember _ _ _ _
  · exact keepsFiles_preprocessPublicData
  · exact keepsFiles_preprocessPrivateData

theorem keepsFiles_resumption (L : Crypto3) (o : ProverOptions) :
    ∀ m ∈ resumption L o, KeepsFiles m := by
  intro m hm
  simp only [resumption, List.mem_cons, List.not_mem_nil, or_false] at hm
  rcases hm with rfl | rfl | rfl | rfl | rfl
  · exact keepsFiles_readMember _ _ _ _
  · exact keepsFiles_readMember _ _ _ _
  · exact keepsFiles_readMember _ _ _ _
  · exact keepsFiles_readMember _ _ _ _
  · exact keepsFiles_preprocessPrivateData

end ProofProducer
