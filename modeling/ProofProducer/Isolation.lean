import ProofProducer.Shared.Schedules
import ProofProducer.Footprint

/-!
# Runs that keep out of each other's way

A run changes its outputs and the temporary file of its write probe and nothing else, in every
stage and however it ends. Runs that look at none of the files the others change answer as if
each ran alone, and what they leave does not depend on their order.
-/

namespace ProofProducer

open Effects Files Files.FileSystem Codecs

set_option autoImplicit false

variable {L : Crypto3} {d : Disk} {o : ProverOptions} {fs fs₁ fs₂ : FileSystem} {p q : Path}

/-- What a probe that opens its temporary file leaves in its place. -/
def leftover (fs : FileSystem) (p : Path) : Option Node :=
  match fs.openForWriting (probeFile fs p) with
  | none => none
  | some l => if fs.directoryWritable l.dropLast then none else some (.file [] true)

theorem leftover_steady (h : Steady fs fs₁) (p : Path) : leftover fs₁ p = leftover fs p := by
  simp only [leftover, probeFile_steady h, h.openForWriting_eq, directoryWritable_congr h.directory]

/-- A probe changes at most its temporary file, and that in one way only. -/
theorem lookup_probed (p q : Path) (fs : FileSystem) :
    ((canWriteToFile p).run fs).2.lookup q = fs.lookup q ∨
      fs.SameFile q (probeFile fs p) ∧
        ((canWriteToFile p).run fs).2.lookup q = leftover fs p := by
  by_cases hq : fs.SameFile q (probeFile fs p)
  swap
  · exact Or.inl ((canWriteToFile_cases p fs).lookup hq)
  obtain ⟨k, hkq, hkp⟩ := hq
  have hsteady := canWriteToFile_steady p fs
  have hnode : ((canWriteToFile p).run fs).2.lookup q = ((canWriteToFile p).run fs).2.node k := by
    apply lookup_of_fileLocation
    rw [hsteady.fileLocation_eq, hkq]
  have hbefore : fs.lookup q = fs.node k := lookup_of_fileLocation hkq
  rw [hnode, hbefore]
  have key : ((canWriteToFile p).run fs).2 = fs ∨
      ((canWriteToFile p).run fs).2.node k = leftover fs p := by
    rw [canWriteToFile_run]
    split
    · exact Or.inl rfl
    split
    · exact Or.inl rfl
    split
    · exact Or.inl rfl
    split
    · exact Or.inl rfl
    cases ho : fs.openForWriting (probeFile fs p) with
    | none => exact Or.inl rfl
    | some l =>
      obtain rfl : l = k := Option.some.inj ((openForWriting_eq_some_iff.mp ho).1.symm.trans hkp)
      right
      simp only [leftover, ho]
      cases fs.directoryWritable l.dropLast <;> simp
  rcases key with hsame | hleft
  · exact Or.inl (by rw [hsame])
  · exact Or.inr ⟨⟨k, hkq, hkp⟩, hleft⟩

/-- Of the paths that are none of the written ones, only the temporary files of the probes can
have changed. -/
structure Within (fs₀ : FileSystem) (writes probed : List Path) (fs : FileSystem) : Prop where
  steady : Steady fs₀ fs
  lookup : ∀ q, (∀ p ∈ writes, ¬ fs₀.SameFile q p) → fs.lookup q = fs₀.lookup q ∨
    ∃ p ∈ probed, fs₀.SameFile q (probeFile fs₀ p) ∧ fs.lookup q = leftover fs₀ p
  present : ∀ q, (∀ p ∈ probed, ¬ fs₀.SameFile q (probeFile fs₀ p)) →
    fileExists fs₀ q = true → fileExists fs q = true

namespace Within
variable {fs₀ : FileSystem} {writes probed : List Path} {v : Bytes}

theorem refl (fs : FileSystem) (writes probed : List Path) : Within fs writes probed fs :=
  ⟨.refl fs, fun _ _ => Or.inl rfl, fun _ _ h => h⟩

/-- A change that paths other than the written ones do not see. -/
theorem unseen (h : Within fs₀ writes probed fs) (hs : Steady fs fs₁) (hp : p ∈ writes)
    (hunseen : ∀ q, ¬ fs.SameFile q p → fs₁.lookup q = fs.lookup q)
    (hpresent : ∀ q, fileExists fs q = true → fileExists fs₁ q = true) :
    Within fs₀ writes probed fs₁ := by
  refine ⟨h.steady.trans hs, fun q hq => ?_, fun q hq he => hpresent q (h.present q hq he)⟩
  rw [hunseen q fun hsame => hq p hp ((h.steady.sameFile_iff q p).mp hsame)]
  exact h.lookup q hq

theorem written (h : Within fs₀ writes probed fs) (hp : p ∈ writes) (d : Disk) (v : Bytes) :
    Within fs₀ writes probed (written d fs p v).2 :=
  h.unseen (written_steady d fs p v) hp (fun _ hq => lookup_written_of_ne hq)
    fun _ he => fileExists_written he

theorem probe (h : Within fs₀ writes probed fs) (hp : p ∈ probed) :
    Within fs₀ writes probed ((canWriteToFile p).run fs).2 := by
  have hmoved : ∀ q, fs.SameFile q (probeFile fs p) → fs₀.SameFile q (probeFile fs₀ p) := by
    intro q hq
    rw [← probeFile_steady h.steady]
    exact (h.steady.sameFile_iff q _).mp hq
  refine ⟨h.steady.trans (canWriteToFile_steady p fs), fun q hq => ?_, fun q hq he => ?_⟩
  · rcases lookup_probed p q fs with hsame | ⟨hfile, hleft⟩
    · rw [hsame]
      exact h.lookup q hq
    · exact Or.inr ⟨p, hp, hmoved q hfile, by rw [hleft, leftover_steady h.steady]⟩
  · rcases lookup_probed p q fs with hsame | ⟨hfile, _⟩
    · simp only [fileExists, hsame]
      exact h.present q hq he
    · exact (hq p hp (hmoved q hfile)).elim

/-- Where no file is lost, a probe of a file that was there only opens it. -/
theorem probe_present (h : Within fs₀ writes [] fs) (hp : fileExists fs₀ p = true) :
    Within fs₀ writes [] ((canWriteToFile p).run fs).2 := by
  have hthere : fileExists fs p = true := h.present p (by simp) hp
  have hsame : ((canWriteToFile p).run fs).2 = fs := by
    rw [canWriteToFile_run, hthere]
    cases isValidPath p <;> rfl
  rw [hsame]
  exact h

end Within

/-- The probe of the file is among those listed, or none is and the file is there. -/
def Accounted (fs₀ : FileSystem) (probed : List Path) (p : Path) : Prop :=
  p ∈ probed ∨ probed = [] ∧ fileExists fs₀ p = true

section Steps
variable {α β : Type} {fs₀ : FileSystem} {writes probed : List Path} {I : FileSystem → Prop}

/-- The same, and one of the written files can be opened. -/
structure WithinOpen (fs₀ : FileSystem) (writes probed : List Path) (p : Path) (l : Location)
    (fs : FileSystem) : Prop extends Within fs₀ writes probed fs where
  opens : fs.openForWriting p = some l

/-- The step keeps to the listed files, however it ends. -/
abbrev KeepsTo (fs₀ : FileSystem) (writes probed : List Path) (m : Step L α) : Prop :=
  Action.Keeps (fun s => Within fs₀ writes probed s.files) m

theorem KeepsFiles.keeps {m : Step L α} (h : KeepsFiles m) :
    Action.Keeps (fun s => I s.files) m := by
  intro s hs
  rw [h.files_eq s]
  exact hs

theorem keeps_onFiles {m : Action FileSystem Exception α} (h : Action.Keeps I m) :
    Action.Keeps (fun s => I s.files) (Prover.onFiles m : Step L α) := by
  intro s hs
  obtain ⟨p, fs⟩ := s
  rw [Prover.run_onFiles]
  exact h fs hs

theorem keepsTo_encodeMarshallingToFile {M : Type} (hp : p ∈ writes)
    (codec : Codec Exception M) (m : M) (hex : Bool) :
    KeepsTo fs₀ writes probed
      (Prover.onFiles (encodeMarshallingToFile d codec p m hex) : Step L Bool) := by
  apply keeps_onFiles
  intro fs hfs
  rw [encodeMarshallingToFile_run]
  cases codec.encoding m with
  | none => exact hfs
  | some v => exact hfs.written hp d _

theorem keepsTo_saveObject {M : Type} (hp : p ∈ writes) (codec : Codec Exception M) (m : Member)
    (get : Prover L → Option α) (fill : α → Except Exception M) :
    KeepsTo fs₀ writes probed
      (Prover.saveObject d codec (Prover.deref m get) fill p) := by
  apply Action.keeps_bind (keepsFiles_deref _ _).keeps
  intro x
  apply Action.keeps_bind (keepsFiles_external _).keeps
  intro marshalled
  exact keepsTo_encodeMarshallingToFile hp _ _ _

theorem keepsTo_acceptProof (hp : Accounted fs₀ probed p) (skip : Bool) :
    KeepsTo fs₀ writes probed (Prover.acceptProof p skip : Step L (Option L.Proof)) := by
  intro s hs
  rw [acceptProof_files]
  rcases hp with hmem | ⟨rfl, hthere⟩
  · exact Within.probe hs hmem
  · exact Within.probe_present hs hthere

/-- Opening a file, and going on with the file open. -/
theorem keepsTo_openOutputFile (hp : p ∈ writes) {f : Option Location → Step L β}
    (hnone : KeepsTo fs₀ writes probed (f none))
    (hsome : ∀ l, Action.Keeps (fun s => WithinOpen fs₀ writes probed p l s.files)
      (f (some l))) :
    KeepsTo fs₀ writes probed (Prover.onFiles (openOutputFile p) >>= f) := by
  intro s hs
  obtain ⟨q, fs⟩ := s
  rw [Action.run_bind, Prover.run_onFiles, openOutputFile_run]
  cases ho : fs.openForWriting p with
  | none => exact hnone _ hs
  | some l =>
    obtain ⟨hl, ha⟩ := openForWriting_eq_some_iff.mp ho
    have hsteady := store_steady ha []
    have hstored : Within fs₀ writes probed (fs.store l []) :=
      Within.unseen hs hsteady hp
        (fun q hq => lookup_store_of_ne ha (fun hql => hq ⟨l, hql, hl⟩) [])
        fun q he => fileExists_store ha [] he
    have hopen : WithinOpen fs₀ writes probed p l (fs.store l []) :=
      ⟨hstored, by rw [hsteady.openForWriting_eq, ho]⟩
    exact (hsome l ⟨q, fs.store l []⟩ hopen).toWithin

theorem keepsTo_publishProof {proofFile jsonFile : Path} (hproof : proofFile ∈ writes)
    (hjson : jsonFile ∈ writes) (proof : L.Proof) :
    KeepsTo fs₀ writes probed (Prover.publishProof d proofFile jsonFile proof) := by
  apply Action.keeps_bind (keepsFiles_deref _ _).keeps
  intro scheme
  apply Action.keeps_bind (keepsFiles_external _).keeps
  intro filled
  apply Action.keeps_bind (keepsTo_encodeMarshallingToFile hproof _ _ _)
  intro res
  apply keepsTo_openOutputFile hjson (keepsFiles_pure res).keeps
  intro l
  apply Action.keeps_bind (keepsFiles_deref _ _).keeps
  intro description
  apply Action.keeps_bind (keepsFiles_deref _ _).keeps
  intro inputs
  apply Action.keeps_bind (keepsFiles_deref _ _).keeps
  intro cs
  apply Action.keeps_bind (keepsFiles_external _).keeps
  intro text
  refine Action.keeps_bind (keeps_onFiles ?_) fun _ => (keepsFiles_pure res).keeps
  intro fs hfs
  obtain ⟨hwithin, ho⟩ := hfs
  obtain ⟨hl, ha⟩ := openForWriting_eq_some_iff.mp ho
  have hsteady := delivered_steady ha d jsonFile text
  refine ⟨Within.unseen hwithin hsteady hjson (fun q hq => ?_) (fun q he => ?_), ?_⟩
  · exact lookup_delivered_of_ne (fun hql => hq ⟨l, hql, hl⟩) ha
  · exact fileExists_delivered ha d jsonFile text he
  · exact hsteady.openForWriting_eq jsonFile ▸ ho

theorem keepsTo_generateToFile {proofFile jsonFile : Path}
    (hprobed : Accounted fs₀ probed proofFile) (hproof : proofFile ∈ writes)
    (hjson : jsonFile ∈ writes) (skip : Bool) :
    KeepsTo fs₀ writes probed
      (Prover.generateToFile d proofFile jsonFile skip : Step L Bool) := by
  apply Action.keeps_bind (keepsTo_acceptProof hprobed skip)
  intro proof
  cases proof with
  | none => exact (keepsFiles_pure false).keeps
  | some proof => exact keepsTo_publishProof hproof hjson proof

theorem keepsTo_generateAggregatedChallengeToFile (hp : p ∈ writes) (files : List Path) :
    KeepsTo fs₀ writes probed
      (Prover.generateAggregatedChallengeToFile d files p : Step L Bool) := by
  apply Action.keeps_ite (keepsFiles_pure false).keeps
  apply Action.keeps_bind (keepsFiles_reads _).keeps
  intro readable
  apply Action.keeps_ite (keepsFiles_pure false).keeps
  apply Action.keeps_bind (keepsFiles_reads _).keeps
  intro transcript
  cases transcript with
  | none => exact (keepsFiles_pure false).keeps
  | some transcript => exact keepsTo_encodeMarshallingToFile hp _ _ _

end Steps

theorem keepsTo_stageSteps (stage : ProverStage) {writes probed : List Path} {fs₀ : FileSystem}
    (hwrites : ∀ q ∈ stageOutputs o stage, q ∈ writes)
    (hprobed : ∀ q ∈ stageProbes o stage, Accounted fs₀ probed q) :
    ∀ m ∈ stageSteps L d o stage, KeepsTo fs₀ writes probed m := by
  intro m hm
  cases stage with
  | all =>
    simp only [stageOutputs, stageProbes, List.forall_mem_cons, List.not_mem_nil]
      at hwrites hprobed
    obtain ⟨hproof, hjson, hcommon, hdata, hscheme, _⟩ := hwrites
    simp only [stageSteps, List.mem_cons, List.not_mem_nil, or_false] at hm
    rcases hm with rfl | rfl | rfl | rfl | rfl | rfl | rfl | rfl
    · exact (keepsFiles_readMember _ _ _ _).keeps
    · exact (keepsFiles_readMember _ _ _ _).keeps
    · exact keepsFiles_preprocessPublicData.keeps
    · exact keepsFiles_preprocessPrivateData.keeps
    · exact keepsTo_generateToFile hprobed.1 hproof hjson false
    · exact keepsTo_saveObject hcommon _ _ _ _
    · exact keepsTo_saveObject hdata _ _ _ _
    · exact keepsTo_saveObject hscheme _ _ _ _
  | preprocess =>
    simp only [stageOutputs, List.forall_mem_cons, List.not_mem_nil] at hwrites
    obtain ⟨hdescription, hcommon, hdata, hscheme, _⟩ := hwrites
    simp only [stageSteps, List.mem_cons, List.not_mem_nil, or_false] at hm
    rcases hm with rfl | rfl | rfl | rfl | rfl | rfl | rfl
    · exact (keepsFiles_readMember _ _ _ _).keeps
    · exact (keepsFiles_readMember _ _ _ _).keeps
    · exact keepsTo_saveObject hdescription _ _ _ _
    · exact keepsFiles_preprocessPublicData.keeps
    · exact keepsTo_saveObject hcommon _ _ _ _
    · exact keepsTo_saveObject hdata _ _ _ _
    · exact keepsTo_saveObject hscheme _ _ _ _
  | prove =>
    simp only [stageOutputs, stageProbes, List.forall_mem_cons, List.not_mem_nil]
      at hwrites hprobed
    rw [stageSteps_prove] at hm
    rcases List.mem_append.mp hm with hm | hm
    · exact (keepsFiles_resumption L o m hm).keeps
    · rw [List.mem_singleton.mp hm]
      exact keepsTo_generateToFile hprobed.1 hwrites.1 hwrites.2.1 true
  | verify =>
    simp only [stageSteps, List.mem_cons, List.not_mem_nil, or_false] at hm
    rcases hm with rfl | rfl | rfl | rfl
    · exact (keepsFiles_readMember _ _ _ _).keeps
    · exact (keepsFiles_readMember _ _ _ _).keeps
    · exact (keepsFiles_readMember _ _ _ _).keeps
    · exact (keepsFiles_verifyFromFile _).keeps
  | generateAggregatedChallenge =>
    simp only [stageSteps, List.mem_singleton] at hm
    rw [hm]
    exact keepsTo_generateAggregatedChallengeToFile (hwrites _ (List.mem_singleton_self _)) _

theorem runProver_within_of {probed : List Path} (L : Crypto3) (d : Disk)
    (hprobed : ∀ q ∈ probes o, Accounted fs probed q) :
    Within fs (outputs o) probed (runProver L d o fs).2 := by
  by_cases hstage : ∃ stage, (o.stage, stage) ∈ stageMap
  swap
  · rw [runProver_of_no_stage fun stage hs => hstage ⟨stage, hs⟩]
    exact .refl fs _ _
  obtain ⟨stage, hstage⟩ := hstage
  rw [runProver_of_stage hstage]
  refine Action.keeps_allOf (keepsTo_stageSteps stage ?_ ?_) (initialSession L o fs)
    (.refl fs _ _)
  · rw [outputs_of_stage hstage]
    exact fun q hq => hq
  · rw [← probes_of_stage hstage]
    exact hprobed

theorem runProver_within (L : Crypto3) (d : Disk) (o : ProverOptions) (fs : FileSystem) :
    Within fs (outputs o) (probes o) (runProver L d o fs).2 :=
  runProver_within_of L d fun _ hq => Or.inl hq

/-- A run changes the files it writes and the temporary file of its probe, which it removes or,
in a directory that does not let go of it, leaves empty. It removes no other file. -/
theorem runProver_frame (L : Crypto3) (d : Disk) (o : ProverOptions) (fs : FileSystem) :
    Steady fs (runProver L d o fs).2 ∧
      (∀ q, (∀ p ∈ outputs o, ¬ fs.SameFile q p) →
        (runProver L d o fs).2.lookup q = fs.lookup q ∨
          ∃ p ∈ probes o, fs.SameFile q (probeFile fs p) ∧
            (runProver L d o fs).2.lookup q = leftover fs p) ∧
      ∀ q, (∀ p ∈ probes o, ¬ fs.SameFile q (probeFile fs p)) → fileExists fs q = true →
        fileExists (runProver L d o fs).2 q = true :=
  have h := runProver_within L d o fs
  ⟨h.steady, h.lookup, h.present⟩

/-- Every path a run may change. -/
def touched (fs : FileSystem) (o : ProverOptions) : List Path :=
  outputs o ++ (probes o).map (probeFile fs)

/-- Every path a run reads or asks for. -/
def looked (o : ProverOptions) : List Path := inputs o ++ probes o

/-- A run may change what the path leads to. -/
def Touches (fs : FileSystem) (o : ProverOptions) (q : Path) : Prop :=
  ∃ p ∈ touched fs o, fs.SameFile q p

instance (fs : FileSystem) (o : ProverOptions) (q : Path) : Decidable (Touches fs o q) :=
  inferInstanceAs (Decidable (∃ p ∈ touched fs o, fs.SameFile q p))

/-- A run of the first options changes nothing that a run of the second looks at. -/
def ClearOf (fs : FileSystem) (o o' : ProverOptions) : Prop := ∀ q ∈ looked o', ¬ Touches fs o q

instance (fs : FileSystem) (o o' : ProverOptions) : Decidable (ClearOf fs o o') :=
  inferInstanceAs (Decidable (∀ q ∈ looked o', ¬ Touches fs o q))

/-- Neither run changes what the other looks at or writes. -/
structure Independent (fs : FileSystem) (o o' : ProverOptions) : Prop where
  clear : ClearOf fs o o'
  clear' : ClearOf fs o' o
  written : ∀ p ∈ outputs o, ¬ Touches fs o' p
  written' : ∀ p ∈ outputs o', ¬ Touches fs o p

section Pairs
variable {L' : Crypto3} {o' : ProverOptions}

theorem touches_steady (h : Steady fs fs₁) : Touches fs₁ o q ↔ Touches fs o q := by
  have htouched : touched fs₁ o = touched fs o := by
    rw [touched, touched]
    congr 1
    exact List.map_congr_left fun p _ => probeFile_steady h p
  unfold Touches
  rw [htouched]
  exact exists_congr fun p => and_congr_right fun _ => h.sameFile_iff q p

theorem ClearOf.steady (h : ClearOf fs o o') (hs : Steady fs fs₁) : ClearOf fs₁ o o' :=
  fun q hq ht => h q hq ((touches_steady hs).mp ht)

theorem Independent.symm (h : Independent fs o o') : Independent fs o' o :=
  ⟨h.clear', h.clear, h.written', h.written⟩

theorem Independent.steady (h : Independent fs o o') (hs : Steady fs fs₁) :
    Independent fs₁ o o' :=
  ⟨h.clear.steady hs, h.clear'.steady hs,
    fun p hp ht => h.written p hp ((touches_steady hs).mp ht),
    fun p hp ht => h.written' p hp ((touches_steady hs).mp ht)⟩

theorem runProver_steady (L : Crypto3) (d : Disk) (o : ProverOptions) (fs : FileSystem) :
    Steady fs (runProver L d o fs).2 := (runProver_within L d o fs).steady

theorem lookup_untouched (L : Crypto3) (d : Disk) (hq : ¬ Touches fs o q) :
    (runProver L d o fs).2.lookup q = fs.lookup q := by
  have hwritten : ∀ p ∈ outputs o, ¬ fs.SameFile q p :=
    fun p hp hsame => hq ⟨p, List.mem_append_left _ hp, hsame⟩
  rcases (runProver_within L d o fs).lookup q hwritten with hsame | ⟨p, hp, hfile, _⟩
  · exact hsame
  · exact (hq ⟨_, List.mem_append_right _ (List.mem_map_of_mem hp), hfile⟩).elim

/-- A run that changes nothing another looks at leaves that one the same view. -/
theorem ClearOf.seesSame (h : ClearOf fs o o') (L : Crypto3) (d : Disk) :
    SeesSame o' fs (runProver L d o fs).2 := by
  have hlookup : ∀ q ∈ looked o', (runProver L d o fs).2.lookup q = fs.lookup q :=
    fun q hq => lookup_untouched L d (h q hq)
  refine .of_steady (runProver_steady L d o fs) ?_ ?_
  · exact fun q hq => hlookup q (List.mem_append_left _ hq)
  · intro q hq
    simp only [fileExists, hlookup q (List.mem_append_right _ hq)]

theorem sameFile_of_common {p p' : Path} (h : fs.SameFile q p) (h' : fs.SameFile q p') :
    fs.SameFile p p' := by
  obtain ⟨l, hq, hp⟩ := h
  obtain ⟨k, hq', hp'⟩ := h'
  exact ⟨l, hp, by rw [hp', ← hq', hq]⟩

theorem leftover_congr {p p' : Path} (h : fs.SameFile q (probeFile fs p))
    (h' : fs.SameFile q (probeFile fs p')) : leftover fs p' = leftover fs p := by
  obtain ⟨l, hp, hp'⟩ := sameFile_of_common h h'
  simp only [leftover, openForWriting, hp', hp]

/-- A path that both runs change is the temporary file of both. -/
theorem Independent.shared (h : Independent fs o o') (ht : Touches fs o q)
    (ht' : Touches fs o' q) : ∃ a ∈ probes o, fs.SameFile q (probeFile fs a) := by
  obtain ⟨p, hp, hq⟩ := ht
  obtain ⟨p', hp', hq'⟩ := ht'
  rcases List.mem_append.mp hp with hout | hprobe
  · exact (h.written p hout ⟨p', hp', sameFile_of_common hq hq'⟩).elim
  · obtain ⟨a, ha, rfl⟩ := List.mem_map.mp hprobe
    exact ⟨a, ha, hq⟩

/-- What a run may do to a path that both change. -/
theorem Independent.lookup_shared (h : Independent fs o o') (L : Crypto3) (d : Disk) {a : Path}
    (ht' : Touches fs o' q) (hfile : fs.SameFile q (probeFile fs a)) :
    (runProver L d o fs).2.lookup q = fs.lookup q ∨
      (runProver L d o fs).2.lookup q = leftover fs a := by
  have hout : ∀ p ∈ outputs o, ¬ fs.SameFile q p := by
    intro p hp hsame
    obtain ⟨p', hp', hq'⟩ := ht'
    exact h.written p hp ⟨p', hp', sameFile_of_common hsame hq'⟩
  rcases (runProver_within L d o fs).lookup q hout with hsame | ⟨p, _, hfile', hleft⟩
  · exact Or.inl hsame
  · exact Or.inr (hleft.trans (leftover_congr hfile hfile'))

/-- Where each run does after the other what it does alone, the two do the same. -/
theorem Independent.lookup_agree (h : Independent fs o o') (L L' : Crypto3) (d : Disk)
    (hlast : (runProver L d o (runProver L' d o' fs).2).2.lookup q =
      (runProver L d o fs).2.lookup q)
    (hlast' : (runProver L' d o' (runProver L d o fs).2).2.lookup q =
      (runProver L' d o' fs).2.lookup q) :
    (runProver L d o fs).2.lookup q = (runProver L' d o' fs).2.lookup q := by
  have hs := runProver_steady L d o fs
  have hs' := runProver_steady L' d o' fs
  by_cases ht : Touches fs o q
  swap
  · rw [← hlast]
    exact lookup_untouched L d fun hafter => ht ((touches_steady hs').mp hafter)
  by_cases ht' : Touches fs o' q
  swap
  · rw [← hlast']
    exact (lookup_untouched L' d fun hafter => ht' ((touches_steady hs).mp hafter)).symm
  obtain ⟨a, _, ha⟩ := h.shared ht ht'
  obtain ⟨b, _, hb⟩ := h.symm.shared ht' ht
  have hfile : (runProver L' d o' fs).2.SameFile q (probeFile (runProver L' d o' fs).2 a) := by
    rw [probeFile_steady hs']
    exact (hs'.sameFile_iff _ _).mpr ha
  have hfile' : (runProver L d o fs).2.SameFile q (probeFile (runProver L d o fs).2 b) := by
    rw [probeFile_steady hs]
    exact (hs.sameFile_iff _ _).mpr hb
  have hone := (h.steady hs').lookup_shared L d ((touches_steady hs').mpr ht') hfile
  have hother := (h.symm.steady hs).lookup_shared L' d ((touches_steady hs).mpr ht) hfile'
  rw [leftover_steady hs', hlast] at hone
  rw [leftover_steady hs, hlast', leftover_congr ha hb] at hother
  rcases hone with hone | hone
  · exact hone
  · rcases hother with hother | hother
    · exact hother.symm
    · rw [hone, hother]

/-- Independent runs have the outcomes they have alone, and their order cannot be told from what
they leave. -/
theorem runProver_commute (d : Disk) (L L' : Crypto3) (h : Independent fs o o') :
    (runProver L' d o' (runProver L d o fs).2).1 = (runProver L' d o' fs).1 ∧
      (runProver L d o (runProver L' d o' fs).2).1 = (runProver L d o fs).1 ∧
      Alike (runProver L' d o' (runProver L d o fs).2).2
        (runProver L d o (runProver L' d o' fs).2).2 := by
  obtain ⟨hanswer', hfiles'⟩ := runProver_footprint L' d o' _ _ (h.clear.seesSame L d)
  obtain ⟨hanswer, hfiles⟩ := runProver_footprint L d o _ _ (h.clear'.seesSame L' d)
  have hs := runProver_steady L d o fs
  have hs' := runProver_steady L' d o' fs
  refine ⟨hanswer', hanswer, ?_, fun q => ?_⟩
  · exact (hs.trans (runProver_steady L' d o' _)).symm.trans
      (hs'.trans (runProver_steady L d o _))
  rcases hfiles'.lookup q with hlast' | ⟨halone', hkept'⟩
  · rcases hfiles.lookup q with hlast | ⟨halone, hkept⟩
    · rw [hlast, hlast', h.lookup_agree L L' d hlast hlast']
    · rw [hkept, hlast']
  · rcases hfiles.lookup q with hlast | ⟨halone, hkept⟩
    · rw [hlast, hkept']
    · rw [hkept, hkept', halone, halone']

end Pairs

/-- One run of the program, with the library of its curve and its hash. -/
structure Job where
  library : Crypto3
  options : ProverOptions

def Job.run (d : Disk) (j : Job) (fs : FileSystem) : Outcome × FileSystem :=
  runProver j.library d j.options fs

section Jobs
open Schedules
variable {jobs jobs' : List Job}

theorem job_kept (d : Disk) (fs : FileSystem) : Schedules.Kept (Job.run d) (Steady fs) :=
  fun j _ hs => hs.trans (runProver_steady j.library d j.options _)

theorem job_congr (d : Disk) (j : Job) {a b : FileSystem} (h : Alike a b) :
    (j.run d b).1 = (j.run d a).1 ∧ Alike (j.run d a).2 (j.run d b).2 := by
  have hsees : SeesSame j.options a b := by
    refine .of_steady h.steady (fun q _ => h.lookup q) fun q _ => ?_
    simp only [fileExists, h.lookup q]
  obtain ⟨hanswer, hfiles⟩ := runProver_footprint j.library d j.options a b hsees
  exact ⟨hanswer, hfiles.alike h⟩

theorem job_spares {j k : Job} (h : ClearOf fs j.options k.options) (d : Disk) :
    Schedules.Spares (Job.run d) (Steady fs) j k := by
  intro s hs
  exact (runProver_footprint k.library d k.options _ _
    ((h.steady hs).seesSame j.library d)).1

theorem job_commute {j k : Job} (h : Independent fs j.options k.options) (d : Disk) :
    Schedules.Commute (Job.run d) (Steady fs) Alike j k := by
  intro s hs
  exact (runProver_commute d j.library k.library (h.steady hs)).2.2

/-- Independent runs can be made in any order: each has the outcome it has alone, and what they
leave together cannot be told apart. -/
theorem runs_in_any_order (d : Disk) (fs : FileSystem)
    (h : jobs.Pairwise fun j k => Independent fs j.options k.options)
    (hperm : jobs.Perm jobs') :
    answers (Job.run d) jobs' fs = jobs'.map (fun j => (j.run d fs).1) ∧
      Alike (after (Job.run d) jobs fs) (after (Job.run d) jobs' fs) := by
  have hpairs : jobs'.Pairwise fun j k => Independent fs j.options k.options :=
    (hperm.pairwise_iff fun h => h.symm).mp h
  constructor
  · exact answers_eq_map (job_kept d fs) (hpairs.imp fun h => job_spares h.clear d) (.refl fs)
  · refine after_perm (job_kept d fs) (fun j a b hab => (job_congr d j hab).2) ?_
      (h.imp fun h => job_commute h d) hperm (.refl fs)
    exact ⟨Alike.refl, Alike.symm, Alike.trans⟩

/-- Two runs of stage `all` on the same inputs. -/
def smallJobs : List Job :=
  [⟨.small, smallOptions "all"⟩,
    ⟨.small,
      { smallOptions "all" with
        proofFilePath := ['q']
        jsonFilePath := ['k']
        preprocessedCommonDataPath := ['n']
        preprocessedPublicDataPath := ['x']
        commitmentSchemeStatePath := ['y'] }⟩]

theorem runs_in_any_order_small :
    answers (Job.run .reliable) smallJobs.reverse smallFiles =
        smallJobs.reverse.map (fun j => (j.run .reliable smallFiles).1) ∧
      Alike (after (Job.run .reliable) smallJobs smallFiles)
        (after (Job.run .reliable) smallJobs.reverse smallFiles) := by
  refine runs_in_any_order .reliable smallFiles ?_ (List.reverse_perm smallJobs).symm
  refine List.pairwise_pair.mpr ⟨?_, ?_, ?_, ?_⟩
  · decide +kernel
  · decide +kernel
  · decide +kernel
  · decide +kernel

theorem seesSame_after (d : Disk) (h : ∀ j ∈ jobs, ClearOf fs j.options o) :
    SeesSame o fs (after (Job.run d) jobs fs) := by
  induction jobs generalizing fs with
  | nil => exact .refl o fs
  | cons j js ih =>
    have hfirst := (h j List.mem_cons_self).seesSame j.library d
    refine hfirst.trans (ih fun k hk => ?_)
    exact (h k (List.mem_cons_of_mem j hk)).steady (runProver_steady j.library d j.options fs)

/-- Whatever runs have been made since, in whatever stages and with whatever outcomes: a run that
looks at nothing they changed does what it would have done at once. -/
theorem run_after_history (L : Crypto3) (d : Disk) (o : ProverOptions) (fs : FileSystem)
    (jobs : List Job) (h : ∀ j ∈ jobs, ClearOf fs j.options o) :
    (runProver L d o (after (Job.run d) jobs fs)).1 = (runProver L d o fs).1 ∧
      Alongside fs (after (Job.run d) jobs fs) (runProver L d o fs).2
        (runProver L d o (after (Job.run d) jobs fs)).2 :=
  runProver_footprint L d o _ _ (seesSame_after d h)

/-- Stage `verify` after the second of the two runs. -/
theorem run_after_history_small :
    (runProver .small .reliable (smallOptions "verify")
        (after (Job.run .reliable) smallJobs.tail (filesAfter "all" smallFiles))).1 =
        (runProver .small .reliable (smallOptions "verify") (filesAfter "all" smallFiles)).1 ∧
      Alongside (filesAfter "all" smallFiles)
        (after (Job.run .reliable) smallJobs.tail (filesAfter "all" smallFiles))
        (runProver .small .reliable (smallOptions "verify") (filesAfter "all" smallFiles)).2
        (runProver .small .reliable (smallOptions "verify")
          (after (Job.run .reliable) smallJobs.tail (filesAfter "all" smallFiles))).2 := by
  refine run_after_history .small .reliable (smallOptions "verify") (filesAfter "all" smallFiles)
    smallJobs.tail fun j hj => ?_
  rw [List.mem_singleton.mp hj]
  decide +kernel

end Jobs

/-- A run that does not write its own inputs can be repeated: the second time it has the same
outcome and changes nothing. The proof file, if the stage asks for one, has to be there. -/
theorem runProver_again (L : Crypto3) (d : Disk) (o : ProverOptions) (fs : FileSystem)
    (hinputs : ∀ q ∈ inputs o, ∀ p ∈ outputs o, ¬ fs.SameFile q p)
    (hprobes : ∀ q ∈ probes o, fileExists fs q = true) :
    (runProver L d o (runProver L d o fs).2).1 = (runProver L d o fs).1 ∧
      Alike (runProver L d o fs).2 (runProver L d o (runProver L d o fs).2).2 := by
  have hwithin : Within fs (outputs o) [] (runProver L d o fs).2 :=
    runProver_within_of L d fun q hq => Or.inr ⟨rfl, hprobes q hq⟩
  have hsees : SeesSame o fs (runProver L d o fs).2 := by
    refine .of_steady hwithin.steady (fun q hq => ?_) fun q hq => ?_
    · rcases hwithin.lookup q (hinputs q hq) with hsame | ⟨p, hp, _⟩
      · exact hsame
      · simp at hp
    · rw [hprobes q hq, hwithin.present q (by simp) (hprobes q hq)]
  obtain ⟨hanswer, hfiles⟩ := runProver_footprint L d o _ _ hsees
  refine ⟨hanswer, runProver_steady L d o _, fun q => ?_⟩
  rcases hfiles.lookup q with hsame | ⟨_, hkept⟩
  · exact hsame
  · exact hkept

theorem runProver_again_small :
    (runProver .small .reliable (smallOptions "all")
        (runProver .small .reliable (smallOptions "all") (filesAfter "all" smallFiles)).2).1 =
        (runProver .small .reliable (smallOptions "all") (filesAfter "all" smallFiles)).1 ∧
      Alike (runProver .small .reliable (smallOptions "all") (filesAfter "all" smallFiles)).2
        (runProver .small .reliable (smallOptions "all")
          (runProver .small .reliable (smallOptions "all") (filesAfter "all" smallFiles)).2).2 :=
  runProver_again .small .reliable (smallOptions "all") (filesAfter "all" smallFiles)
    (by decide +kernel) (by decide +kernel)

end ProofProducer
