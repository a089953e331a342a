import ProofProducer.Shared.Alongside
import ProofProducer.Shared.Relational
import ProofProducer.Publication
import ProofProducer.ProbePrediction

/-!
# What a run looks at

A run reads its input files, asks whether the proof file exists and opens its outputs. From two
file systems with the same directories that agree on what it meets there, it answers the same and
does the same to every path, however it ends.
-/

namespace ProofProducer

open Effects Files Files.FileSystem Codecs Relational

set_option autoImplicit false

variable {L : Crypto3} {d : Disk} {o : ProverOptions} {a₀ b₀ a b fs fs₁ fs₂ : FileSystem}
  {p : Path}

/-- The files a stage reads. -/
def stageInputs (o : ProverOptions) : ProverStage → List Path
  | .all => [o.circuitFilePath, o.assignmentTableFilePath]
  | .preprocess => [o.circuitFilePath, o.assignmentTableFilePath]
  | .prove => [o.circuitFilePath, o.assignmentTableFilePath, o.preprocessedPublicDataPath,
      o.commitmentSchemeStatePath]
  | .verify => [o.circuitFilePath, o.preprocessedCommonDataPath, o.assignmentDescriptionFilePath,
      o.proofFilePath]
  | .generateAggregatedChallenge => o.inputChallengeFiles

/-- The files whose existence a stage asks for. -/
def stageProbes (o : ProverOptions) : ProverStage → List Path
  | .all => [o.proofFilePath]
  | .prove => [o.proofFilePath]
  | _ => []

def inputs (o : ProverOptions) : List Path :=
  match proverStageFromString o.stage with
  | .ok stage => stageInputs o stage
  | .error _ => []

def probes (o : ProverOptions) : List Path :=
  match proverStageFromString o.stage with
  | .ok stage => stageProbes o stage
  | .error _ => []

/-- The run cannot tell the file systems apart by what it looks at: where the directories are,
what its inputs hold, whether the file it probes exists, and which of the files it writes can be
opened. The temporary file of the probe is written only if the probed file is missing. -/
structure SeesSame (o : ProverOptions) (a b : FileSystem) : Prop where
  directories : SameDirectories a b
  inputs : ∀ q ∈ inputs o, b.lookup q = a.lookup q
  outputs : ∀ q ∈ outputs o, (b.openForWriting q).isSome = (a.openForWriting q).isSome
  temporary : ∀ q ∈ probes o, fileExists a q = false →
    (b.openForWriting (probeFile a q)).isSome = (a.openForWriting (probeFile a q)).isSome
  probes : ∀ q ∈ probes o, fileExists b q = fileExists a q

namespace SeesSame

theorem of_steady (h : Steady a b) (hinputs : ∀ q ∈ ProofProducer.inputs o, b.lookup q = a.lookup q)
    (hprobes : ∀ q ∈ ProofProducer.probes o, fileExists b q = fileExists a q) : SeesSame o a b where
  directories := h.sameDirectories
  inputs := hinputs
  probes := hprobes
  outputs q _ := by rw [h.openForWriting_eq]
  temporary q _ _ := by rw [h.openForWriting_eq]

theorem refl (o : ProverOptions) (fs : FileSystem) : SeesSame o fs fs :=
  of_steady (.refl fs) (fun _ _ => rfl) fun _ _ => rfl

theorem trans {c : FileSystem} (hab : SeesSame o a b) (hbc : SeesSame o b c) : SeesSame o a c where
  directories := hab.directories.trans hbc.directories
  inputs q hq := (hbc.inputs q hq).trans (hab.inputs q hq)
  probes q hq := (hbc.probes q hq).trans (hab.probes q hq)
  outputs q hq := (hbc.outputs q hq).trans (hab.outputs q hq)
  temporary q hq hmissing := by
    have hmissing' : fileExists b q = false := (hab.probes q hq).trans hmissing
    have hlast := hbc.temporary q hq hmissing'
    rw [probeFile_congr hab.directories] at hlast
    exact hlast.trans (hab.temporary q hq hmissing)

end SeesSame

/-- The probe's file is in the directory that its path is put together from. -/
theorem fileLocation_appendPath {dir : Path} (hne : dir ≠ []) {name : List Char}
    (hname : Proper name) :
    fs.fileLocation (appendPath dir name) =
      (fs.descend (fs.origin dir) (components dir)).map (· ++ [name]) := by
  have hhead : name.head? ≠ some '/' := fun h => hname.noSlash (List.mem_of_mem_head? h)
  have hjoin : ∃ body, appendPath dir name = body ++ '/' :: name ∧
      components body = components dir := by
    by_cases hlast : dir.getLast? = some '/'
    · obtain ⟨body, last, rfl⟩ := (List.eq_nil_or_concat dir).resolve_left hne
      have hslash : last = '/' := by simpa using hlast
      subst hslash
      rw [List.concat_eq_append] at hlast ⊢
      refine ⟨body, ?_, (components_concat_slash body).symm⟩
      simp [appendPath, hname.nonempty]
    · refine ⟨dir, ?_, rfl⟩
      simp [appendPath, hname.nonempty, hne, hhead, hlast]
  obtain ⟨body, hjoin, hbody⟩ := hjoin
  have hprefix : (appendPath dir name).head? = dir.head? := by
    cases dir with
    | nil => exact (hne rfl).elim
    | cons c rest =>
      simp only [appendPath, hname.nonempty, if_false]
      split <;> rfl
  have hcomponents : components (appendPath dir name) = components dir ++ [name] := by
    rw [hjoin, components_last_slash _ hname.noSlash, hbody, if_neg hname.nonempty]
  have hlast : (appendPath dir name).getLast? ≠ some '/' := by
    rw [hjoin]
    exact fun h => hname.nonempty ((getLast?_last_slash _ hname.noSlash).mp h)
  have hnil : appendPath dir name ≠ [] := by
    rw [hjoin]
    simp
  rw [fileLocation_of_components hnil hcomponents hname.notDot hname.notDotDot hlast, origin,
    hprefix, origin]

/-- Where the probe's file can be opened, the directory is there. -/
theorem parent_exists_of_opens {l : Location} (hparent : parentPath (absolute fs p) ≠ [])
    (ho : fs.openForWriting (probeFile fs p) = some l) :
    fileExists fs (parentPath (absolute fs p)) = true := by
  have hl := (openForWriting_eq_some_iff.mp ho).1
  rw [probeFile, fileLocation_appendPath hparent tempFileName_proper,
    Option.map_eq_some_iff] at hl
  obtain ⟨dir, hdir, _⟩ := hl
  obtain ⟨w, hnode⟩ := node_of_isDirectory (isDirectory_of_descend hdir)
  rw [fileExists, lookup_of_descend hparent hdir, hnode]
  rfl

/-- The probe without the question whether the parent directory exists. -/
theorem canWriteToFile_run_of_missing (hv : isValidPath p = true) (he : fileExists fs p = false) :
    (canWriteToFile p).run fs =
      if parentPath (absolute fs p) = [] then (.ok false, fs)
      else
        match fs.openForWriting (probeFile fs p) with
        | none => (.ok false, fs)
        | some l =>
          if fs.directoryWritable l.dropLast then (.ok true, (fs.store l []).erase l)
          else (.error ⟨"boost::filesystem::remove"⟩, fs.store l []) := by
  rw [canWriteToFile_run, hv, he]
  simp only [Bool.true_eq_false, Bool.false_eq_true, if_false]
  by_cases hparent : parentPath (absolute fs p) = []
  · simp only [hparent, if_true]
  simp only [hparent, if_false]
  cases ho : fs.openForWriting (probeFile fs p) with
  | none => simp
  | some l => simp [parent_exists_of_opens hparent ho]

/-- The same has been done to both, and the files in `kept` that were there still are. -/
structure Together (a₀ b₀ : FileSystem) (kept : List Path) (a b : FileSystem) : Prop where
  alongside : Alongside a₀ b₀ a b
  present : ∀ q ∈ kept, fileExists a₀ q = true → fileExists a q = true

theorem Together.refl (a b : FileSystem) (kept : List Path) : Together a b kept a b :=
  ⟨.refl a b, fun _ _ h => h⟩

/-- A probe that finds the same answers the same, and leaves or removes the same file. -/
theorem uniform_canWriteToFile (h₀ : SameDirectories a₀ b₀)
    (hp : fileExists b₀ p = fileExists a₀ p)
    (hopen : b₀.openForWriting p = a₀.openForWriting p)
    (htemp : fileExists a₀ p = false →
      b₀.openForWriting (probeFile a₀ p) = a₀.openForWriting (probeFile a₀ p)) :
    Uniform (Together a₀ b₀ [p]) (canWriteToFile p) := by
  intro a b hab
  have hs := hab.alongside.sameDirectories h₀
  have hexists : fileExists b p = fileExists a p := hab.alongside.exists_eq hp
  cases hv : isValidPath p with
  | false =>
    rw [canWriteToFile_run, canWriteToFile_run, hv]
    exact ⟨rfl, hab⟩
  | true =>
    cases he : fileExists a p with
    | true =>
      rw [he] at hexists
      rw [canWriteToFile_run, canWriteToFile_run, hv, he, hexists,
        hab.alongside.openForWriting_eq hopen]
      exact ⟨rfl, hab⟩
    | false =>
      rw [he] at hexists
      have hmissing : fileExists a₀ p = false := by
        by_contra hthere
        rw [Bool.not_eq_false] at hthere
        rw [hab.present p List.mem_cons_self hthere] at he
        simp at he
      have hprobe : b.openForWriting (probeFile a p) = a.openForWriting (probeFile a p) := by
        rw [probeFile_steady hab.alongside.left]
        exact hab.alongside.openForWriting_eq (htemp hmissing)
      -- whatever happens, the probed file was not there in the first place
      have hend : ∀ {a' b'}, Alongside a₀ b₀ a' b' → Together a₀ b₀ [p] a' b' := by
        refine fun h => ⟨h, fun q hq hthere => ?_⟩
        rw [List.mem_singleton.mp hq, hmissing] at hthere
        simp at hthere
      rw [canWriteToFile_run_of_missing hv he, canWriteToFile_run_of_missing hv hexists,
        absolute_congr hs, probeFile_congr hs, hprobe]
      split
      · exact ⟨rfl, hab⟩
      cases ho : a.openForWriting (probeFile a p) with
      | none => exact ⟨rfl, hab⟩
      | some l =>
        have hla := (openForWriting_eq_some_iff.mp ho).2
        have hlb := (openForWriting_eq_some_iff.mp (hprobe.trans ho)).2
        have hstored := hab.alongside.store h₀ hla hlb []
        have hsa := store_steady hla []
        have hsb := store_steady hlb []
        dsimp only
        rw [directoryWritable_congr hs.directory]
        cases hw : a.directoryWritable l.dropLast with
        | false => exact ⟨rfl, hend hstored⟩
        | true =>
          refine ⟨rfl, hend (hstored.erase h₀ ?_ ?_ ?_)⟩
          · rw [hsa.accepts, hla]
          · rw [hsb.accepts, hlb]
          · rw [directoryWritable_congr hsa.directory, hw]

theorem fileExists_store {l : Location} (h : fs.accepts l = true) (c : Bytes)
    (hp : fileExists fs p = true) : fileExists (fs.store l c) p = true := by
  by_cases hpl : fs.fileLocation p = some l
  · simp [fileExists, lookup_store_self hpl h]
  · simp only [fileExists, lookup_store_of_ne h hpl]
    exact hp

theorem fileExists_delivered {l : Location} (h : fs.accepts l = true) (d : Disk) (q : Path)
    (v : Bytes) (hp : fileExists fs p = true) : fileExists (delivered d fs q l v) p = true := by
  unfold delivered
  dsimp only
  split
  · exact fileExists_store h _ hp
  · simp only [fileExists, lookup_record]
    exact fileExists_store h _ hp

variable {kept : List Path}

theorem Together.store {l : Location} (h : Together a₀ b₀ kept a b) (h₀ : SameDirectories a₀ b₀)
    (hla : a.accepts l = true) (hlb : b.accepts l = true) (c : Bytes) :
    Together a₀ b₀ kept (a.store l c) (b.store l c) :=
  ⟨h.alongside.store h₀ hla hlb c, fun q hq hthere =>
    fileExists_store hla c (h.present q hq hthere)⟩

theorem alongside_delivered {l : Location} (h : Alongside a₀ b₀ a b)
    (h₀ : SameDirectories a₀ b₀) (hla : a.accepts l = true) (hlb : b.accepts l = true) (d : Disk)
    (p : Path) (v : Bytes) :
    Alongside a₀ b₀ (delivered d a p l v) (delivered d b p l v) := by
  have hstored := h.store h₀ hla hlb ((OutStream.opened.write d l v).close d l)
  unfold delivered
  dsimp only
  split
  · exact hstored
  · exact hstored.record p v

theorem Together.delivered {l : Location} (h : Together a₀ b₀ kept a b)
    (h₀ : SameDirectories a₀ b₀) (hla : a.accepts l = true) (hlb : b.accepts l = true) (d : Disk)
    (p : Path) (v : Bytes) :
    Together a₀ b₀ kept (delivered d a p l v) (delivered d b p l v) :=
  ⟨alongside_delivered h.alongside h₀ hla hlb d p v, fun q hq hthere =>
    fileExists_delivered hla d p v (h.present q hq hthere)⟩

theorem uniform_encodeMarshallingToFile {M : Type} (h₀ : SameDirectories a₀ b₀)
    (codec : Codec Exception M) {path : Path}
    (hopen : b₀.openForWriting path = a₀.openForWriting path) (m : M) (hex : Bool) :
    Uniform (Together a₀ b₀ kept) (encodeMarshallingToFile d codec path m hex) := by
  intro a b hab
  have hsame := hab.alongside.openForWriting_eq hopen
  rw [encodeMarshallingToFile_run, encodeMarshallingToFile_run]
  cases codec.encoding m with
  | none => exact ⟨rfl, hab⟩
  | some v =>
    dsimp only
    cases ho : a.openForWriting path with
    | none =>
      rw [written_of_none ho, written_of_none (hsame.trans ho)]
      exact ⟨rfl, hab⟩
    | some l =>
      rw [written_of_some ho, written_of_some (hsame.trans ho)]
      have hla := (openForWriting_eq_some_iff.mp ho).2
      have hlb := (openForWriting_eq_some_iff.mp (hsame.trans ho)).2
      exact ⟨rfl, hab.delivered h₀ hla hlb d path _⟩

/-- Equal objects over file systems to which the same has been done. -/
def Paired (a₀ b₀ : FileSystem) (kept : List Path) (s t : Session L) : Prop :=
  t.prover = s.prover ∧ Together a₀ b₀ kept s.files t.files

/-- The same, with a file open for writing. -/
structure PairedOpen (a₀ b₀ : FileSystem) (kept : List Path) (l : Location) (s t : Session L) :
    Prop where
  paired : Paired a₀ b₀ kept s t
  left : s.files.accepts l = true
  right : t.files.accepts l = true

section Methods
variable {M α β : Type} {R : Session L → Session L → Prop}

theorem uniform_external (r : Except Exception α) : Uniform R (Prover.external r : Step L α) :=
  uniform_observe fun _ _ _ => rfl

theorem uniform_deref (hR : ∀ s t, R s t → t.prover = s.prover) (m : Member)
    (get : Prover L → Option α) : Uniform R (Prover.deref m get) := by
  apply uniform_observe
  intro s t hst
  rw [hR s t hst]

theorem uniform_self (hR : ∀ s t, R s t → t.prover = s.prover) :
    Uniform R (Prover.self : Step L (Prover L)) :=
  uniform_observe fun s t hst => congrArg Except.ok (hR s t hst)

theorem uniform_ofPart (part : TablePart) (moved : Bool) (x : α) :
    Uniform R (Prover.ofPart part moved x : Step L α) :=
  uniform_ite (uniform_stop _) (uniform_pure x)

theorem paired_prover (s t : Session L) (h : Paired a₀ b₀ kept s t) : t.prover = s.prover := h.1

theorem pairedOpen_prover {l : Location} (s t : Session L) (h : PairedOpen a₀ b₀ kept l s t) :
    t.prover = s.prover :=
  h.paired.1

theorem uniform_update (f : Prover L → Prover L) :
    Uniform (Paired a₀ b₀ kept) (Prover.update f : Step L Unit) := by
  apply uniform_modify
  intro s t hst
  exact ⟨congrArg f hst.1, hst.2⟩

theorem uniform_onFiles {m : Action FileSystem Exception α}
    (hm : Uniform (Together a₀ b₀ kept) m) :
    Uniform (Paired a₀ b₀ kept) (Prover.onFiles m : Step L α) :=
  uniform_focus hm (fun _ _ hst => hst.2) fun _ _ _ _ hst hab => ⟨hst.1, hab⟩

theorem uniform_reads {f : FileSystem → Except Exception α}
    (hf : ∀ a b, Alongside a₀ b₀ a b → f b = f a) :
    Uniform (Paired a₀ b₀ kept) (Prover.reads f : Step L α) := by
  apply uniform_observe
  intro s t hst
  rw [hf _ _ hst.2.alongside]

theorem uniform_decode {codec : Codec Exception M} {path : Path} {hex : Bool}
    (hpath : b₀.lookup path = a₀.lookup path) :
    Uniform (Paired a₀ b₀ kept)
      (Prover.reads fun fs => decodeMarshallingFromFile codec fs path hex : Step L (Option M)) := by
  apply uniform_reads
  intro a b hab
  simp only [decodeMarshallingFromFile, heldBytes_congr (hab.lookup_eq hpath)]

/-- Opening a file, and going on with the file open. -/
theorem uniform_openOutputFile (h₀ : SameDirectories a₀ b₀) {f : Option Location → Step L β}
    {path : Path} (hopen : b₀.openForWriting path = a₀.openForWriting path)
    (hnone : Uniform (Paired a₀ b₀ kept) (f none))
    (hsome : ∀ l, Uniform (PairedOpen a₀ b₀ kept l) (f (some l))) :
    Uniform (Paired a₀ b₀ kept) (Prover.onFiles (openOutputFile path) >>= f) := by
  intro s t hst
  obtain ⟨q, a⟩ := s
  obtain ⟨q', b⟩ := t
  obtain ⟨hq, hab⟩ := hst
  obtain rfl : q' = q := hq
  have hsame : b.openForWriting path = a.openForWriting path :=
    hab.alongside.openForWriting_eq hopen
  rw [Action.run_bind, Action.run_bind, Prover.run_onFiles, Prover.run_onFiles,
    openOutputFile_run, openOutputFile_run, hsame]
  cases ho : a.openForWriting path with
  | none => exact hnone _ _ ⟨rfl, hab⟩
  | some l =>
    have hla := (openForWriting_eq_some_iff.mp ho).2
    have hlb := (openForWriting_eq_some_iff.mp (hsame.trans ho)).2
    have hstart : PairedOpen a₀ b₀ kept l (⟨q', a.store l []⟩ : Session L) ⟨q', b.store l []⟩ :=
      ⟨⟨rfl, hab.store h₀ hla hlb []⟩, ((store_steady hla []).accepts l).trans hla,
        ((store_steady hlb []).accepts l).trans hlb⟩
    obtain ⟨hanswer, hend⟩ := hsome l _ _ hstart
    exact ⟨hanswer, hend.paired⟩

theorem uniform_writeStream (h₀ : SameDirectories a₀ b₀) (path : Path) (l : Location)
    (text : Bytes) :
    Uniform (PairedOpen a₀ b₀ kept l)
      (Prover.onFiles (writeStream d path l text) : Step L Bool) := by
  intro s t hst
  obtain ⟨⟨hprover, hab⟩, hla, hlb⟩ := hst
  refine ⟨rfl, ⟨hprover, ?_⟩, ?_, ?_⟩
  · exact hab.delivered h₀ hla hlb d path text
  · exact ((delivered_steady hla d path text).accepts l).trans hla
  · exact ((delivered_steady hlb d path text).accepts l).trans hlb

theorem uniform_readMember {codec : Codec Exception M} {make : M → Except Exception α}
    {emplace : α → Prover L → Prover L} {path : Path} (hpath : b₀.lookup path = a₀.lookup path) :
    Uniform (Paired a₀ b₀ kept) (Prover.readMember codec make emplace path) := by
  apply uniform_bind (uniform_decode hpath)
  intro m
  cases m with
  | none => exact uniform_pure false
  | some m =>
    apply uniform_bind (uniform_external _)
    intro x
    exact uniform_bind (uniform_update _) fun _ => uniform_pure true

theorem uniform_saveObject (h₀ : SameDirectories a₀ b₀) {path : Path}
    (hopen : b₀.openForWriting path = a₀.openForWriting path) (codec : Codec Exception M)
    (m : Member) (get : Prover L → Option α) (fill : α → Except Exception M) :
    Uniform (Paired a₀ b₀ kept) (Prover.saveObject d codec (Prover.deref m get) fill path) := by
  apply uniform_bind (uniform_deref paired_prover _ _)
  intro x
  apply uniform_bind (uniform_external _)
  intro marshalled
  exact uniform_onFiles (uniform_encodeMarshallingToFile h₀ _ hopen _ _)

theorem uniform_createLpcScheme :
    Uniform (Paired a₀ b₀ kept) (Prover.createLpcScheme : Step L Unit) := by
  apply uniform_bind (uniform_deref paired_prover _ _)
  intro description
  cases Prover.ceilLog2 (L.rowsAmount description) with
  | none => exact uniform_stop _
  | some n =>
    apply uniform_bind (uniform_self paired_prover)
    intro p
    apply uniform_bind (uniform_external _)
    intro params
    apply uniform_bind (uniform_update _)
    intro _
    exact uniform_bind (uniform_external _) fun _ => uniform_update _

theorem uniform_movePublicTable :
    Uniform (Paired a₀ b₀ kept) (Prover.movePublicTable : Step L L.PublicTable) := by
  apply uniform_bind (uniform_deref paired_prover _ _)
  intro slot
  apply uniform_bind (uniform_ofPart _ _ _)
  intro r
  exact uniform_bind (uniform_update _) fun _ => uniform_pure _

theorem uniform_movePrivateTable :
    Uniform (Paired a₀ b₀ kept) (Prover.movePrivateTable : Step L L.PrivateTable) := by
  apply uniform_bind (uniform_deref paired_prover _ _)
  intro slot
  apply uniform_bind (uniform_ofPart _ _ _)
  intro r
  exact uniform_bind (uniform_update _) fun _ => uniform_pure _

theorem uniform_preprocessPublicData :
    Uniform (Paired a₀ b₀ kept) (Prover.preprocessPublicData : Step L Bool) := by
  apply uniform_bind (uniform_deref paired_prover _ _)
  intro slot
  apply uniform_bind (uniform_ofPart _ _ _)
  intro inputs
  apply uniform_bind (uniform_update _)
  intro _
  apply uniform_bind uniform_createLpcScheme
  intro _
  apply uniform_bind (uniform_deref paired_prover _ _)
  intro cs
  apply uniform_bind uniform_movePublicTable
  intro publicTable
  apply uniform_bind (uniform_deref paired_prover _ _)
  intro description
  apply uniform_bind (uniform_deref paired_prover _ _)
  intro scheme
  apply uniform_bind (uniform_self paired_prover)
  intro p
  apply uniform_bind (uniform_external _)
  intro r
  exact uniform_bind (uniform_update _) fun _ => uniform_pure true

theorem uniform_preprocessPrivateData :
    Uniform (Paired a₀ b₀ kept) (Prover.preprocessPrivateData : Step L Bool) := by
  apply uniform_bind (uniform_deref paired_prover _ _)
  intro cs
  apply uniform_bind uniform_movePrivateTable
  intro privateTable
  apply uniform_bind (uniform_deref paired_prover _ _)
  intro description
  apply uniform_bind (uniform_external _)
  intro data
  exact uniform_bind (uniform_update _) fun _ => uniform_pure true

theorem uniform_verify (proof : L.Proof) :
    Uniform (Paired a₀ b₀ kept) (Prover.verify proof) := by
  have hrest : ∀ common : L.CommonData, Uniform (Paired a₀ b₀ kept) (do
      let description ← Prover.deref .tableDescription Prover.tableDescription
      let cs ← Prover.deref .constraintSystem Prover.constraintSystem
      let scheme ← Prover.deref .lpcScheme Prover.lpcScheme
      Prover.external (L.placeholderVerifier common proof description cs scheme) :
        Step L Bool) := by
    intro common
    apply uniform_bind (uniform_deref paired_prover _ _)
    intro description
    apply uniform_bind (uniform_deref paired_prover _ _)
    intro cs
    exact uniform_bind (uniform_deref paired_prover _ _) fun _ => uniform_external _
  apply uniform_bind (uniform_self paired_prover)
  intro p
  dsimp only
  cases p.publicPreprocessedData with
  | some data => exact uniform_bind (uniform_pure _) hrest
  | none => exact uniform_bind (uniform_deref paired_prover _ _) hrest

theorem uniform_verifyFromFile {path : Path} (hpath : b₀.lookup path = a₀.lookup path) :
    Uniform (Paired a₀ b₀ kept) (Prover.verifyFromFile path : Step L Bool) := by
  apply uniform_bind uniform_createLpcScheme
  intro _
  apply uniform_bind (uniform_decode hpath)
  intro m
  cases m with
  | none => exact uniform_pure false
  | some m => exact uniform_bind (uniform_external _) uniform_verify

theorem uniform_acceptProof (h₀ : SameDirectories a₀ b₀) {path : Path}
    (hpath : fileExists b₀ path = fileExists a₀ path)
    (hopen : b₀.openForWriting path = a₀.openForWriting path)
    (htemp : fileExists a₀ path = false →
      b₀.openForWriting (probeFile a₀ path) = a₀.openForWriting (probeFile a₀ path))
    (skip : Bool) :
    Uniform (Paired a₀ b₀ [path]) (Prover.acceptProof path skip : Step L (Option L.Proof)) := by
  apply uniform_bind (uniform_onFiles (uniform_canWriteToFile h₀ hpath hopen htemp))
  intro probed
  cases probed with
  | false => exact uniform_pure none
  | true =>
    apply uniform_bind (uniform_deref paired_prover _ _)
    intro publicData
    apply uniform_bind (uniform_deref paired_prover _ _)
    intro privateData
    apply uniform_bind (uniform_deref paired_prover _ _)
    intro description
    apply uniform_bind (uniform_deref paired_prover _ _)
    intro cs
    apply uniform_bind (uniform_deref paired_prover _ _)
    intro scheme
    apply uniform_bind (uniform_external _)
    intro r
    apply uniform_bind (uniform_update _)
    intro _
    cases skip with
    | true => exact uniform_pure _
    | false =>
      apply uniform_bind (uniform_verify _)
      intro accepted
      cases accepted with
      | true => exact uniform_pure _
      | false => exact uniform_pure _

theorem uniform_publishProof (h₀ : SameDirectories a₀ b₀) {proofFile jsonFile : Path}
    (hproof : b₀.openForWriting proofFile = a₀.openForWriting proofFile)
    (hjson : b₀.openForWriting jsonFile = a₀.openForWriting jsonFile) (proof : L.Proof) :
    Uniform (Paired a₀ b₀ kept) (Prover.publishProof d proofFile jsonFile proof) := by
  apply uniform_bind (uniform_deref paired_prover _ _)
  intro scheme
  apply uniform_bind (uniform_external _)
  intro filled
  apply uniform_bind (uniform_onFiles (uniform_encodeMarshallingToFile h₀ _ hproof _ _))
  intro res
  apply uniform_openOutputFile h₀ hjson (uniform_pure res)
  intro l
  apply uniform_bind (uniform_deref pairedOpen_prover _ _)
  intro description
  apply uniform_bind (uniform_deref pairedOpen_prover _ _)
  intro inputs
  apply uniform_bind (uniform_deref pairedOpen_prover _ _)
  intro cs
  apply uniform_bind (uniform_external _)
  intro text
  exact uniform_bind (uniform_writeStream h₀ _ _ _) fun _ => uniform_pure res

theorem uniform_generateToFile (h₀ : SameDirectories a₀ b₀) {proofFile jsonFile : Path}
    (hexists : fileExists b₀ proofFile = fileExists a₀ proofFile)
    (hproof : b₀.openForWriting proofFile = a₀.openForWriting proofFile)
    (htemp : fileExists a₀ proofFile = false →
      b₀.openForWriting (probeFile a₀ proofFile) = a₀.openForWriting (probeFile a₀ proofFile))
    (hjson : b₀.openForWriting jsonFile = a₀.openForWriting jsonFile) (skip : Bool) :
    Uniform (Paired a₀ b₀ [proofFile])
      (Prover.generateToFile d proofFile jsonFile skip : Step L Bool) := by
  apply uniform_bind (uniform_acceptProof h₀ hexists hproof htemp skip)
  intro proof
  cases proof with
  | none => exact uniform_pure false
  | some proof => exact uniform_publishProof h₀ hproof hjson proof

/-- Readers of the same files absorb the same challenges. -/
theorem absorbChallenges_congr {files : List Path}
    (h : ∀ q ∈ files, b.lookup q = a.lookup q) (transcript : L.Transcript) :
    Prover.absorbChallenges L b files transcript =
      Prover.absorbChallenges L a files transcript := by
  induction files generalizing transcript with
  | nil => rfl
  | cons file files ih =>
    have hfirst : decodeMarshallingFromFile L.fieldElement b file false =
        decodeMarshallingFromFile L.fieldElement a file false := by
      simp only [decodeMarshallingFromFile, heldBytes_congr (h file List.mem_cons_self)]
    simp only [Prover.absorbChallenges, hfirst,
      ih fun q hq => h q (List.mem_cons_of_mem _ hq)]

theorem uniform_generateAggregatedChallengeToFile (h₀ : SameDirectories a₀ b₀)
    {files : List Path} (hfiles : ∀ q ∈ files, b₀.lookup q = a₀.lookup q) {path : Path}
    (hopen : b₀.openForWriting path = a₀.openForWriting path) :
    Uniform (Paired a₀ b₀ kept)
      (Prover.generateAggregatedChallengeToFile d files path : Step L Bool) := by
  have hreadable : ∀ a b, Alongside a₀ b₀ a b →
      files.all (canReadFromFile b) = files.all (canReadFromFile a) := by
    intro a b hab
    rw [Bool.eq_iff_iff, List.all_eq_true, List.all_eq_true]
    refine forall₂_congr fun q hq => ?_
    rw [canReadFromFile, canReadFromFile, hab.lookup_eq (hfiles q hq)]
  apply uniform_ite (uniform_pure false)
  apply uniform_bind (uniform_reads fun a b hab => congrArg Except.ok (hreadable a b hab))
  intro readable
  apply uniform_ite (uniform_pure false)
  apply uniform_bind (uniform_reads fun a b hab =>
    absorbChallenges_congr (fun q hq => hab.lookup_eq (hfiles q hq)) L.transcript)
  intro transcript
  cases transcript with
  | none => exact uniform_pure false
  | some transcript => exact uniform_onFiles (uniform_encodeMarshallingToFile h₀ _ hopen _ _)

end Methods

theorem inputs_of_stage {stage : ProverStage} (h : (o.stage, stage) ∈ stageMap) :
    inputs o = stageInputs o stage := by
  unfold inputs
  rw [proverStageFromString_ok_iff.mpr h]

theorem probes_of_stage {stage : ProverStage} (h : (o.stage, stage) ∈ stageMap) :
    probes o = stageProbes o stage := by
  unfold probes
  rw [proverStageFromString_ok_iff.mpr h]

theorem uniform_stageSteps (stage : ProverStage) (h₀ : SameDirectories a₀ b₀)
    (hinputs : ∀ q ∈ stageInputs o stage, b₀.lookup q = a₀.lookup q)
    (hprobes : ∀ q ∈ stageProbes o stage, fileExists b₀ q = fileExists a₀ q)
    (houtputs : ∀ q ∈ stageOutputs o stage, b₀.openForWriting q = a₀.openForWriting q)
    (htemporary : ∀ q ∈ stageProbes o stage, fileExists a₀ q = false →
      b₀.openForWriting (probeFile a₀ q) = a₀.openForWriting (probeFile a₀ q)) :
    ∀ m ∈ stageSteps L d o stage, Uniform (Paired a₀ b₀ (stageProbes o stage)) m := by
  intro m hm
  cases stage with
  | all =>
    simp only [stageInputs, stageProbes, stageOutputs, List.forall_mem_cons, List.not_mem_nil]
      at hinputs hprobes houtputs htemporary
    obtain ⟨hcircuit, htable, _⟩ := hinputs
    obtain ⟨hproof, hjson, hcommon, hdata, hscheme, _⟩ := houtputs
    simp only [stageSteps, List.mem_cons, List.not_mem_nil, or_false] at hm
    rcases hm with rfl | rfl | rfl | rfl | rfl | rfl | rfl | rfl
    · exact uniform_readMember hcircuit
    · exact uniform_readMember htable
    · exact uniform_preprocessPublicData
    · exact uniform_preprocessPrivateData
    · exact uniform_generateToFile h₀ hprobes.1 hproof htemporary.1 hjson false
    · exact uniform_saveObject h₀ hcommon _ _ _ _
    · exact uniform_saveObject h₀ hdata _ _ _ _
    · exact uniform_saveObject h₀ hscheme _ _ _ _
  | preprocess =>
    simp only [stageInputs, stageOutputs, List.forall_mem_cons, List.not_mem_nil]
      at hinputs houtputs
    obtain ⟨hcircuit, htable, _⟩ := hinputs
    obtain ⟨hdescription, hcommon, hdata, hscheme, _⟩ := houtputs
    simp only [stageSteps, List.mem_cons, List.not_mem_nil, or_false] at hm
    rcases hm with rfl | rfl | rfl | rfl | rfl | rfl | rfl
    · exact uniform_readMember hcircuit
    · exact uniform_readMember htable
    · exact uniform_saveObject h₀ hdescription _ _ _ _
    · exact uniform_preprocessPublicData
    · exact uniform_saveObject h₀ hcommon _ _ _ _
    · exact uniform_saveObject h₀ hdata _ _ _ _
    · exact uniform_saveObject h₀ hscheme _ _ _ _
  | prove =>
    simp only [stageInputs, stageProbes, stageOutputs, List.forall_mem_cons, List.not_mem_nil]
      at hinputs hprobes houtputs htemporary
    obtain ⟨hcircuit, htable, hdata, hscheme, _⟩ := hinputs
    simp only [stageSteps, List.mem_cons, List.not_mem_nil, or_false] at hm
    rcases hm with rfl | rfl | rfl | rfl | rfl | rfl
    · exact uniform_readMember hcircuit
    · exact uniform_readMember htable
    · exact uniform_readMember hdata
    · exact uniform_readMember hscheme
    · exact uniform_preprocessPrivateData
    · exact uniform_generateToFile h₀ hprobes.1 houtputs.1 htemporary.1 houtputs.2.1 true
  | verify =>
    simp only [stageInputs, List.forall_mem_cons, List.not_mem_nil] at hinputs
    obtain ⟨hcircuit, hcommon, hdescription, hproof, _⟩ := hinputs
    simp only [stageSteps, List.mem_cons, List.not_mem_nil, or_false] at hm
    rcases hm with rfl | rfl | rfl | rfl
    · exact uniform_readMember hcircuit
    · exact uniform_readMember hcommon
    · exact uniform_readMember hdescription
    · exact uniform_verifyFromFile hproof
  | generateAggregatedChallenge =>
    simp only [stageSteps, List.mem_singleton] at hm
    rw [hm]
    exact uniform_generateAggregatedChallengeToFile h₀ hinputs
      (houtputs _ (List.mem_singleton_self _))

/-- Runs of the same options that see the same have the same outcome and do the same to every
path, in every stage and however they end. -/
theorem runProver_footprint (L : Crypto3) (d : Disk) (o : ProverOptions) (fs₁ fs₂ : FileSystem)
    (h : SeesSame o fs₁ fs₂) :
    (runProver L d o fs₂).1 = (runProver L d o fs₁).1 ∧
      Alongside fs₁ fs₂ (runProver L d o fs₁).2 (runProver L d o fs₂).2 := by
  by_cases hstage : ∃ stage, (o.stage, stage) ∈ stageMap
  swap
  · have hno : ∀ stage, (o.stage, stage) ∉ stageMap := fun stage hs => hstage ⟨stage, hs⟩
    rw [runProver_of_no_stage hno, runProver_of_no_stage hno]
    exact ⟨rfl, .refl fs₁ fs₂⟩
  obtain ⟨stage, hstage⟩ := hstage
  have hsteps : ∀ m ∈ stageSteps L d o stage,
      Uniform (Paired fs₁ fs₂ (stageProbes o stage)) m := by
    refine uniform_stageSteps stage h.directories ?_ ?_ ?_ ?_
    · exact inputs_of_stage hstage ▸ h.inputs
    · exact probes_of_stage hstage ▸ h.probes
    · rw [← outputs_of_stage hstage]
      exact fun q hq => h.directories.openForWriting_eq (h.outputs q hq)
    · rw [← probes_of_stage hstage]
      exact fun q hq hmissing => h.directories.openForWriting_eq (h.temporary q hq hmissing)
  have hstart : Paired fs₁ fs₂ (stageProbes o stage) (initialSession L o fs₁)
      (initialSession L o fs₂) := ⟨rfl, .refl fs₁ fs₂ _⟩
  obtain ⟨hanswer, _, hfiles⟩ := uniform_allOf hsteps _ _ hstart
  rw [runProver_of_stage hstage, runProver_of_stage hstage]
  exact ⟨congrArg Outcome.ofResult hanswer, hfiles.alongside⟩

/-- The small directory with a read-only file in it that no stage knows. -/
def smallFilesAndNotes : FileSystem := { smallFiles with
  node := fun l => if l = [['x']] then some (.file [7] false) else smallFiles.node l }

theorem smallFilesAndNotes_sameDirectories : SameDirectories smallFiles smallFilesAndNotes := by
  refine ⟨rfl, fun l w => ?_⟩
  have hfree : smallFiles.node [['x']] = none := rfl
  by_cases hl : l = [['x']]
  · simp [smallFilesAndNotes, hl, hfree]
  · simp [smallFilesAndNotes, hl]

theorem runProver_footprint_small :
    (runProver .small .reliable (smallOptions "all") smallFilesAndNotes).1 =
        (runProver .small .reliable (smallOptions "all") smallFiles).1 ∧
      Alongside smallFiles smallFilesAndNotes
        (runProver .small .reliable (smallOptions "all") smallFiles).2
        (runProver .small .reliable (smallOptions "all") smallFilesAndNotes).2 := by
  refine runProver_footprint .small .reliable (smallOptions "all") smallFiles
    smallFilesAndNotes ⟨smallFilesAndNotes_sameDirectories, ?_, ?_, ?_, ?_⟩
  · decide +kernel
  · decide +kernel
  · decide +kernel
  · decide +kernel

end ProofProducer
