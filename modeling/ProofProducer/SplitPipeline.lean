import ProofProducer.Publication

/-!
# One computation in two processes

Stage `all` keeps the public data and the commitment scheme in memory. Stages `preprocess` and
`prove` share them through files: what the second process reads is what the first one had, so
the proof it writes is the proof of stage `all`.
-/

namespace ProofProducer

open Effects Files Files.FileSystem Codecs

set_option autoImplicit false

variable {L : Crypto3} {d : Disk} {o : ProverOptions} {fs fs₁ fs₂ : FileSystem}

namespace ProverOptions

def atStage (o : ProverOptions) (stage : String) : ProverOptions := { o with stage := stage }

/-- The same files, whatever the numbers are. -/
def proving (o : ProverOptions) (lambda grind expandFactor maxQuotientChunks : SizeT) :
    ProverOptions :=
  { o with
    stage := "prove"
    lambda := lambda
    grind := grind
    expandFactor := expandFactor
    maxQuotientChunks := maxQuotientChunks }

end ProverOptions

variable {lambda grind expandFactor maxQuotientChunks : SizeT}

/-- What `preprocess` and `prove` write; stage `all` writes no other file. -/
def outputPaths (o : ProverOptions) : List Path :=
  stageOutputs o .preprocess ++ stageOutputs o .prove

def inputPaths (o : ProverOptions) : List Path := [o.circuitFilePath, o.assignmentTableFilePath]

def OutputsDistinct (fs : FileSystem) (o : ProverOptions) : Prop :=
  (outputPaths o).Pairwise fun p q => ¬ fs.SameFile p q

instance : Decidable (OutputsDistinct fs o) :=
  inferInstanceAs (Decidable (List.Pairwise _ _))

def OutputsNotInputs (fs : FileSystem) (o : ProverOptions) : Prop :=
  ∀ q ∈ inputPaths o, ∀ p ∈ outputPaths o, ¬ fs.SameFile q p

instance : Decidable (OutputsNotInputs fs o) :=
  inferInstanceAs (Decidable (∀ q ∈ inputPaths o, ∀ p ∈ outputPaths o, ¬ fs.SameFile q p))

namespace OutputsDistinct

theorem preprocess (h : OutputsDistinct fs o) :
    (stageOutputs o .preprocess).Pairwise fun p q => ¬ fs.SameFile p q :=
  (List.pairwise_append.mp h).1

theorem proof_ne_json (h : OutputsDistinct fs o) :
    ¬ fs.SameFile o.proofFilePath o.jsonFilePath := by
  have hprove := (List.pairwise_append.mp h).2.1
  exact List.rel_of_pairwise_cons hprove (List.mem_singleton_self _)

/-- The proof file is none of the files that `preprocess` writes. -/
theorem proof_ne (h : OutputsDistinct fs o) :
    ∀ p ∈ stageOutputs o .preprocess, ¬ fs.SameFile o.proofFilePath p := by
  intro p hp hsame
  have hacross := (List.pairwise_append.mp h).2.2
  exact hacross p hp o.proofFilePath List.mem_cons_self (sameFile_comm.mp hsame)

end OutputsDistinct

/-- A file that stage `preprocess` does not write. -/
theorem PreprocessRun.lookup_eq {q : Path} (r : PreprocessRun L d o fs fs₁)
    (hq : ∀ p ∈ stageOutputs o .preprocess, ¬ fs.SameFile q p) : fs₁.lookup q = fs.lookup q := by
  refine r.all_saved.lookup_of_ne fun w hw => hq w.1 ?_
  exact List.mem_map_of_mem (f := Prod.fst) hw

theorem PreprocessRun.content_of_mem {p : Path} {v : Bytes} (r : PreprocessRun L d o fs fs₁)
    (hdistinct : OutputsDistinct fs o) (hr : ReachesDisk d fs p v)
    (hm : (p, v) ∈ (o.assignmentDescriptionFilePath, r.descriptionBytes) :: r.saved.writes o) :
    fs₁.content p = some v := by
  refine r.all_saved.content_of_mem hr ?_ hm
  have hpaths : (((o.assignmentDescriptionFilePath, r.descriptionBytes) :: r.saved.writes o).map
      Prod.fst).Pairwise fun p q => ¬ fs.SameFile p q := hdistinct.preprocess
  exact List.pairwise_map.mp hpaths

theorem JsonAttempt.lookup_of_ne {path q : Path} {text : Except Exception Bytes}
    (h : JsonAttempt d fs path text fs₁) (hq : ¬ fs.SameFile q path) :
    fs₁.lookup q = fs.lookup q := by
  cases h with
  | skipped => rfl
  | attempted c => exact lookup_written_of_ne hq

/-- What stage `all` writes after the proof does not touch the proof file. -/
theorem AllRun.lookup_proof (r : AllRun L d o fs fs₁) (hdistinct : OutputsDistinct fs o) :
    fs₁.lookup o.proofFilePath = r.proofStored.lookup o.proofFilePath := by
  have hsaved : fs₁.lookup o.proofFilePath = r.jsonTried.lookup o.proofFilePath := by
    refine r.all_saved.lookup_of_ne fun w hw hsame => ?_
    have hmem : w.1 ∈ stageOutputs o .preprocess :=
      List.mem_cons_of_mem _ (List.mem_map_of_mem (f := Prod.fst) hw)
    exact hdistinct.proof_ne w.1 hmem ((r.steady_jsonTried.sameFile_iff _ _).mp hsame)
  rw [hsaved]
  refine r.json_tried.lookup_of_ne fun hsame => ?_
  exact hdistinct.proof_ne_json ((r.steady_proofStored.sameFile_iff _ _).mp hsame)

/-- A `prove` run that has written its proof changes at most the JSON file after that. -/
theorem ProveRun.files_cases (r : ProveRun L d o fs fs₁) (h : o.stage = "prove") :
    (runProver L d o fs).2 = fs₁ ∨
      ∃ l, fs₁.openForWriting o.jsonFilePath = some l ∧
        (runProver L d o fs).2 = fs₁.store l [] := by
  have hstage := stage_mem .prove h
  rw [runProver_of_stage hstage, allOf_prove_run r.toResumption r.probe_ok, r.proof_encoded]
  simp only [Prover.writtenProof, r.proof_written]
  cases fs₁.openForWriting o.jsonFilePath with
  | none => exact Or.inl rfl
  | some l => exact Or.inr ⟨l, rfl, rfl⟩

theorem ProveRun.steady (r : ProveRun L d o fs fs₁) : Steady fs fs₁ :=
  (steady_probed r.probe_ok).trans (steady_of_written r.proof_written)

theorem ProveRun.lookup_proof (r : ProveRun L d o fs fs₁) (h : o.stage = "prove")
    (hne : ¬ fs.SameFile o.proofFilePath o.jsonFilePath) :
    (runProver L d o fs).2.lookup o.proofFilePath = fs₁.lookup o.proofFilePath := by
  rcases r.files_cases h with hsame | ⟨l, ho, hstored⟩
  · rw [hsame]
  · obtain ⟨hl, ha⟩ := openForWriting_eq_some_iff.mp ho
    rw [hstored]
    refine lookup_store_of_ne ha (fun hp => hne ?_) []
    exact (r.steady.sameFile_iff _ _).mp ⟨l, hp, hl⟩

/-- A computation that stage `all` has made can be made by stage `preprocess`. -/
theorem AllRun.exists_preprocessRun (hL : L.MarshallingLawful) (hkeep : L.ProverKeepsScheme)
    (r : AllRun L d o fs fs₁) (hopen : ∀ v, Writable d fs o.assignmentDescriptionFilePath v) :
    ∃ (fs₂ : FileSystem) (r₁ : PreprocessRun L d (o.atStage "preprocess") fs fs₂),
      r₁.circuit = r.circuit ∧ r₁.description = r.description ∧ r₁.table = r.table ∧
        r₁.data = r.data ∧ r₁.scheme = r.scheme := by
  have hused : r.usedScheme = r.scheme := hkeep r.proved
  obtain ⟨v, hv⟩ := bytesOf_total hL.description hL.description_make r.description
  obtain ⟨fs₂, hws⟩ := (WritesThrough.exists_iff d fs
    ((o.assignmentDescriptionFilePath, v) :: r.saved.writes o)).mpr
      (List.forall_mem_cons.mpr ⟨hopen v, r.saved_writable⟩)
  exact ⟨fs₂, ⟨⟨r.circuit, r.description, r.table, r.fresh, r.data, r.scheme, r.circuit_read,
      r.table_read, r.fresh_made, r.preprocessed⟩,
    ⟨r.saved.commonDataBytes, r.saved.preprocessedBytes, r.saved.schemeBytes,
      r.saved.commonData_eq, r.saved.preprocessed_eq, hused ▸ r.saved.scheme_eq⟩, v, hv, hws⟩,
    rfl, rfl, rfl, rfl, rfl⟩

/-- What stage `prove` reads after it, whatever numbers it is given. -/
theorem PreprocessRun.exists_resumption (hL : L.MarshallingLawful) (hsep : L.PublicPartSeparate)
    (r : PreprocessRun L d (o.atStage "preprocess") fs fs₁) (hdistinct : OutputsDistinct fs o)
    (hinputs : OutputsNotInputs fs o)
    (hkept : ∀ p ∈ stageOutputs o .preprocess, ∀ v, ReachesDisk d fs p v)
    {privateData : L.PrivatePreprocessedData} {proof : L.Proof} {usedScheme : L.LpcScheme}
    (hprivate : L.placeholderPrivatePreprocessor r.circuit
      (L.movePrivateTable (L.movePublicTable r.table).2).1 r.description = .ok privateData)
    (hproved : L.placeholderProver r.data privateData r.description r.circuit r.scheme =
      .ok (proof, usedScheme)) :
    ∃ c : Resumption L (o.proving lambda grind expandFactor maxQuotientChunks) fs₁,
      c.proof = proof ∧ c.usedScheme = usedScheme := by
  have hinput : ∀ q ∈ inputPaths o, fs₁.lookup q = fs.lookup q := fun q hq =>
    r.lookup_eq fun p hp => hinputs q hq p (List.mem_append_left _ hp)
  have hcircuit : L.circuitIn fs₁ o.circuitFilePath = .ok (some r.circuit) :=
    (objectIn_congr (hinput _ List.mem_cons_self)).trans r.circuit_read
  have htable : L.tableIn fs₁ o.assignmentTableFilePath = .ok (some (r.description, r.table)) :=
    (objectIn_congr (hinput _ (List.mem_cons_of_mem _ List.mem_cons_self))).trans r.table_read
  have hdata : fs₁.content o.preprocessedPublicDataPath = some r.saved.preprocessedBytes :=
    r.content_of_mem hdistinct (hkept _ (by simp [stageOutputs]) _)
      (by simp [SavedBytes.writes, ProverOptions.atStage])
  have hstate : fs₁.content o.commitmentSchemeStatePath = some r.saved.schemeBytes :=
    r.content_of_mem hdistinct (hkept _ (by simp [stageOutputs]) _)
      (by simp [SavedBytes.writes, ProverOptions.atStage])
  rw [hsep] at hprivate
  exact ⟨⟨r.circuit, r.description, r.table, r.data, r.scheme, privateData, proof, usedScheme,
    hcircuit, htable,
    objectIn_of_bytesOf hL.preprocessed hL.preprocessed_make r.saved.preprocessed_eq hdata,
    objectIn_of_bytesOf hL.scheme hL.scheme_make r.saved.scheme_eq hstate, hprivate, hproved⟩,
    rfl, rfl⟩

/-- The probe that let stage `all` write its proof lets stage `prove` write it too. -/
theorem AllRun.probe_after_preprocess (r : AllRun L d o fs fs₁)
    (r₁ : PreprocessRun L d (o.atStage "preprocess") fs fs₂) (hdistinct : OutputsDistinct fs o) :
    ((canWriteToFile o.proofFilePath).run fs₂).1 = .ok true := by
  refine canWriteToFile_true_of_steady r₁.all_saved.steady (fun q => r₁.all_saved.fileExists) ?_
    (by rw [r.probe_ok])
  simp only [fileExists, r₁.lookup_eq hdistinct.proof_ne]

/-- Two processes that have the same proof in memory write the same proof file. -/
theorem AllRun.exists_proveRun (r : AllRun L d o fs fs₁)
    (r₁ : PreprocessRun L d (o.atStage "preprocess") fs fs₂) (hdistinct : OutputsDistinct fs o)
    (c : Resumption L (o.proving lambda grind expandFactor maxQuotientChunks) fs₂)
    (hproof : c.proof = r.proof) (hused : c.usedScheme = r.usedScheme) :
    ∃ fs₃, Nonempty (ProveRun L d (o.proving lambda grind expandFactor maxQuotientChunks) fs₂ fs₃) ∧
      fs₃.lookup o.proofFilePath = r.proofStored.lookup o.proofFilePath := by
  have hyes := r.probe_after_preprocess r₁ hdistinct
  obtain ⟨probed, hprobe⟩ := exists_probed hyes
  have hs : Steady r.probed probed := (steady_probed r.probe_ok).symm.trans
    (r₁.all_saved.steady.trans (steady_probed hprobe))
  have hanswer : (written d probed o.proofFilePath (hexText r.proofBytes)).1 = true := by
    rw [written_answer_congr hs, r.proof_written]
  have hencoded : L.proofBytes c.proof (L.getFriParams c.usedScheme) =
      .ok (some r.proofBytes) := by
    rw [hproof, hused, r.proof_encoded]
  obtain ⟨l, ho, _⟩ := openForWriting_of_written r.proof_written
  have hl := (openForWriting_eq_some_iff.mp ho).1
  have hsame : (written d probed o.proofFilePath (hexText r.proofBytes)).2.lookup
      o.proofFilePath = r.proofStored.lookup o.proofFilePath := by
    rw [lookup_written_congr hs (Or.inl ⟨⟨l, hl, hl⟩, by rw [ho]; rfl⟩), r.proof_written]
  exact ⟨_, ⟨⟨c, r.proofBytes, probed, hencoded, hprobe, Prod.ext hanswer rfl⟩⟩, hsame⟩

/-- Stages `preprocess` and `prove` leave the proof file that stage `all` leaves. -/
theorem runProver_split_pipeline (hL : L.MarshallingLawful) (hkeep : L.ProverKeepsScheme)
    (hsep : L.PublicPartSeparate) (h : o.stage = "all") (hdistinct : OutputsDistinct fs o)
    (hinputs : OutputsNotInputs fs o)
    (hopen : ∀ p ∈ stageOutputs o .preprocess, Openable d fs p)
    (hrun : runProver L d o fs = (.exit 0, fs₁))
    (lambda grind expandFactor maxQuotientChunks : SizeT) :
    ∃ fs₂ c, runProver L d (o.atStage "preprocess") fs = (.exit 0, fs₂) ∧
      fs₁.content o.proofFilePath = some c ∧
      (runProver L d (o.proving lambda grind expandFactor maxQuotientChunks) fs₂).2.content
        o.proofFilePath = some c := by
  obtain ⟨r⟩ := (runProver_all_exit_zero_iff h).mp hrun
  obtain ⟨fs₂, r₁, hcircuit, hdescription, htable, hdata, hscheme⟩ :=
    r.exists_preprocessRun hL hkeep fun v => (hopen _ List.mem_cons_self v).1
  have hprivate : L.placeholderPrivatePreprocessor r₁.circuit
      (L.movePrivateTable (L.movePublicTable r₁.table).2).1 r₁.description =
        .ok r.privateData := by
    rw [hcircuit, hdescription, htable, r.privately_preprocessed]
  have hproved : L.placeholderProver r₁.data r.privateData r₁.description r₁.circuit r₁.scheme =
      .ok (r.proof, r.usedScheme) := by
    rw [hcircuit, hdescription, hdata, hscheme, r.proved]
  obtain ⟨c, hproof, hc⟩ : ∃ c : Resumption L (o.proving lambda grind expandFactor
      maxQuotientChunks) fs₂, c.proof = r.proof ∧ c.usedScheme = r.usedScheme :=
    r₁.exists_resumption hL hsep hdistinct hinputs (fun p hp v => (hopen p hp v).2) hprivate
      hproved
  obtain ⟨fs₃, ⟨r₂⟩, hsame⟩ := r.exists_proveRun r₁ hdistinct c hproof hc
  have hne : ¬ fs₂.SameFile o.proofFilePath o.jsonFilePath := fun hsame =>
    hdistinct.proof_ne_json ((r₁.all_saved.steady.sameFile_iff _ _).mp hsame)
  obtain ⟨text, htext⟩ := exists_content_written r.proof_written
  refine ⟨fs₂, text, (runProver_preprocess_exit_zero_iff rfl).mpr ⟨r₁⟩, ?_, ?_⟩
  · rw [content_congr (r.lookup_proof hdistinct), htext]
  · have hfinal := r₂.lookup_proof rfl hne
    exact (content_congr (hfinal.trans hsame)).trans htext

/-- The second process is given numbers of its own. -/
theorem runProver_split_pipeline_small :
    ∃ fs₂ c, runProver .small .reliable ((smallOptions "all").atStage "preprocess") smallFiles =
        (.exit 0, fs₂) ∧
      (filesAfter "all" smallFiles).content ['p'] = some c ∧
      (runProver .small .reliable ((smallOptions "all").proving 1 2 3 4) fs₂).2.content ['p'] =
        some c := by
  have hexit : (runProver .small .reliable (smallOptions "all") smallFiles).1 = .exit 0 := by
    decide +kernel
  refine runProver_split_pipeline Crypto3.small_marshallingLawful Crypto3.small_proverKeepsScheme
    Crypto3.small_publicPartSeparate rfl (by decide +kernel) (by decide +kernel)
    (fun p hp => openable_of_reliable Disk.reliable_reliable ?_) (runProver_small hexit) 1 2 3 4
  revert p
  decide +kernel

end ProofProducer
