import ProofProducer.SplitPipeline
import ProofProducer.VerifyStage

/-!
# Verification from files

Stage `verify` sees the circuit, the common data, the description and the proof in files and
makes the commitment scheme anew. After `preprocess` and `prove` its verdict is the one of the
process that has all of them in memory. Stage `all` leaves the description out, so what `verify`
says after it depends on what the description file held before.
-/

namespace ProofProducer

open Effects Files Files.FileSystem Codecs

set_option autoImplicit false

variable {L : Crypto3} {d : Disk} {o : ProverOptions} {fs fs₁ fs₂ fs₃ : FileSystem}

/-- The files and the numbers that `verify` shares with `preprocess`. -/
def ProverOptions.verifying (o : ProverOptions) (grind maxQuotientChunks : SizeT) :
    ProverOptions :=
  { o with stage := "verify", grind := grind, maxQuotientChunks := maxQuotientChunks }

/-- A `prove` run that has written its proof file has had a proof. -/
theorem exists_proveRun_of_wroteFile (h : o.stage = "prove")
    (hwrote : WroteFile fs (runProver L d o fs).2 o.proofFilePath) :
    ∃ fs₁, Nonempty (ProveRun L d o fs fs₁) := by
  have hstage := stage_mem .prove h
  have hnone : (runProver L d o fs).2.journal ≠ fs.journal := by
    intro hj
    have hadded : (runProver L d o fs).2.journal = [] ++ fs.journal := hj
    obtain ⟨v, hv⟩ := (wroteFile_iff hadded).mp hwrote
    simp at hv
  by_cases hc : Nonempty (Resumption L o fs) ∧
    ∃ fs₁, (canWriteToFile o.proofFilePath).run fs = (.ok true, fs₁)
  swap
  · refine (hnone ?_).elim
    rw [runProver_of_stage hstage]
    rcases allOf_prove_files (d := d) hc with hsame | hprobed
    · rw [hsame]
    · rw [hprobed]
      exact (canWriteToFile_cases o.proofFilePath fs).journal
  obtain ⟨⟨c⟩, probed, hprobe⟩ := hc
  rw [runProver_of_stage hstage, allOf_prove_run c hprobe] at hnone
  rcases hv : L.proofBytes c.proof (L.getFriParams c.usedScheme) with e | v
  · rw [hv] at hnone
    exact (hnone (journal_probed hprobe)).elim
  rw [hv] at hnone
  have hunwritten : (Prover.writtenProof d probed o.proofFilePath v).2.journal ≠ fs.journal := by
    intro hj
    refine hnone ?_
    dsimp only
    split
    · exact hj
    · exact hj
  cases v with
  | none => exact (hunwritten (journal_probed hprobe)).elim
  | some v =>
    by_cases hyes : (written d probed o.proofFilePath (hexText v)).1 = true
    · exact ⟨_, ⟨⟨c, v, probed, hv, hprobe, Prod.ext hyes rfl⟩⟩⟩
    · refine (hunwritten ?_).elim
      exact (journal_not_written (by simpa using hyes)).trans (journal_probed hprobe)

theorem ProveRun.content_proof (r : ProveRun L d o fs fs₁) (hd : d.Reliable)
    (h : o.stage = "prove") (hne : ¬ fs.SameFile o.proofFilePath o.jsonFilePath) :
    (runProver L d o fs).2.content o.proofFilePath = some (hexText r.proofBytes) := by
  rw [content_congr (r.lookup_proof h hne)]
  exact content_written (reachesDisk_of_reliable hd _ _ _) r.proof_written

/-- The scheme made anew for `verify` is as good as the one the preprocessor left. -/
theorem Preprocessing.verifier_fresh (c : Preprocessing L o fs)
    (hpre : L.PreprocessorKeepsFriParams) (hver : L.VerifierUsesFriParams)
    (common : L.CommonData) (proof : L.Proof)
    (description : L.TableDescription) (circuit : L.ConstraintSystem) :
    L.placeholderVerifier common proof description circuit c.fresh =
      L.placeholderVerifier common proof description circuit c.scheme :=
  hver _ _ _ _ _ _ (hpre c.preprocessed).symm

/-- Stage `verify` on the files of stages `preprocess` and `prove` gives the verdict of a process
that has preprocessed and is handed the proof. -/
theorem runProver_verify_agrees (hL : L.MarshallingLawful) (hpre : L.PreprocessorKeepsFriParams)
    (hver : L.VerifierUsesFriParams) (hd : d.Reliable) (hdistinct : OutputsDistinct fs o)
    {lambda grind expandFactor maxQuotientChunks : SizeT}
    (hpreprocess : runProver L d (o.atStage "preprocess") fs = (.exit 0, fs₁))
    (hprove : (runProver L d (o.proving lambda grind expandFactor maxQuotientChunks) fs₁).2 = fs₂)
    (hwrote : WroteFile fs₁ fs₂ o.proofFilePath)
    (hcircuit : fs₃.content o.circuitFilePath = fs.content o.circuitFilePath)
    (hcommon : fs₃.content o.preprocessedCommonDataPath =
      fs₁.content o.preprocessedCommonDataPath)
    (hdescription : fs₃.content o.assignmentDescriptionFilePath =
      fs₁.content o.assignmentDescriptionFilePath)
    (hproof : fs₃.content o.proofFilePath = fs₂.content o.proofFilePath)
    (grind' maxQuotientChunks' : SizeT) :
    ∃ (p : Prover L) (t : Session L) (proof : L.Proof),
      (Action.allOf (stageSteps L d (o.atStage "preprocess") .preprocess)).run
          (initialSession L (o.atStage "preprocess") fs) = (.ok true, ⟨p, fs₁⟩) ∧
        (acceptedProof (resumption L o) o.proofFilePath true).run (initialSession L
            (o.proving lambda grind expandFactor maxQuotientChunks) fs₁) = (.ok (some proof), t) ∧
        ((runProver L d (o.verifying grind' maxQuotientChunks') fs₃).1 = .exit 0 ↔
          ((Prover.verify proof).run ⟨p, fs₁⟩).1 = .ok true) := by
  obtain ⟨r⟩ := (runProver_preprocess_exit_zero_iff rfl).mp hpreprocess
  have hrun : (Action.allOf (stageSteps L d (o.atStage "preprocess") .preprocess)).run
      (initialSession L (o.atStage "preprocess") fs) =
        (.ok true, ⟨r.toPreprocessing.prover, fs₁⟩) :=
    allOf_preprocess_true_iff.mpr ⟨r, rfl⟩
  subst hprove
  obtain ⟨_, ⟨r₁⟩⟩ := exists_proveRun_of_wroteFile rfl hwrote
  have haccepted := acceptedProof_resumption_iff.mpr
    ⟨r₁.toResumption, r₁.probed, rfl, r₁.probe_ok, rfl⟩
  refine ⟨_, _, r₁.proof, hrun, haccepted, ?_⟩
  have hne : ¬ fs₁.SameFile o.proofFilePath o.jsonFilePath := fun hsame =>
    hdistinct.proof_ne_json ((r.all_saved.steady.sameFile_iff _ _).mp hsame)
  have hread_circuit : L.circuitIn fs₃ o.circuitFilePath = .ok (some r.circuit) := by
    obtain ⟨c, hc⟩ := content_of_objectIn r.circuit_read
    exact (objectIn_of_content_eq hc (hcircuit.trans hc)).trans r.circuit_read
  have hread_common : L.commonDataIn fs₃ o.preprocessedCommonDataPath =
      .ok (some (L.commonData r.data)) := by
    refine objectIn_of_bytesOf hL.common hL.common_make r.saved.commonData_eq (hcommon.trans ?_)
    exact r.content_of_mem hdistinct (reachesDisk_of_reliable hd _ _ _)
      (by simp [SavedBytes.writes, ProverOptions.atStage])
  have hread_description : L.descriptionIn fs₃ o.assignmentDescriptionFilePath =
      .ok (some r.description) := by
    refine objectIn_of_bytesOf hL.description hL.description_make r.description_encoded
      (hdescription.trans ?_)
    exact r.content_of_mem hdistinct (reachesDisk_of_reliable hd _ _ _) List.mem_cons_self
  have hread_proof : L.proofIn fs₃ o.proofFilePath = .ok (some r₁.proof) :=
    objectIn_hex_of_bytesOf hL.proof (hL.proof_make _) r₁.proof_encoded
      (hproof.trans (r₁.content_proof hd rfl hne))
  have hverdict : Nonempty (Verification L (o.verifying grind' maxQuotientChunks') fs₃) ↔
      L.placeholderVerifier (L.commonData r.data) r₁.proof r.description r.circuit r.fresh =
        .ok true :=
    verification_iff hread_circuit hread_common hread_description hread_proof r.fresh_made
  rw [runProver_verify_exit_zero_iff rfl, hverdict, r.verifier_fresh hpre hver,
    Prover.verify_run rfl rfl rfl rfl]
  cases L.placeholderVerifier (L.commonData r.data) r₁.proof r.description r.circuit r.scheme with
  | error e => simp [Except.mapError]
  | ok b => simp [Except.mapError]

theorem runProver_verify_agrees_small :
    ∃ (p : Prover .small) (t : Session .small) (proof : Crypto3.small.Proof),
      (Action.allOf (stageSteps .small .reliable ((smallOptions "all").atStage "preprocess")
          .preprocess)).run
          (initialSession .small ((smallOptions "all").atStage "preprocess") smallFiles) =
          (.ok true, ⟨p, filesAfter "preprocess" smallFiles⟩) ∧
        (acceptedProof (resumption .small (smallOptions "all")) ['p'] true).run (initialSession
            .small ((smallOptions "all").proving 9 69 2 0) (filesAfter "preprocess" smallFiles)) =
          (.ok (some proof), t) ∧
        ((runProver .small .reliable ((smallOptions "all").verifying 0 1) provedFiles).1 =
            .exit 0 ↔
          ((Prover.verify proof).run ⟨p, filesAfter "preprocess" smallFiles⟩).1 = .ok true) := by
  have hexit : (runProver .small .reliable (smallOptions "preprocess") smallFiles).1 = .exit 0 := by
    decide +kernel
  have hpreprocess : runProver .small .reliable ((smallOptions "all").atStage "preprocess")
      smallFiles = (.exit 0, filesAfter "preprocess" smallFiles) := runProver_small hexit
  have hprove : (runProver .small .reliable ((smallOptions "all").proving 9 69 2 0)
      (filesAfter "preprocess" smallFiles)).2 = provedFiles := rfl
  have hwrote : WroteFile (filesAfter "preprocess" smallFiles) provedFiles ['p'] :=
    ⟨[(['p'], hexText [10])], hexText [10], by decide +kernel, List.mem_singleton_self _⟩
  have hdistinct : OutputsDistinct smallFiles (smallOptions "all") := by decide +kernel
  exact runProver_verify_agrees Crypto3.small_marshallingLawful
    Crypto3.small_preprocessorKeepsFriParams Crypto3.small_verifierUsesFriParams
    Disk.reliable_reliable hdistinct hpreprocess hprove hwrote
    (by decide +kernel) (by decide +kernel) (by decide +kernel) rfl 0 1

/-- What the description file holds once the probe is over serves the verifier for the proof
that the circuit and the table give. -/
structure DescriptionServes (L : Crypto3) (o : ProverOptions) (fs : FileSystem)
    extends Proving L o fs where
  held : L.TableDescription
  heldScheme : L.LpcScheme
  held_read : L.descriptionIn ((canWriteToFile o.proofFilePath).run fs).2
    o.assignmentDescriptionFilePath = .ok (some held)
  heldScheme_made : freshScheme L o.lambda o.expandFactor held = .ok heldScheme
  serves : L.placeholderVerifier (L.commonData data) proof held circuit heldScheme = .ok true

/-- The description of the table itself serves. -/
theorem Proving.descriptionServes (c : Proving L o fs) (hpre : L.PreprocessorKeepsFriParams)
    (hkeep : L.ProverKeepsScheme) (hver : L.VerifierUsesFriParams)
    (hheld : L.descriptionIn ((canWriteToFile o.proofFilePath).run fs).2
      o.assignmentDescriptionFilePath = .ok (some c.description)) :
    Nonempty (DescriptionServes L o fs) := by
  have hused : c.usedScheme = c.scheme := hkeep c.proved
  refine ⟨⟨c, c.description, c.fresh, hheld, c.fresh_made, ?_⟩⟩
  rw [c.verifier_fresh hpre hver, ← hused]
  exact c.accepted

/-- Stage `all` writes every output but the description. -/
theorem AllRun.lookup_description (r : AllRun L d o fs fs₁) (hdistinct : OutputsDistinct fs o) :
    fs₁.lookup o.assignmentDescriptionFilePath =
      r.probed.lookup o.assignmentDescriptionFilePath := by
  have hne : ∀ q ∈ stageOutputs o .all, ¬ fs.SameFile o.assignmentDescriptionFilePath q := by
    have hothers : ∀ q ∈ [o.preprocessedCommonDataPath, o.preprocessedPublicDataPath,
        o.commitmentSchemeStatePath, o.proofFilePath, o.jsonFilePath],
        ¬ fs.SameFile o.assignmentDescriptionFilePath q := (List.pairwise_cons.mp hdistinct).1
    intro q hq
    refine hothers q ?_
    simp only [stageOutputs, List.mem_cons, List.not_mem_nil, or_false] at hq ⊢
    tauto
  have hs := steady_probed r.probe_ok
  have hproof : r.proofStored.lookup o.assignmentDescriptionFilePath =
      r.probed.lookup o.assignmentDescriptionFilePath :=
    lookup_of_written r.proof_written fun hsame =>
      hne o.proofFilePath List.mem_cons_self ((hs.sameFile_iff _ _).mp hsame)
  have hjson := r.json_tried.lookup_of_ne fun hsame =>
    hne o.jsonFilePath (List.mem_cons_of_mem _ List.mem_cons_self)
      ((r.steady_proofStored.sameFile_iff _ _).mp hsame)
  rw [r.all_saved.lookup_of_ne, hjson, hproof]
  intro w hw hsame
  refine hne w.1 ?_ ((r.steady_jsonTried.sameFile_iff _ _).mp hsame)
  exact List.mem_cons_of_mem _ (List.mem_cons_of_mem _ (List.mem_map_of_mem (f := Prod.fst) hw))

theorem AllRun.content_common (r : AllRun L d o fs fs₁) (hd : d.Reliable)
    (hdistinct : OutputsDistinct fs o) :
    fs₁.content o.preprocessedCommonDataPath = some r.saved.commonDataBytes := by
  refine r.all_saved.content_of_mem (reachesDisk_of_reliable hd _ _ _) ?_ List.mem_cons_self
  have hpaths : ((r.saved.writes o).map Prod.fst).Pairwise fun p q => ¬ fs.SameFile p q :=
    (List.pairwise_cons.mp hdistinct.preprocess).2
  refine (List.pairwise_map.mp hpaths).imp fun hne hsame => hne ?_
  exact (r.steady_jsonTried.sameFile_iff _ _).mp hsame

/-- After stage `all` stage `verify` accepts exactly when the description file, which stage `all`
did not write, holds a description that serves. -/
theorem runProver_verify_after_all_iff (hL : L.MarshallingLawful) (hd : d.Reliable)
    (h : o.stage = "all") (hdistinct : OutputsDistinct fs o)
    (hrun : runProver L d o fs = (.exit 0, fs₁))
    (hcircuit : fs₁.content o.circuitFilePath = fs.content o.circuitFilePath) :
    (runProver L d (o.atStage "verify") fs₁).1 = .exit 0 ↔
      Nonempty (DescriptionServes L o fs) := by
  obtain ⟨r⟩ := (runProver_all_exit_zero_iff h).mp hrun
  have hread_circuit : L.circuitIn fs₁ o.circuitFilePath = .ok (some r.circuit) := by
    obtain ⟨c, hc⟩ := content_of_objectIn r.circuit_read
    exact (objectIn_of_content_eq hc (hcircuit.trans hc)).trans r.circuit_read
  have hread_common : L.commonDataIn fs₁ o.preprocessedCommonDataPath =
      .ok (some (L.commonData r.data)) :=
    objectIn_of_bytesOf hL.common hL.common_make r.saved.commonData_eq
      (r.content_common hd hdistinct)
  have hread_proof : L.proofIn fs₁ o.proofFilePath = .ok (some r.proof) := by
    refine objectIn_hex_of_bytesOf hL.proof (hL.proof_make _) r.proof_encoded ?_
    rw [content_congr (r.lookup_proof hdistinct)]
    exact content_written (reachesDisk_of_reliable hd _ _ _) r.proof_written
  have hheld : L.descriptionIn fs₁ o.assignmentDescriptionFilePath =
      L.descriptionIn ((canWriteToFile o.proofFilePath).run fs).2
        o.assignmentDescriptionFilePath := by
    rw [r.probe_ok]
    exact objectIn_congr (r.lookup_description hdistinct)
  have hverdict : ∀ {held : L.TableDescription} {scheme : L.LpcScheme},
      L.descriptionIn fs₁ o.assignmentDescriptionFilePath = .ok (some held) →
      freshScheme L o.lambda o.expandFactor held = .ok scheme →
      (Nonempty (Verification L (o.atStage "verify") fs₁) ↔
        L.placeholderVerifier (L.commonData r.data) r.proof held r.circuit scheme = .ok true) :=
    fun hread hscheme => verification_iff hread_circuit hread_common hread hread_proof hscheme
  rw [runProver_verify_exit_zero_iff rfl]
  constructor
  · intro hv
    obtain ⟨v⟩ := hv
    have hscheme : freshScheme L o.lambda o.expandFactor v.description = .ok v.scheme :=
      freshScheme_ok_iff.mpr ⟨v.rows, v.params, v.params_made, v.scheme_made⟩
    have haccepted := (hverdict v.description_read hscheme).mp ⟨v⟩
    exact ⟨⟨r.toProving, v.description, v.scheme, hheld.symm.trans v.description_read, hscheme,
      haccepted⟩⟩
  · intro hs
    obtain ⟨s⟩ := hs
    have hsame : s.toProving = r.toProving := s.toProving.unique r.toProving
    have hserves := s.serves
    rw [hsame] at hserves
    exact (hverdict (hheld.trans s.held_read) s.heldScheme_made).mpr hserves

/-- A directory that an earlier stage `preprocess` has been run in. -/
theorem runProver_verify_after_all_iff_small :
    (runProver .small .reliable ((smallOptions "all").atStage "verify")
        (filesAfter "all" (filesAfter "preprocess" smallFiles))).1 = .exit 0 ↔
      Nonempty (DescriptionServes .small (smallOptions "all")
        (filesAfter "preprocess" smallFiles)) := by
  have hexit : (runProver .small .reliable (smallOptions "all")
      (filesAfter "preprocess" smallFiles)).1 = .exit 0 := by
    decide +kernel
  have hdistinct : OutputsDistinct (filesAfter "preprocess" smallFiles) (smallOptions "all") := by
    decide +kernel
  exact runProver_verify_after_all_iff Crypto3.small_marshallingLawful Disk.reliable_reliable rfl
    hdistinct (runProver_small hexit) (by decide +kernel)

/-- In a directory with a circuit and a table only, stage `all` succeeds and stage `verify` then
finds no description. -/
theorem verify_fails_after_all :
    ¬ ∀ (L : Crypto3) (d : Disk) (o : ProverOptions) (fs fs₁ : FileSystem),
      L.MarshallingLawful → L.VerifierUsesFriParams → d.Reliable → o.stage = "all" →
      OutputsDistinct fs o → runProver L d o fs = (.exit 0, fs₁) →
      fs₁.content o.circuitFilePath = fs.content o.circuitFilePath →
      (runProver L d (o.atStage "verify") fs₁).1 = .exit 0 := by
  intro h
  have hexit : (runProver .small .reliable (smallOptions "all") smallFiles).1 = .exit 0 := by
    decide +kernel
  have hdistinct : OutputsDistinct smallFiles (smallOptions "all") := by decide +kernel
  have hverify : (runProver .small .reliable ((smallOptions "all").atStage "verify")
      (filesAfter "all" smallFiles)).1 = .exit 1 := by
    decide +kernel
  have haccepted := h .small .reliable (smallOptions "all") smallFiles (filesAfter "all" smallFiles)
    Crypto3.small_marshallingLawful Crypto3.small_verifierUsesFriParams Disk.reliable_reliable rfl
    hdistinct (runProver_small hexit) (by decide +kernel)
  rw [hverify] at haccepted
  simp at haccepted

end ProofProducer
