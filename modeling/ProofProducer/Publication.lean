import ProofProducer.Runs

/-!
# What a run publishes

Stage `all` writes nothing before its proof has been accepted. A run that exits 0 has written
all its outputs, except that the JSON file is written by an open and a stream whose failures
`generate_to_file` does not return.
-/

namespace ProofProducer

open Effects Files Files.FileSystem Codecs

set_option autoImplicit false

variable {L : Crypto3} {d : Disk} {o : ProverOptions} {fs fs₁ : FileSystem}

/-- The files a stage writes. -/
def stageOutputs (o : ProverOptions) : ProverStage → List Path
  | .all => [o.proofFilePath, o.jsonFilePath, o.preprocessedCommonDataPath,
      o.preprocessedPublicDataPath, o.commitmentSchemeStatePath]
  | .preprocess => [o.assignmentDescriptionFilePath, o.preprocessedCommonDataPath,
      o.preprocessedPublicDataPath, o.commitmentSchemeStatePath]
  | .prove => [o.proofFilePath, o.jsonFilePath]
  | .verify => []
  | .generateAggregatedChallenge => [o.aggregatedChallengeFile]

/-- The run of `all` up to and including verification returns no proof, or an exception leaves
it. Then the run exits 1 and every output path holds what it held. -/
theorem runProver_all_unpublished (d : Disk) (h : o.stage = "all")
    (hprobe : ∀ q ∈ stageOutputs o .all, ¬ fs.SameFile q (probeFile fs o.proofFilePath))
    (hfail : ((acceptedProof (preparation L o) o.proofFilePath false).run
        (initialSession L o fs)).1 = .ok none ∨
      ∃ e, ((acceptedProof (preparation L o) o.proofFilePath false).run
        (initialSession L o fs)).1 = .error (.thrown e)) :
    (runProver L d o fs).1 = .exit 1 ∧
      ∀ q ∈ stageOutputs o .all, (runProver L d o fs).2.lookup q = fs.lookup q := by
  have hstage := stage_mem .all h
  have hfiles := acceptedProof_files (keepsFiles_preparation L o) o.proofFilePath false
    (initialSession L o fs)
  rw [runProver_of_stage hstage, stageSteps_all, allOf_generateToFile_run]
  rcases ha : (acceptedProof (preparation L o) o.proofFilePath false).run
    (initialSession L o fs) with ⟨r, t⟩
  rw [ha] at hfail hfiles
  have hlookup : ∀ q ∈ stageOutputs o .all, t.files.lookup q = fs.lookup q := by
    intro q hq
    rcases hfiles with hsame | hprobed
    · rw [show t.files = fs from hsame]
    · rw [show t.files = ((canWriteToFile o.proofFilePath).run fs).2 from hprobed]
      exact (canWriteToFile_cases o.proofFilePath fs).lookup (hprobe q hq)
  rcases hfail with hnone | ⟨e, he⟩
  · obtain rfl : r = .ok none := hnone
    exact ⟨rfl, hlookup⟩
  · obtain rfl : r = .error (.thrown e) := he
    exact ⟨rfl, hlookup⟩

/-- The small verifier refuses the proof made of this table. -/
def rejectedFiles : FileSystem := smallFiles.store [['t']] [2, 249]

theorem runProver_all_unpublished_rejected :
    (runProver .small .reliable (smallOptions "all") rejectedFiles).1 = .exit 1 ∧
      ∀ q ∈ stageOutputs (smallOptions "all") .all,
        (runProver .small .reliable (smallOptions "all") rejectedFiles).2.lookup q =
          rejectedFiles.lookup q :=
  runProver_all_unpublished .reliable rfl (by decide +kernel) (Or.inl rfl)

/-- The run opened the file and wrote it, as far as its stream reports. -/
def WroteFile (fs fs₁ : FileSystem) (p : Path) : Prop :=
  ∃ added v, fs₁.journal = added ++ fs.journal ∧ (p, v) ∈ added

def outputs (o : ProverOptions) : List Path :=
  match proverStageFromString o.stage with
  | .ok stage => stageOutputs o stage
  | .error _ => []

theorem wroteFile_iff {added : List (Path × Bytes)} {p : Path}
    (h : fs₁.journal = added ++ fs.journal) : WroteFile fs fs₁ p ↔ ∃ v, (p, v) ∈ added := by
  constructor
  · intro hw
    obtain ⟨added', v, h', hm⟩ := hw
    rw [h] at h'
    rw [List.append_cancel_right h']
    exact ⟨v, hm⟩
  · intro hw
    obtain ⟨v, hm⟩ := hw
    exact ⟨added, v, h, hm⟩

theorem journal_probed {probed : FileSystem} {r : Except Exception Bool} {path : Path}
    (h : (canWriteToFile path).run fs = (r, probed)) : probed.journal = fs.journal := by
  have hj := (canWriteToFile_cases path fs).journal
  rw [h] at hj
  exact hj

theorem steady_probed {probed : FileSystem} {r : Except Exception Bool} {path : Path}
    (h : (canWriteToFile path).run fs = (r, probed)) : Steady fs probed := by
  have hs := canWriteToFile_steady path fs
  rw [h] at hs
  exact hs

theorem AllRun.steady_proofStored (r : AllRun L d o fs fs₁) : Steady fs r.proofStored :=
  (steady_probed r.probe_ok).trans (steady_of_written r.proof_written)

theorem AllRun.steady_jsonTried (r : AllRun L d o fs fs₁) : Steady fs r.jsonTried :=
  r.steady_proofStored.trans r.json_tried.steady

theorem AllRun.saved_writable (r : AllRun L d o fs fs₁) :
    ∀ w ∈ r.saved.writes o, Writable d fs w.1 w.2 := by
  intro w hw
  have hlast := (WritesThrough.exists_iff d r.jsonTried (r.saved.writes o)).mp ⟨_, r.all_saved⟩
  exact (writable_congr r.steady_jsonTried).mp (hlast w hw)

theorem outputs_of_stage {stage : ProverStage} (h : (o.stage, stage) ∈ stageMap) :
    outputs o = stageOutputs o stage := by
  unfold outputs
  rw [proverStageFromString_ok_iff.mpr h]

end ProofProducer
