import ProofProducer.Prover

/-!
# `run_prover`

The stages of `main.cpp`, each the short-circuit conjunction of its steps, and the exit code of
a run. The library stands for the curve and the hash the options select. The log level is left
out.
-/

namespace ProofProducer

open Effects Files Files.FileSystem

set_option autoImplicit false

inductive ProverStage where
  | all
  | preprocess
  | prove
  | verify
  | generateAggregatedChallenge
  deriving DecidableEq, Repr

def stageMap : List (String × ProverStage) :=
  [("all", .all), ("preprocess", .preprocess), ("prove", .prove), ("verify", .verify),
    ("generate-aggregated-challenge", .generateAggregatedChallenge)]

def proverStageFromString (stage : String) : Except Exception ProverStage :=
  match stageMap.lookup stage with
  | some s => .ok s
  | none => .error ⟨"Invalid stage: " ++ stage⟩

structure ProverOptions where
  stage : String := "all"
  proofFilePath : Path := "proof.bin".toList
  jsonFilePath : Path := "proof.json".toList
  preprocessedCommonDataPath : Path := "preprocessed_common_data.dat".toList
  preprocessedPublicDataPath : Path := "preprocessed_data.dat".toList
  commitmentSchemeStatePath : Path := "commitment_scheme_state.dat".toList
  circuitFilePath : Path := []
  assignmentTableFilePath : Path := []
  assignmentDescriptionFilePath : Path := []
  inputChallengeFiles : List Path := []
  aggregatedChallengeFile : Path := "aggregated_challenge.dat".toList
  lambda : SizeT := 9
  grind : SizeT := 69
  expandFactor : SizeT := 2
  maxQuotientChunks : SizeT := 0

section Stages
variable (L : Crypto3) (d : Disk) (o : ProverOptions)

def stageSteps : ProverStage → List (Step L Bool)
  | .all =>
    [Prover.readCircuit o.circuitFilePath,
      Prover.readAssignmentTable o.assignmentTableFilePath,
      Prover.preprocessPublicData,
      Prover.preprocessPrivateData,
      Prover.generateToFile d o.proofFilePath o.jsonFilePath false,
      Prover.savePreprocessedCommonDataToFile d o.preprocessedCommonDataPath,
      Prover.savePublicPreprocessedDataToFile d o.preprocessedPublicDataPath,
      Prover.saveCommitmentStateToFile d o.commitmentSchemeStatePath]
  | .preprocess =>
    [Prover.readCircuit o.circuitFilePath,
      Prover.readAssignmentTable o.assignmentTableFilePath,
      Prover.saveAssignmentDescription d o.assignmentDescriptionFilePath,
      Prover.preprocessPublicData,
      Prover.savePreprocessedCommonDataToFile d o.preprocessedCommonDataPath,
      Prover.savePublicPreprocessedDataToFile d o.preprocessedPublicDataPath,
      Prover.saveCommitmentStateToFile d o.commitmentSchemeStatePath]
  | .prove =>
    [Prover.readCircuit o.circuitFilePath,
      Prover.readAssignmentTable o.assignmentTableFilePath,
      Prover.readPublicPreprocessedDataFromFile o.preprocessedPublicDataPath,
      Prover.readCommitmentSchemeFromFile o.commitmentSchemeStatePath,
      Prover.preprocessPrivateData,
      Prover.generateToFile d o.proofFilePath o.jsonFilePath true]
  | .verify =>
    [Prover.readCircuit o.circuitFilePath,
      Prover.readPreprocessedCommonDataFromFile o.preprocessedCommonDataPath,
      Prover.readAssignmentDescription o.assignmentDescriptionFilePath,
      Prover.verifyFromFile o.proofFilePath]
  | .generateAggregatedChallenge =>
    [Prover.generateAggregatedChallengeToFile d o.inputChallengeFiles o.aggregatedChallengeFile]

/-- The body of the `try` block. -/
def proverTask : Step L Bool := do
  let stage ← Prover.external (proverStageFromString o.stage)
  Action.allOf (stageSteps L d o stage)

def initialSession (fs : FileSystem) : Session L :=
  ⟨Prover.new L o.lambda o.expandFactor o.maxQuotientChunks o.grind, fs⟩

end Stages

inductive Outcome where
  | exit (code : Nat)
  | undefined (f : Fault)
  deriving DecidableEq, Repr

def Outcome.ofResult : Except Stop Bool → Outcome
  | .ok proverResult => .exit (if proverResult then 0 else 1)
  | .error (.thrown _) => .exit 1
  | .error (.undefined f) => .undefined f

/-- A run, with the files it leaves; after undefined behaviour, the files at that point. -/
def runProver (L : Crypto3) (d : Disk) (o : ProverOptions) (fs : FileSystem) :
    Outcome × FileSystem :=
  match (proverTask L d o).run (initialSession L o fs) with
  | (result, session) => (.ofResult result, session.files)

/-- A circuit `c` and an assignment table `t` for the small library. -/
def smallFiles : FileSystem := (FileSystem.empty.store [['c']] [5]).store [['t']] [2, 3]

def smallOptions (stage : String) : ProverOptions where
  stage := stage
  proofFilePath := ['p']
  jsonFilePath := ['j']
  preprocessedCommonDataPath := ['m']
  preprocessedPublicDataPath := ['r']
  commitmentSchemeStatePath := ['s']
  circuitFilePath := ['c']
  assignmentTableFilePath := ['t']
  assignmentDescriptionFilePath := ['d']

/-- What a run of one stage leaves in it. -/
def filesAfter (stage : String) (fs : FileSystem) : FileSystem :=
  (runProver .small .reliable (smallOptions stage) fs).2

theorem runProver_small {stage : String} {fs : FileSystem}
    (h : (runProver .small .reliable (smallOptions stage) fs).1 = .exit 0) :
    runProver .small .reliable (smallOptions stage) fs = (.exit 0, filesAfter stage fs) := by
  have hfiles : (runProver .small .reliable (smallOptions stage) fs).2 = filesAfter stage fs := rfl
  rw [← h, ← hfiles]

end ProofProducer
