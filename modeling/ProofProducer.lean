import ProofProducer.Shared.Action
import ProofProducer.Shared.FileSystem
import ProofProducer.Shared.Resolution
import ProofProducer.Shared.OutputStream
import ProofProducer.Shared.Codec
import ProofProducer.Shared.Numerals
import ProofProducer.Shared.Typestate
import ProofProducer.Shared.Relational
import ProofProducer.Shared.Interleaving
import ProofProducer.Shared.ExtendedReals
import ProofProducer.Shared.Loops
import ProofProducer.FileOperations
import ProofProducer.FileEffects
import ProofProducer.HexFormat
import ProofProducer.Marshalling
import ProofProducer.Crypto3
import ProofProducer.Prover
import ProofProducer.RunProver
import ProofProducer.Writes
import ProofProducer.Artifacts
import ProofProducer.ProverSpec
import ProofProducer.Stages
import ProofProducer.Frames
import ProofProducer.Runs
import ProofProducer.MemberSafety
import ProofProducer.VerifyStage
import ProofProducer.Publication
import ProofProducer.SplitPipeline
import ProofProducer.FileVerification
import ProofProducer.WitnessIndependence
import ProofProducer.FailedOperations
import ProofProducer.HexGrammar
import ProofProducer.HexLayout
import ProofProducer.CompleteWrites
import ProofProducer.Aggregation
import ProofProducer.ProbeEffect
import ProofProducer.ParentPaths
import ProofProducer.ProbePrediction
import ProofProducer.ConcurrentProbes
import ProofProducer.DegreeBound
import ProofProducer.ParseArgs
import ProofProducer.Footprint
import ProofProducer.Isolation
import ProofProducer.Evaluation
import ProofProducer.Lifecycle
import ProofProducer.Histories
import ProofProducer.CommandOptions
import ProofProducer.Main
import ProofProducer.Primitives
import ProofProducer.ArgumentOrder
import ProofProducer.Influence
import ProofProducer.ConcurrentRuns
import ProofProducer.Batch
