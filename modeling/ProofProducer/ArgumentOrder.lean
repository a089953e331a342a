import ProofProducer.Primitives

/-!
# Runs with arguments in any order

A run that ends with an exit code under one order of arguments ends with the same code and the
same files under every other. Orders can only differ in the member that undefined behaviour is
blamed on.
-/

namespace ProofProducer

open Effects Files Codecs

set_option autoImplicit false

variable {L : Crypto3} {d : Disk} {o : ProverOptions} {fs : FileSystem} {α : Type}
  {v : Evaluation}

namespace Evaluation

def proverTask (v : Evaluation) (L : Crypto3) (d : Disk) (o : ProverOptions) : Step L Bool := do
  let stage ← Prover.external (proverStageFromString o.stage)
  Action.allOf ((stageCalls L o stage).map (v.run d))

/-- A run with the arguments of every call in the order of the evaluation. -/
def runProver (v : Evaluation) (L : Crypto3) (d : Disk) (o : ProverOptions) (fs : FileSystem) :
    Outcome × FileSystem :=
  match (v.proverTask L d o).run (initialSession L o fs) with
  | (result, session) => (.ofResult result, session.files)

end Evaluation

end ProofProducer
