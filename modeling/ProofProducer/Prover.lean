import ProofProducer.Crypto3
import Mathlib.Data.Nat.Log

/-!
# The `Prover` class

Its eight optional members and every method of it, over a session made of the object and the
file system it works on. Reading an empty optional is undefined behaviour, and the session stops
there with the fault. Reading a part of the assignment table that has been moved out is not, but a
session stops there as well, by convention, so that such a read shows. The arguments of a call are
evaluated from left to right, one of the orders that C++ leaves open; `Evaluation` has the others.
`BOOST_ASSERT` is compiled out in release builds and is left out.
-/

namespace ProofProducer

open Effects Files Codecs

set_option autoImplicit false

inductive Member where
  | publicPreprocessedData
  | commonData
  | privatePreprocessedData
  | publicInputs
  | tableDescription
  | constraintSystem
  | assignmentTable
  | lpcScheme
  deriving DecidableEq, Repr

inductive TablePart where
  | publicPart
  | privatePart
  deriving DecidableEq, Repr

inductive Fault where
  | emptyOptional (m : Member)
  | movedFrom (p : TablePart)
  | conversionOutOfRange
  deriving DecidableEq, Repr

inductive Stop where
  | thrown (e : Exception)
  | undefined (f : Fault)
  deriving DecidableEq, Repr

/-- An assignment table together with which of its parts have been moved out. -/
structure TableSlot (L : Crypto3) where
  table : L.AssignmentTable
  publicMoved : Bool
  privateMoved : Bool

structure Prover (L : Crypto3) where
  expandFactor : SizeT
  maxQuotientChunks : SizeT
  lambda : SizeT
  grind : SizeT
  publicPreprocessedData : Option L.PublicPreprocessedData
  commonData : Option L.CommonData
  privatePreprocessedData : Option L.PrivatePreprocessedData
  publicInputs : Option L.PublicInputs
  tableDescription : Option L.TableDescription
  constraintSystem : Option L.ConstraintSystem
  assignmentTable : Option (TableSlot L)
  lpcScheme : Option L.LpcScheme

structure Session (L : Crypto3) where
  prover : Prover L
  files : FileSystem

/-- The constructor: every optional is empty. -/
def Prover.new (L : Crypto3) (lambda expandFactor maxQChunks grind : SizeT) : Prover L where
  expandFactor := expandFactor
  maxQuotientChunks := maxQChunks
  lambda := lambda
  grind := grind
  publicPreprocessedData := none
  commonData := none
  privatePreprocessedData := none
  publicInputs := none
  tableDescription := none
  constraintSystem := none
  assignmentTable := none
  lpcScheme := none

abbrev Step (L : Crypto3) := Action (Session L) Stop

namespace Prover

variable {L : Crypto3} {α M : Type}

def onFiles (m : Action FileSystem Exception α) : Step L α :=
  m.focus Session.files (fun s fs => { s with files := fs }) Stop.thrown

def external (r : Except Exception α) : Step L α := Action.observe fun _ => r.mapError Stop.thrown

def reads (f : FileSystem → Except Exception α) : Step L α :=
  Action.observe fun s => (f s.files).mapError Stop.thrown

def self : Step L (Prover L) := Action.observe fun s => .ok s.prover

/-- `operator*` of an optional member -/
def deref (m : Member) (get : Prover L → Option α) : Step L α := Action.observe fun s =>
  match get s.prover with
  | some a => .ok a
  | none => .error (.undefined (.emptyOptional m))

def update (f : Prover L → Prover L) : Step L Unit :=
  Action.modify fun s => { s with prover := f s.prover }

/-- A part of the table. One that has been moved out stops the session. -/
def ofPart (p : TablePart) (moved : Bool) (a : α) : Step L α :=
  if moved then Action.stop (.undefined (.movedFrom p)) else pure a

def derefTable : Step L (TableSlot L) := deref .assignmentTable assignmentTable

/-- Decode a file, convert the value and put it into the object. -/
def readMember (codec : Codec Exception M) (make : M → Except Exception α)
    (emplace : α → Prover L → Prover L) (path : Path) : Step L Bool := do
  match ← reads fun fs => decodeMarshallingFromFile codec fs path false with
  | none => return false
  | some marshalledValue =>
    let a ← external (make marshalledValue)
    update (emplace a)
    return true

def readCircuit : Path → Step L Bool :=
  readMember L.plonkConstraintSystem L.makePlonkConstraintSystem
    fun cs p => { p with constraintSystem := some cs }

def readAssignmentTable : Path → Step L Bool :=
  readMember L.plonkAssignmentTable L.makeAssignmentTable fun r p =>
    { p with tableDescription := some r.1, assignmentTable := some ⟨r.2, false, false⟩ }

def readAssignmentDescription : Path → Step L Bool :=
  readMember L.plonkAssignmentTableDescription L.makeAssignmentTableDescription
    fun d p => { p with tableDescription := some d }

def readPreprocessedCommonDataFromFile : Path → Step L Bool :=
  readMember L.placeholderCommonData L.makePlaceholderCommonData
    fun c p => { p with commonData := some c }

def readPublicPreprocessedDataFromFile : Path → Step L Bool :=
  readMember L.placeholderPreprocessedPublicData L.makePlaceholderPreprocessedPublicData
    fun d p => { p with publicPreprocessedData := some d }

def readCommitmentSchemeFromFile : Path → Step L Bool :=
  readMember L.commitmentSchemeState L.makeCommitmentScheme
    fun s p => { p with lpcScheme := some s }

/-- Convert an object and encode it into a file. -/
def saveObject (d : Disk) (codec : Codec Exception M) (object : Step L α)
    (fill : α → Except Exception M) (path : Path) : Step L Bool := do
  let a ← object
  let marshalled ← external (fill a)
  onFiles (encodeMarshallingToFile d codec path marshalled false)

def savePreprocessedCommonDataToFile (d : Disk) : Path → Step L Bool :=
  saveObject d L.placeholderCommonData
    (deref .publicPreprocessedData fun p => p.publicPreprocessedData.map L.commonData)
    L.fillPlaceholderCommonData

def savePublicPreprocessedDataToFile (d : Disk) : Path → Step L Bool :=
  saveObject d L.placeholderPreprocessedPublicData
    (deref .publicPreprocessedData publicPreprocessedData)
    L.fillPlaceholderPreprocessedPublicData

def saveCommitmentStateToFile (d : Disk) : Path → Step L Bool :=
  saveObject d L.commitmentSchemeState (deref .lpcScheme lpcScheme) L.fillCommitmentScheme

def saveAssignmentDescription (d : Disk) : Path → Step L Bool :=
  saveObject d L.plonkAssignmentTableDescription (deref .tableDescription tableDescription)
    L.fillAssignmentTableDescription

/-- `std::ceil(std::log2(rows))`; the logarithm of zero is minus infinity. -/
def ceilLog2 (rows : SizeT) : Option Nat :=
  if rows = 0 then none else some (Nat.clog 2 rows.toNat)

/-- `lpc_scheme_.emplace(params)`; the old scheme is destroyed before the new one is made. -/
def emplaceLpcScheme (params : L.FriParams) : Step L Unit := do
  update fun p => { p with lpcScheme := none }
  let scheme ← external (L.lpcScheme params)
  update fun p => { p with lpcScheme := some scheme }

def createLpcScheme : Step L Unit := do
  let description ← deref .tableDescription tableDescription
  match ceilLog2 (L.rowsAmount description) with
  | none => Action.stop (.undefined .conversionOutOfRange)
  | some tableRowsLog =>
    let p ← self
    let params ← external (L.friParams 1 (UInt64.ofNat tableRowsLog) p.lambda p.expandFactor)
    emplaceLpcScheme params

def movePublicTable : Step L L.PublicTable := do
  let slot ← derefTable
  let (part, table) ← ofPart .publicPart slot.publicMoved (L.movePublicTable slot.table)
  update fun p => { p with assignmentTable := some ⟨table, true, slot.privateMoved⟩ }
  return part

def movePrivateTable : Step L L.PrivateTable := do
  let slot ← derefTable
  let (part, table) ← ofPart .privatePart slot.privateMoved (L.movePrivateTable slot.table)
  update fun p => { p with assignmentTable := some ⟨table, slot.publicMoved, true⟩ }
  return part

def preprocessPublicData : Step L Bool := do
  let slot ← derefTable
  let inputs ← ofPart .publicPart slot.publicMoved (L.publicInputs slot.table)
  update fun p => { p with publicInputs := some inputs }
  createLpcScheme
  let cs ← deref .constraintSystem constraintSystem
  let publicTable ← movePublicTable
  let description ← deref .tableDescription tableDescription
  let scheme ← deref .lpcScheme lpcScheme
  let p ← self
  let (data, scheme') ← external
    (L.placeholderPublicPreprocessor cs publicTable description scheme p.maxQuotientChunks)
  update fun p => { p with lpcScheme := some scheme', publicPreprocessedData := some data }
  return true

/-- As everywhere here, the arguments of `process` are evaluated from left to right. -/
def preprocessPrivateData : Step L Bool := do
  let cs ← deref .constraintSystem constraintSystem
  let privateTable ← movePrivateTable
  let description ← deref .tableDescription tableDescription
  let data ← external (L.placeholderPrivatePreprocessor cs privateTable description)
  update fun p => { p with privatePreprocessedData := some data, assignmentTable := none }
  return true

def verify (proof : L.Proof) : Step L Bool := do
  let p ← self
  let common ← match p.publicPreprocessedData with
    | some data => pure (L.commonData data)
    | none => deref .commonData commonData
  let description ← deref .tableDescription tableDescription
  let cs ← deref .constraintSystem constraintSystem
  let scheme ← deref .lpcScheme lpcScheme
  external (L.placeholderVerifier common proof description cs scheme)

def verifyFromFile (proofFile : Path) : Step L Bool := do
  createLpcScheme
  match ← reads fun fs => decodeMarshallingFromFile L.placeholderProof fs proofFile true with
  | none => return false
  | some marshalledProof =>
    let proof ← external (L.makePlaceholderProof marshalledProof)
    verify proof

/-- `generate_to_file` up to and including verification, with the arguments of `process` from left
to right. -/
def acceptProof (proofFile : Path) (skipVerification : Bool) : Step L (Option L.Proof) := do
  if !(← onFiles (canWriteToFile proofFile)) then return none
  let publicData ← deref .publicPreprocessedData publicPreprocessedData
  let privateData ← deref .privatePreprocessedData privatePreprocessedData
  let description ← deref .tableDescription tableDescription
  let cs ← deref .constraintSystem constraintSystem
  let scheme ← deref .lpcScheme lpcScheme
  let (proof, scheme') ← external
    (L.placeholderProver publicData privateData description cs scheme)
  update fun p => { p with lpcScheme := some scheme' }
  if skipVerification then return some proof
  if ← verify proof then return some proof else return none

/-- The rest of `generate_to_file`: a failure to write the proof does not keep the JSON file
from being written, and only the former is returned. -/
def publishProof (d : Disk) (proofFile jsonFile : Path) (proof : L.Proof) : Step L Bool := do
  let scheme ← deref .lpcScheme lpcScheme
  let filled ← external (L.fillPlaceholderProof proof (L.getFriParams scheme))
  let res ← onFiles (encodeMarshallingToFile d L.placeholderProof proofFile filled true)
  match ← onFiles (openOutputFile jsonFile) with
  | none => return res
  | some l =>
    let description ← deref .tableDescription tableDescription
    let inputs ← deref .publicInputs publicInputs
    let cs ← deref .constraintSystem constraintSystem
    let text ← external (L.generateInput description inputs proof (L.publicInputSizes cs))
    let _ ← onFiles (writeStream d jsonFile l text)
    return res

def generateToFile (d : Disk) (proofFile jsonFile : Path) (skipVerification : Bool) :
    Step L Bool := do
  match ← acceptProof proofFile skipVerification with
  | none => return false
  | some proof => publishProof d proofFile jsonFile proof

/-- Decode the challenges one after the other and absorb them into the transcript. -/
def absorbChallenges (L : Crypto3) (fs : FileSystem) :
    List Path → L.Transcript → Except Exception (Option L.Transcript)
  | [], transcript => .ok (some transcript)
  | inputFile :: inputFiles, transcript =>
    match decodeMarshallingFromFile L.fieldElement fs inputFile false with
    | .error e => .error e
    | .ok none => .ok none
    | .ok (some c) =>
      absorbChallenges L fs inputFiles (L.absorb transcript (L.fieldElementValue c))

def generateAggregatedChallengeToFile (d : Disk) (aggregateInputFiles : List Path)
    (aggregatedChallengeFile : Path) : Step L Bool := do
  if aggregateInputFiles = [] then return false
  if !(← reads fun fs => .ok (aggregateInputFiles.all (canReadFromFile fs))) then return false
  match ← reads fun fs => absorbChallenges L fs aggregateInputFiles L.transcript with
  | none => return false
  | some transcript =>
    onFiles (encodeMarshallingToFile d L.fieldElement aggregatedChallengeFile
      (L.fieldElementOf (L.challenge transcript)) false)

end Prover
end ProofProducer
