import ProofProducer.Marshalling

/-!
# The external library

The types and functions of `nil::crypto3` that the producer calls, for one curve and one hash,
as parameters under the names of the source. A function that takes an object by mutable
reference returns the object it leaves behind. What the results rely on is stated as separate
hypotheses, and a small instance satisfies all of them.
-/

namespace ProofProducer

open Files Codecs

set_option autoImplicit false

abbrev SizeT := UInt64

structure Crypto3 where
  ConstraintSystem : Type
  TableDescription : Type
  AssignmentTable : Type
  PublicTable : Type
  PrivateTable : Type
  PublicInputs : Type
  PublicInputSizes : Type
  CommonData : Type
  PublicPreprocessedData : Type
  PrivatePreprocessedData : Type
  FriParams : Type
  LpcScheme : Type
  Proof : Type
  FieldValue : Type
  Transcript : Type
  -- marshalling types
  ConstraintMarshalling : Type
  TableValueMarshalling : Type
  TableDescriptionMarshalling : Type
  CommonDataMarshalling : Type
  PublicPreprocessedDataMarshalling : Type
  CommitmentStateMarshalling : Type
  ProofMarshalling : Type
  ChallengeMarshalling : Type
  plonkConstraintSystem : Codec Exception ConstraintMarshalling
  plonkAssignmentTable : Codec Exception TableValueMarshalling
  plonkAssignmentTableDescription : Codec Exception TableDescriptionMarshalling
  placeholderCommonData : Codec Exception CommonDataMarshalling
  placeholderPreprocessedPublicData : Codec Exception PublicPreprocessedDataMarshalling
  commitmentSchemeState : Codec Exception CommitmentStateMarshalling
  placeholderProof : Codec Exception ProofMarshalling
  fieldElement : Codec Exception ChallengeMarshalling
  -- conversions between objects and marshalling types
  makePlonkConstraintSystem : ConstraintMarshalling → Except Exception ConstraintSystem
  makeAssignmentTable :
    TableValueMarshalling → Except Exception (TableDescription × AssignmentTable)
  makeAssignmentTableDescription : TableDescriptionMarshalling → Except Exception TableDescription
  fillAssignmentTableDescription : TableDescription → Except Exception TableDescriptionMarshalling
  makePlaceholderCommonData : CommonDataMarshalling → Except Exception CommonData
  fillPlaceholderCommonData : CommonData → Except Exception CommonDataMarshalling
  makePlaceholderPreprocessedPublicData :
    PublicPreprocessedDataMarshalling → Except Exception PublicPreprocessedData
  fillPlaceholderPreprocessedPublicData :
    PublicPreprocessedData → Except Exception PublicPreprocessedDataMarshalling
  makeCommitmentScheme : CommitmentStateMarshalling → Except Exception LpcScheme
  fillCommitmentScheme : LpcScheme → Except Exception CommitmentStateMarshalling
  makePlaceholderProof : ProofMarshalling → Except Exception Proof
  fillPlaceholderProof : Proof → FriParams → Except Exception ProofMarshalling
  fieldElementOf : FieldValue → ChallengeMarshalling
  fieldElementValue : ChallengeMarshalling → FieldValue
  -- members of the objects
  rowsAmount : TableDescription → SizeT
  commonData : PublicPreprocessedData → CommonData
  publicInputSizes : ConstraintSystem → PublicInputSizes
  publicInputs : AssignmentTable → PublicInputs
  movePublicTable : AssignmentTable → PublicTable × AssignmentTable
  movePrivateTable : AssignmentTable → PrivateTable × AssignmentTable
  friParams : SizeT → SizeT → SizeT → SizeT → Except Exception FriParams
  lpcScheme : FriParams → Except Exception LpcScheme
  getFriParams : LpcScheme → FriParams
  -- the proof system
  placeholderPublicPreprocessor : ConstraintSystem → PublicTable → TableDescription → LpcScheme →
    SizeT → Except Exception (PublicPreprocessedData × LpcScheme)
  placeholderPrivatePreprocessor : ConstraintSystem → PrivateTable → TableDescription →
    Except Exception PrivatePreprocessedData
  placeholderProver : PublicPreprocessedData → PrivatePreprocessedData → TableDescription →
    ConstraintSystem → LpcScheme → Except Exception (Proof × LpcScheme)
  placeholderVerifier : CommonData → Proof → TableDescription → ConstraintSystem → LpcScheme →
    Except Exception Bool
  generateInput : TableDescription → PublicInputs → Proof → PublicInputSizes →
    Except Exception Bytes
  transcript : Transcript
  absorb : Transcript → FieldValue → Transcript
  challenge : Transcript → FieldValue

namespace Crypto3
variable (L : Crypto3)

/-- Marshalling types are lawful: what is written is read back, and `make` undoes `fill`. -/
structure MarshallingLawful : Prop where
  description : L.plonkAssignmentTableDescription.RoundTrips
  description_make : Undoes L.makeAssignmentTableDescription L.fillAssignmentTableDescription
  common : L.placeholderCommonData.RoundTrips
  common_make : Undoes L.makePlaceholderCommonData L.fillPlaceholderCommonData
  preprocessed : L.placeholderPreprocessedPublicData.RoundTrips
  preprocessed_make :
    Undoes L.makePlaceholderPreprocessedPublicData L.fillPlaceholderPreprocessedPublicData
  scheme : L.commitmentSchemeState.RoundTrips
  scheme_make : Undoes L.makeCommitmentScheme L.fillCommitmentScheme
  proof : L.placeholderProof.RoundTrips
  proof_make : ∀ params, Undoes L.makePlaceholderProof fun π => L.fillPlaceholderProof π params

def VerifierUsesFriParams : Prop := ∀ c π d cs s s', L.getFriParams s = L.getFriParams s' →
  L.placeholderVerifier c π d cs s = L.placeholderVerifier c π d cs s'

/-- Committing to the public table does not change the parameters of the scheme. -/
def PreprocessorKeepsFriParams : Prop := ∀ {cs t d s q r},
  L.placeholderPublicPreprocessor cs t d s q = .ok r → L.getFriParams r.2 = L.getFriParams s

def ProverKeepsScheme : Prop := ∀ {pub priv d cs s r},
  L.placeholderProver pub priv d cs s = .ok r → r.2 = s

/-- Taking the public part out of a table does not affect its private part. -/
def PublicPartSeparate : Prop := ∀ t,
  (L.movePrivateTable (L.movePublicTable t).2).1 = (L.movePrivateTable t).1

/-- The functions that process and fill objects on the way to a proof file return normally. -/
structure ReturnsNormally : Prop where
  placeholderPrivatePreprocessor : ∀ cs t d, ∃ r, L.placeholderPrivatePreprocessor cs t d = .ok r
  placeholderProver : ∀ pub priv d cs s, ∃ r, L.placeholderProver pub priv d cs s = .ok r
  fillPlaceholderProof : ∀ π f, ∃ r, L.fillPlaceholderProof π f = .ok r

end Crypto3

/-- Circuits, descriptions, schemes and proofs are bytes, and a table is its public byte, which
is also its row count, followed by its private byte. The verifier refuses the proof 0. -/
def Crypto3.small : Crypto3 where
  ConstraintSystem := UInt8
  TableDescription := UInt8
  AssignmentTable := UInt8 × UInt8
  PublicTable := UInt8
  PrivateTable := UInt8
  PublicInputs := UInt8
  PublicInputSizes := Unit
  CommonData := UInt8
  PublicPreprocessedData := UInt8
  PrivatePreprocessedData := UInt8
  FriParams := UInt8
  LpcScheme := UInt8
  Proof := UInt8
  FieldValue := UInt8
  Transcript := UInt8
  ConstraintMarshalling := UInt8
  TableValueMarshalling := UInt8 × UInt8
  TableDescriptionMarshalling := UInt8
  CommonDataMarshalling := UInt8
  PublicPreprocessedDataMarshalling := UInt8
  CommitmentStateMarshalling := UInt8
  ProofMarshalling := UInt8
  ChallengeMarshalling := UInt8
  plonkConstraintSystem := .byte Exception
  plonkAssignmentTable := (Codec.byte Exception).pair (.byte Exception)
  plonkAssignmentTableDescription := .byte Exception
  placeholderCommonData := .byte Exception
  placeholderPreprocessedPublicData := .byte Exception
  commitmentSchemeState := .byte Exception
  placeholderProof := .byte Exception
  fieldElement := .byte Exception
  makePlonkConstraintSystem := .ok
  makeAssignmentTable m := .ok (m.1, m)
  makeAssignmentTableDescription := .ok
  fillAssignmentTableDescription := .ok
  makePlaceholderCommonData := .ok
  fillPlaceholderCommonData := .ok
  makePlaceholderPreprocessedPublicData := .ok
  fillPlaceholderPreprocessedPublicData := .ok
  makeCommitmentScheme := .ok
  fillCommitmentScheme := .ok
  makePlaceholderProof := .ok
  fillPlaceholderProof π _ := .ok π
  fieldElementOf := id
  fieldElementValue := id
  rowsAmount d := d.toUInt64
  commonData := id
  publicInputSizes _ := ()
  publicInputs t := t.1
  movePublicTable t := (t.1, (0, t.2))
  movePrivateTable t := (t.2, (t.1, 0))
  friParams step degree lambda expand := .ok (step + degree + lambda + expand).toUInt8
  lpcScheme := .ok
  getFriParams := id
  placeholderPublicPreprocessor cs t _ s _ := .ok (cs + t, s)
  placeholderPrivatePreprocessor _ t _ := .ok t
  placeholderProver pub priv _ _ s := .ok (pub + priv, s)
  placeholderVerifier _ π _ _ _ := .ok (π ≠ 0)
  generateInput _ inputs π _ := .ok [inputs, π]
  transcript := 0
  absorb t v := 3 * t + v
  challenge := id

namespace Crypto3

theorem small_marshallingLawful : small.MarshallingLawful where
  description := Codec.byte_roundTrips Exception
  description_make x := ⟨x, rfl, rfl⟩
  common := Codec.byte_roundTrips Exception
  common_make x := ⟨x, rfl, rfl⟩
  preprocessed := Codec.byte_roundTrips Exception
  preprocessed_make x := ⟨x, rfl, rfl⟩
  scheme := Codec.byte_roundTrips Exception
  scheme_make x := ⟨x, rfl, rfl⟩
  proof := Codec.byte_roundTrips Exception
  proof_make _ x := ⟨x, rfl, rfl⟩

theorem small_verifierUsesFriParams : small.VerifierUsesFriParams := fun _ _ _ _ _ _ _ => rfl

theorem small_preprocessorKeepsFriParams : small.PreprocessorKeepsFriParams := by
  intro cs t d s q r h
  rw [← Except.ok.inj h]

theorem small_proverKeepsScheme : small.ProverKeepsScheme := by
  intro pub priv d cs s r h
  rw [← Except.ok.inj h]

theorem small_publicPartSeparate : small.PublicPartSeparate := fun _ => rfl

theorem small_returnsNormally : small.ReturnsNormally where
  placeholderPrivatePreprocessor _ t _ := ⟨t, rfl⟩
  placeholderProver _ _ _ _ _ := ⟨_, rfl⟩
  fillPlaceholderProof π _ := ⟨π, rfl⟩

end Crypto3
end ProofProducer
