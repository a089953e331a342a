import ProofProducer.Writes
import ProofProducer.Crypto3

/-!
# The artifacts of the producer

An artifact is an object in a file: its marshalling type, made into the object after it is
decoded and filled from it before it is encoded. What is written for an object is read back as
that object.
-/

namespace ProofProducer

open Effects Files Files.FileSystem Codecs

set_option autoImplicit false

variable {M α : Type} {codec : Codec Exception M} {make : M → Except Exception α}
  {fill : α → Except Exception M} {a : α} {v c : Bytes} {fs fs₁ : FileSystem} {path : Path}
  {hex : Bool}

/-- The object a file decodes to. -/
def objectIn (codec : Codec Exception M) (make : M → Except Exception α) (fs : FileSystem)
    (path : Path) (hex : Bool) : Except Exception (Option α) :=
  match decodeMarshallingFromFile codec fs path hex with
  | .error e => .error e
  | .ok none => .ok none
  | .ok (some m) => (make m).map some

/-- The bytes an object is encoded to. -/
def bytesOf (codec : Codec Exception M) (fill : α → Except Exception M) (a : α) :
    Except Exception (Option Bytes) := (fill a).map codec.encoding

theorem objectIn_some_iff : objectIn codec make fs path hex = .ok (some a) ↔
    ∃ m, decodeMarshallingFromFile codec fs path hex = .ok (some m) ∧ make m = .ok a := by
  unfold objectIn
  rcases decodeMarshallingFromFile codec fs path hex with e | m
  · simp
  cases m with
  | none => simp
  | some m =>
    cases hm : make m with
    | error e => simp [Except.map, hm]
    | ok b => simp [Except.map, hm]

theorem bytesOf_some_iff : bytesOf codec fill a = .ok (some v) ↔
    ∃ m, fill a = .ok m ∧ codec.encoding m = some v := by
  unfold bytesOf
  cases hf : fill a with
  | error e => simp [Except.map]
  | ok m => simp [Except.map]

theorem heldBytes_congr (h : fs₁.lookup path = fs.lookup path) :
    heldBytes fs₁ path hex = heldBytes fs path hex := by
  simp only [heldBytes, readHexFileToVector, readFileToVector, h]

theorem objectIn_congr (h : fs₁.lookup path = fs.lookup path) :
    objectIn codec make fs₁ path hex = objectIn codec make fs path hex := by
  simp only [objectIn, decodeMarshallingFromFile, heldBytes_congr h]

theorem heldBytes_of_content (h : fs.content path = some c) :
    heldBytes fs path hex = if hex then readHexLines (lines c) else .ok (some c) := by
  unfold heldBytes
  cases hex with
  | true => exact readHexFileToVector_of_content h
  | false =>
    unfold FileSystem.content at h
    split at h
    · rename_i c' w hl
      simp [readFileToVector, hl, Option.some.inj h]
    · simp at h

theorem objectIn_of_content_eq (h : fs.content path = some c) (h₁ : fs₁.content path = some c) :
    objectIn codec make fs₁ path hex = objectIn codec make fs path hex := by
  simp only [objectIn, decodeMarshallingFromFile, heldBytes_of_content h,
    heldBytes_of_content h₁]

/-- The binary reader finds an object in files only. -/
theorem content_of_objectIn (h : objectIn codec make fs path false = .ok (some a)) :
    ∃ c, fs.content path = some c := by
  obtain ⟨m, hm, _⟩ := objectIn_some_iff.mp h
  obtain ⟨held, rest, hheld, _⟩ := decodeMarshallingFromFile_some_iff.mp hm
  have hread : readFileToVector fs path = .ok (some held) := hheld
  unfold readFileToVector at hread
  split at hread
  · simp at hread
  · simp at hread
  · rename_i c w hl
    exact ⟨c, content_of_lookup hl⟩

theorem bytesOf_total (hcodec : codec.RoundTrips) (hmake : Undoes make fill) (a : α) :
    ∃ v, bytesOf codec fill a = .ok (some v) := by
  obtain ⟨m, hf, _⟩ := hmake a
  obtain ⟨v, hv⟩ := hcodec.total m
  exact ⟨v, bytesOf_some_iff.mpr ⟨m, hf, hv⟩⟩

theorem objectIn_of_held (hcodec : codec.RoundTrips) (hmake : Undoes make fill)
    (hb : bytesOf codec fill a = .ok (some v)) (hheld : heldBytes fs path hex = .ok (some v)) :
    objectIn codec make fs path hex = .ok (some a) := by
  obtain ⟨m, hf, hv⟩ := bytesOf_some_iff.mp hb
  refine objectIn_some_iff.mpr ⟨m, ?_, hmake.make_of_fill hf⟩
  exact decodeMarshallingFromFile_some_iff.mpr ⟨v, [], hheld, hcodec.read_encoding hv⟩

theorem objectIn_of_bytesOf (hcodec : codec.RoundTrips) (hmake : Undoes make fill)
    (hb : bytesOf codec fill a = .ok (some v)) (hc : fs.content path = some v) :
    objectIn codec make fs path false = .ok (some a) := by
  apply objectIn_of_held hcodec hmake hb
  rw [heldBytes_of_content hc]
  rfl

/-- In hex mode this needs the encoding to be non-empty. -/
theorem objectIn_hex_of_bytesOf (hcodec : codec.RoundTrips) (hmake : Undoes make fill)
    (hb : bytesOf codec fill a = .ok (some v)) (hc : fs.content path = some (hexText v)) :
    objectIn codec make fs path true = .ok (some a) := by
  apply objectIn_of_held hcodec hmake hb
  obtain ⟨m, _, hv⟩ := bytesOf_some_iff.mp hb
  have hne : v ≠ [] := hcodec.nonempty hv
  rw [heldBytes_of_content hc, if_pos rfl, readHexLines_hexText, if_neg hne]

namespace Crypto3
variable (L : Crypto3)

def circuitIn (fs : FileSystem) (p : Path) : Except Exception (Option L.ConstraintSystem) :=
  objectIn L.plonkConstraintSystem L.makePlonkConstraintSystem fs p false

def tableIn (fs : FileSystem) (p : Path) :
    Except Exception (Option (L.TableDescription × L.AssignmentTable)) :=
  objectIn L.plonkAssignmentTable L.makeAssignmentTable fs p false

def descriptionIn (fs : FileSystem) (p : Path) : Except Exception (Option L.TableDescription) :=
  objectIn L.plonkAssignmentTableDescription L.makeAssignmentTableDescription fs p false

def commonDataIn (fs : FileSystem) (p : Path) : Except Exception (Option L.CommonData) :=
  objectIn L.placeholderCommonData L.makePlaceholderCommonData fs p false

def preprocessedIn (fs : FileSystem) (p : Path) :
    Except Exception (Option L.PublicPreprocessedData) :=
  objectIn L.placeholderPreprocessedPublicData L.makePlaceholderPreprocessedPublicData fs p false

def schemeIn (fs : FileSystem) (p : Path) : Except Exception (Option L.LpcScheme) :=
  objectIn L.commitmentSchemeState L.makeCommitmentScheme fs p false

def proofIn (fs : FileSystem) (p : Path) : Except Exception (Option L.Proof) :=
  objectIn L.placeholderProof L.makePlaceholderProof fs p true

def descriptionBytes : L.TableDescription → Except Exception (Option Bytes) :=
  bytesOf L.plonkAssignmentTableDescription L.fillAssignmentTableDescription

def commonDataBytes : L.CommonData → Except Exception (Option Bytes) :=
  bytesOf L.placeholderCommonData L.fillPlaceholderCommonData

def preprocessedBytes : L.PublicPreprocessedData → Except Exception (Option Bytes) :=
  bytesOf L.placeholderPreprocessedPublicData L.fillPlaceholderPreprocessedPublicData

def schemeBytes : L.LpcScheme → Except Exception (Option Bytes) :=
  bytesOf L.commitmentSchemeState L.fillCommitmentScheme

def proofBytes (π : L.Proof) (params : L.FriParams) : Except Exception (Option Bytes) :=
  bytesOf L.placeholderProof (fun π => L.fillPlaceholderProof π params) π

end Crypto3
end ProofProducer
