import ProofProducer.HexFormat
import ProofProducer.Shared.Codec

/-!
# `decode_marshalling_from_file` and `encode_marshalling_to_file`

A marshalling type is a codec. The decoder never asks how far the read went.
-/

namespace ProofProducer

open Effects Files Files.FileSystem Codecs

set_option autoImplicit false

variable {M : Type}

/-- The bytes a file holds, or in hex mode the bytes its text stands for. -/
def heldBytes (fs : FileSystem) (path : Path) (hex : Bool) : Except Exception (Option Bytes) :=
  if hex then readHexFileToVector fs path else readFileToVector fs path

def decodeMarshallingFromFile (codec : Codec Exception M) (fs : FileSystem) (path : Path)
    (hex : Bool) : Except Exception (Option M) :=
  match heldBytes fs path hex with
  | .error e => .error e
  | .ok none => .ok none
  | .ok (some v) =>
    match codec.read v with
    | .error e => .error e
    | .ok none => .ok none
    | .ok (some (marshalledData, _)) => .ok (some marshalledData)

def encodeMarshallingToFile (d : Disk) (codec : Codec Exception M) (path : Path)
    (dataForMarshalling : M) (hex : Bool) : Action FileSystem Exception Bool :=
  match codec.encoding dataForMarshalling with
  | none => pure false
  | some v => if hex then writeVectorToHexFile d v path else writeVectorToFile d v path

theorem decodeMarshallingFromFile_some_iff {codec : Codec Exception M} {fs : FileSystem}
    {path : Path} {hex : Bool} {x : M} :
    decodeMarshallingFromFile codec fs path hex = .ok (some x) ↔
      ∃ v rest, heldBytes fs path hex = .ok (some v) ∧ codec.read v = .ok (some (x, rest)) := by
  unfold decodeMarshallingFromFile
  constructor
  · intro h
    split at h
    · simp at h
    · simp at h
    · rename_i v hv
      split at h
      · simp at h
      · simp at h
      · rename_i m rest hread
        rw [Option.some.inj (Except.ok.inj h)] at hread
        exact ⟨v, rest, hv, hread⟩
  · intro h
    obtain ⟨v, rest, hv, hread⟩ := h
    simp [hv, hread]

/-- An accepted file begins with the encoding of what it decodes to, and holds nothing else
exactly when the read took all of it. -/
theorem decodeMarshallingFromFile_prefix {codec : Codec Exception M} (hcodec : codec.Exact)
    {fs : FileSystem} {path : Path} {hex : Bool} {x : M}
    (h : decodeMarshallingFromFile codec fs path hex = .ok (some x)) :
    ∃ held encoded rest, heldBytes fs path hex = .ok (some held) ∧
      codec.encoding x = some encoded ∧ held = encoded ++ rest ∧
      codec.read held = .ok (some (x, rest)) ∧ (held = encoded ↔ rest = []) := by
  obtain ⟨held, rest, hheld, hread⟩ := decodeMarshallingFromFile_some_iff.mp h
  obtain ⟨encoded, henc, heq⟩ := hcodec hread
  refine ⟨held, encoded, rest, hheld, henc, heq, hread, ?_⟩
  rw [heq]
  exact List.append_right_eq_self

/-- A file holding two bytes. -/
def twoByteFile : FileSystem := FileSystem.empty.store [['p']] [1, 2]

theorem decodeMarshallingFromFile_prefix_twoByteFile :
    ∃ held encoded rest, heldBytes twoByteFile ['p'] false = .ok (some held) ∧
      (Codec.byte Exception).encoding 1 = some encoded ∧ held = encoded ++ rest ∧
      (Codec.byte Exception).read held = .ok (some (1, rest)) ∧ (held = encoded ↔ rest = []) :=
  decodeMarshallingFromFile_prefix (Codec.byte_exact Exception) rfl

/-- The second byte of the file is never looked at. -/
theorem decode_accepts_trailing_bytes :
    ¬ ∀ (codec : Codec Exception UInt8), codec.Exact →
      ∀ (fs : FileSystem) (path : Path) (hex : Bool) (x : UInt8) (held : Bytes),
        decodeMarshallingFromFile codec fs path hex = .ok (some x) →
        heldBytes fs path hex = .ok (some held) → codec.encoding x = some held := by
  intro h
  have henc := h (Codec.byte Exception) (Codec.byte_exact Exception) twoByteFile ['p'] false
    1 [1, 2] rfl rfl
  exact absurd henc (by decide)

end ProofProducer
