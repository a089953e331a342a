import ProofProducer.HexGrammar

/-!
# Layouts of hexadecimal files

The same bytes can be cut into lines in many ways and each digit beyond nine has two spellings.
The reader sees none of that.
-/

namespace ProofProducer

open Effects Files Files.FileSystem Numerals

set_option autoImplicit false

/-- A byte and the case in which each of its digits is written. -/
structure Spelling where
  byte : UInt8
  upperHigh : Bool
  upperLow : Bool
  deriving DecidableEq, Repr

def hexDigit (upper : Bool) (n : Nat) : UInt8 :=
  if upper then (Nat.digitChar n).toUpper.toUInt8 else (Nat.digitChar n).toUInt8

def spell (x : Spelling) : Bytes :=
  [hexDigit x.upperHigh (x.byte.toNat / 16), hexDigit x.upperLow (x.byte.toNat % 16)]

def layoutLine (chunk : List Spelling) : Bytes := hexPrefix ++ chunk.flatMap spell

/-- One line for each chunk; a file without lines has no last one to end. -/
def layout (finalNewline : Bool) : List (List Spelling) → Bytes
  | [] => []
  | [chunk] => layoutLine chunk ++ (if finalNewline then [newline] else [])
  | chunk :: next :: chunks => layoutLine chunk ++ newline :: layout finalNewline (next :: chunks)

/-- The chunks are a cut of the bytes. -/
structure Cuts (chunks : List (List Spelling)) (v : Bytes) : Prop where
  nonempty : ∀ chunk ∈ chunks, chunk ≠ []
  bytes : chunks.flatten.map Spelling.byte = v

theorem digitValue_hexDigit (upper : Bool) {n : Nat} (h : n < 16) :
    digitValue (hexDigit upper n) = some n := by
  have key : ∀ (u : Bool) (k : Fin 16), digitValue (hexDigit u k.val) = some k.val := by decide
  exact key upper ⟨n, h⟩

theorem hexPairs_spell (chunk : List Spelling) :
    HexPairs (chunk.flatMap spell) (chunk.map Spelling.byte) := by
  induction chunk with
  | nil => exact .nil
  | cons x chunk ih =>
    have hx := x.byte.toNat_lt
    have hhigh := digitValue_hexDigit x.upperHigh (n := x.byte.toNat / 16) (by omega)
    have hlow := digitValue_hexDigit x.upperLow (n := x.byte.toNat % 16) (by omega)
    have hbyte : UInt8.ofNat (16 * (x.byte.toNat / 16) + x.byte.toNat % 16) = x.byte := by
      rw [Nat.div_add_mod, UInt8.ofNat_toNat]
    have hpairs := HexPairs.cons hhigh hlow ih
    rw [hbyte] at hpairs
    exact hpairs

theorem hexLine_layoutLine {chunk : List Spelling} (h : chunk ≠ []) :
    HexLine (layoutLine chunk) (chunk.map Spelling.byte) :=
  .mk (hexPairs_spell chunk) fun he => h (List.map_eq_nil_iff.mp he)

/-- Every layout of the bytes has the format. -/
theorem hexFile_layout (finalNewline : Bool) {chunks : List (List Spelling)} {v : Bytes}
    (h : Cuts chunks v) : HexFile (layout finalNewline chunks) v := by
  obtain ⟨hne, rfl⟩ := h
  induction chunks with
  | nil => exact .empty
  | cons chunk chunks ih =>
    obtain ⟨hchunk, hchunks⟩ := List.forall_mem_cons.mp hne
    have hline := hexLine_layoutLine hchunk
    have hrest := ih hchunks
    simp only [List.flatten_cons, List.map_append]
    cases chunks with
    | nil =>
      cases finalNewline with
      | false => simpa [layout] using HexFile.last hline
      | true => exact .line hline .empty
    | cons next chunks => exact .line hline hrest

def lowerCase (b : UInt8) : Spelling := ⟨b, false, false⟩

theorem spell_lowerCase (b : UInt8) : spell (lowerCase b) = formatByte b := by
  rw [formatByte_eq]
  rfl

theorem layoutLine_lowerCase (v : Bytes) : layoutLine (v.map lowerCase) = hexText v := by
  unfold layoutLine hexText
  rw [List.flatMap_map]
  simp only [spell_lowerCase]

theorem cuts_lowerCase {v : Bytes} (h : v ≠ []) : Cuts [v.map lowerCase] v where
  nonempty := by
    intro chunk hm
    rw [List.mem_singleton.mp hm]
    exact fun he => h (List.map_eq_nil_iff.mp he)
  bytes := by
    have hbyte : Spelling.byte ∘ lowerCase = id := rfl
    simp [hbyte]

theorem readHexFileToVector_layout {fs : FileSystem} {path : Path} {finalNewline : Bool}
    {chunks : List (List Spelling)} {v : Bytes} (hcuts : Cuts chunks v)
    (h : fs.content path = some (layout finalNewline chunks)) :
    readHexFileToVector fs path = .ok (some v) := by
  rw [readHexFileToVector_of_content h]
  exact (hexFile_layout finalNewline hcuts).read

/-- Whatever layout the bytes have in a file, they are what is read from it, and what the writer
makes of them is one of the layouts. -/
theorem hex_layouts_read_alike (v : Bytes) :
    (∀ fs path finalNewline chunks, Cuts chunks v →
      fs.content path = some (layout finalNewline chunks) →
      readHexFileToVector fs path = .ok (some v)) ∧
    (∀ fs path finalNewline chunks fs' path' finalNewline' chunks', Cuts chunks v →
      Cuts chunks' v → fs.content path = some (layout finalNewline chunks) →
      fs'.content path' = some (layout finalNewline' chunks') →
      readHexFileToVector fs path = readHexFileToVector fs' path') ∧
    (v ≠ [] → ∃ chunks, Cuts chunks v ∧ layout false chunks = hexText v) := by
  refine ⟨?_, ?_, ?_⟩
  · intro fs path finalNewline chunks hcuts h
    exact readHexFileToVector_layout hcuts h
  · intro fs path finalNewline chunks fs' path' finalNewline' chunks' hcuts hcuts' h h'
    rw [readHexFileToVector_layout hcuts h, readHexFileToVector_layout hcuts' h']
  · intro hne
    refine ⟨[v.map lowerCase], cuts_lowerCase hne, ?_⟩
    simp [layout, layoutLine_lowerCase]

theorem hex_layouts_read_alike_two_lines :
    readHexFileToVector (textFile "0xAB\n0xcd\n".toList) ['p'] = .ok (some [0xAB, 0xCD]) :=
  (hex_layouts_read_alike _).1 _ _ true [[⟨0xAB, true, true⟩], [⟨0xCD, false, false⟩]]
    ⟨by decide, rfl⟩ (by decide)

end ProofProducer
