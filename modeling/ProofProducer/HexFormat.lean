import ProofProducer.FileEffects
import ProofProducer.Shared.Numerals

/-!
# The hexadecimal file format

`read_hex_file_to_vector` and `write_vector_to_hex_file`. The writer puts everything on one
line that no newline ends; the reader takes any number of lines.
-/

namespace ProofProducer

open Effects Files Files.FileSystem Numerals

set_option autoImplicit false

def hexPrefix : Bytes := ['0'.toUInt8, 'x'.toUInt8]

def newline : UInt8 := '\n'.toUInt8

/-- `std::setfill('0') << std::setw(2) << std::right << int(byte)` after `std::hex` -/
def formatByte (b : UInt8) : Bytes := padLeft 2 '0'.toUInt8 (hexDigits b.toNat)

/-- Everything the writer gives to its stream. -/
def hexText (v : Bytes) : Bytes := hexPrefix ++ v.flatMap formatByte

def writeVectorToHexFile (d : Disk) (v : Bytes) (path : Path) :
    Action FileSystem Exception Bool := do
  match ← openOutputFile path with
  | none => return false
  | some l => writeStream d path l (hexText v)

/-- The lines `std::getline` yields one after the other. -/
def lines : Bytes → List Bytes
  | [] => []
  | b :: text =>
    if b = newline then [] :: lines text else
      match lines text with
      | [] => [[b]]
      | line :: rest => (b :: line) :: rest

def readByte (s : Bytes) : Except Exception UInt8 :=
  match stoul s with
  | .ok n => .ok (UInt8.ofNat n)
  | .error _ => .error ⟨"stoul"⟩

/-- The loop over `line.substr(i, 2)`; the last slice of an odd line has one character. -/
def readPairs : Bytes → Except Exception Bytes
  | [] => .ok []
  | [a] => (readByte [a]).map fun x => [x]
  | a :: b :: s =>
    match readByte [a, b] with
    | .error e => .error e
    | .ok x => (readPairs s).map (x :: ·)

def readHexLines : List Bytes → Except Exception (Option Bytes)
  | [] => .ok (some [])
  | line :: rest =>
    if hexPrefix.isPrefixOf line && 3 ≤ line.length then
      match readPairs (line.drop 2) with
      | .error e => .error e
      | .ok bytes => (readHexLines rest).map (Option.map (bytes ++ ·))
    else .ok none

/-- Reading a directory fails at the first `std::getline`, which ends the loop. -/
def readHexFileToVector (fs : FileSystem) (path : Path) : Except Exception (Option Bytes) :=
  match fs.lookup path with
  | none => .ok none
  | some (.directory _) => readHexLines []
  | some (.file c _) => readHexLines (lines c)

theorem formatByte_eq (b : UInt8) : formatByte b =
    [(Nat.digitChar (b.toNat / 16)).toUInt8, (Nat.digitChar (b.toNat % 16)).toUInt8] :=
  padLeft_hexDigits b.toNat_lt

theorem readPairs_formatByte (b : UInt8) (s : Bytes) :
    readPairs (formatByte b ++ s) = (readPairs s).map (b :: ·) := by
  have hb := b.toNat_lt
  have hhigh : b.toNat / 16 < 16 := by omega
  have hlow : b.toNat % 16 < 16 := by omega
  have hpair := stoul_pair (digitValue_digitChar hhigh) (digitValue_digitChar hlow)
  have hbyte : UInt8.ofNat (16 * (b.toNat / 16) + b.toNat % 16) = b := by
    rw [Nat.div_add_mod, UInt8.ofNat_toNat]
  rw [formatByte_eq]
  simp only [List.cons_append, List.nil_append, readPairs, readByte, hpair, hbyte]

theorem readPairs_flatMap (v : Bytes) : readPairs (v.flatMap formatByte) = .ok v := by
  induction v with
  | nil => rfl
  | cons b v ih =>
    rw [List.flatMap_cons, readPairs_formatByte, ih]
    rfl

theorem lines_of_no_newline {text : Bytes} (hne : text ≠ []) (h : newline ∉ text) :
    lines text = [text] := by
  induction text with
  | nil => exact (hne rfl).elim
  | cons b text ih =>
    have hb : b ≠ newline := fun he => h (he ▸ List.mem_cons_self)
    have htext : newline ∉ text := fun hm => h (List.mem_cons_of_mem b hm)
    unfold lines
    rw [if_neg hb]
    cases text with
    | nil => rfl
    | cons c text => rw [ih (List.cons_ne_nil c text) htext]

theorem newline_not_mem_formatByte (b : UInt8) : newline ∉ formatByte b := by
  have hb := b.toNat_lt
  have hnewline : digitValue newline = none := by decide
  rw [formatByte_eq]
  intro hm
  rcases List.mem_cons.mp hm with he | hm
  · rw [he, digitValue_digitChar (by omega)] at hnewline
    simp at hnewline
  · rw [List.mem_singleton.mp hm, digitValue_digitChar (by omega)] at hnewline
    simp at hnewline

theorem lines_hexText (v : Bytes) : lines (hexText v) = [hexText v] := by
  apply lines_of_no_newline
  · simp [hexText, hexPrefix]
  · intro hm
    rcases List.mem_append.mp hm with hp | hm
    · exact absurd hp (by decide)
    · obtain ⟨b, _, hb⟩ := List.mem_flatMap.mp hm
      exact newline_not_mem_formatByte b hb

theorem length_formatByte (b : UInt8) : (formatByte b).length = 2 := by
  rw [formatByte_eq]
  rfl

/-- The only text of the writer that the reader refuses is the bare prefix. -/
theorem readHexLines_hexText (v : Bytes) :
    readHexLines (lines (hexText v)) = .ok (if v = [] then none else some v) := by
  rw [lines_hexText]
  cases v with
  | nil => rfl
  | cons b v =>
    have hlen : 3 ≤ (hexText (b :: v)).length := by
      simp only [hexText, hexPrefix, List.flatMap_cons, List.length_append, length_formatByte,
        List.length_cons]
      omega
    have hpre : hexPrefix.isPrefixOf (hexText (b :: v)) = true :=
      List.isPrefixOf_iff_prefix.mpr ⟨_, rfl⟩
    have hdrop : (hexText (b :: v)).drop 2 = (b :: v).flatMap formatByte := rfl
    simp only [readHexLines, hpre, hlen, hdrop, readPairs_flatMap, decide_true, Bool.and_self,
      if_true]
    simp [Except.map]

theorem writeVectorToHexFile_run (d : Disk) (v : Bytes) (p : Path) (fs : FileSystem) :
    (writeVectorToHexFile d v p).run fs =
      match fs.openForWriting p with
      | none => (.ok false, fs)
      | some l => (.ok (reports d l (hexText v)), delivered d fs p l (hexText v)) := by
  unfold writeVectorToHexFile
  rw [Action.run_bind, openOutputFile_run]
  cases fs.openForWriting p with
  | none => rfl
  | some l =>
    change (Except.ok (reports d l (hexText v)), delivered d (fs.store l []) p l (hexText v)) = _
    rw [delivered_store]

theorem readHexFileToVector_of_content {fs : FileSystem} {p : Path} {c : Bytes}
    (h : fs.content p = some c) : readHexFileToVector fs p = readHexLines (lines c) := by
  unfold FileSystem.content at h
  unfold readHexFileToVector
  split at h
  · rename_i c' w hl
    rw [hl, ← Option.some.inj h]
  · simp at h

/-- Writing `v` at the path leaves all of it on the disk. -/
def ReachesDisk (d : Disk) (fs : FileSystem) (path : Path) (v : Bytes) : Prop :=
  ∀ l, fs.fileLocation path = some l → (OutStream.opened.write d l v).close d l = v

theorem reachesDisk_of_reliable {d : Disk} (hd : d.Reliable) (fs : FileSystem) (path : Path)
    (v : Bytes) : ReachesDisk d fs path v :=
  fun l _ => OutStream.close_write_reliable hd l v

theorem content_delivered {d : Disk} {fs : FileSystem} {p : Path} {l : Location} {v : Bytes}
    (ho : fs.openForWriting p = some l) (hr : ReachesDisk d fs p v) :
    (delivered d fs p l v).content p = some v := by
  obtain ⟨hl, ha⟩ := openForWriting_eq_some_iff.mp ho
  apply content_of_lookup (w := true)
  rw [lookup_delivered_self hl ha, hr l hl]

/-- Text that reached the file is read back exactly when it was written for some bytes. -/
theorem hexFile_roundTrip_iff {d : Disk} {fs fs₁ : FileSystem} {path : Path} {v : Bytes}
    (hwrite : (writeVectorToHexFile d v path).run fs = (.ok true, fs₁))
    (hreached : ReachesDisk d fs path (hexText v)) :
    readHexFileToVector fs₁ path = .ok (some v) ↔ v ≠ [] := by
  rw [writeVectorToHexFile_run] at hwrite
  cases ho : fs.openForWriting path with
  | none => simp [ho] at hwrite
  | some l =>
    simp only [ho, Prod.mk.injEq] at hwrite
    have hcontent := content_delivered ho hreached
    rw [hwrite.2] at hcontent
    rw [readHexFileToVector_of_content hcontent, readHexLines_hexText]
    split
    · rename_i hv
      simp [hv]
    · rename_i hv
      simp [hv]

theorem hexFile_roundTrip_iff_byte :
    readHexFileToVector
        ((writeVectorToHexFile .reliable [0xAB] ['p']).run .empty).2 ['p'] = .ok (some [0xAB]) ↔
      ([0xAB] : Bytes) ≠ [] := by
  have hwrite : (writeVectorToHexFile .reliable [0xAB] ['p']).run .empty =
      (.ok true, ((writeVectorToHexFile .reliable [0xAB] ['p']).run .empty).2) := rfl
  exact hexFile_roundTrip_iff hwrite (reachesDisk_of_reliable Disk.reliable_reliable _ _ _)

/-- The empty vector is written as `0x`, which the reader takes for a line without digits. -/
theorem hexFile_empty_not_read_back :
    ¬ ∀ (d : Disk) (fs fs₁ : FileSystem) (path : Path) (v : Bytes),
      (writeVectorToHexFile d v path).run fs = (.ok true, fs₁) →
      ReachesDisk d fs path (hexText v) → readHexFileToVector fs₁ path = .ok (some v) := by
  intro h
  have hread := h .reliable .empty
    ((writeVectorToHexFile .reliable [] ['p']).run .empty).2 ['p'] [] rfl
    (reachesDisk_of_reliable Disk.reliable_reliable _ _ _)
  have hnone : readHexFileToVector
      ((writeVectorToHexFile .reliable [] ['p']).run .empty).2 ['p'] = .ok none := rfl
  rw [hnone] at hread
  simp at hread

end ProofProducer
