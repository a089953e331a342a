import ProofProducer.Writes

/-!
# What a write that was reported complete leaves

The writers ask for the fail state while the stream is still open. Whether the file is complete
is decided after that, by the push that closing the stream makes.
-/

namespace ProofProducer

open Effects Files Files.FileSystem

set_option autoImplicit false

variable {d : Disk} {fs : FileSystem} {path : Path} {v : Bytes}

/-- The file the path leads to is not left incomplete behind the writer's back: a block of the
`n` bytes is refused while the writer looks, or there is no rest to push, or the rest is taken. -/
def Settled (d : Disk) (fs : FileSystem) (path : Path) (n : Nat) : Prop :=
  ∀ l, fs.openForWriting path = some l → OutStream.Refuses d l n ∨ OutStream.Closes d l n

theorem written_complete_iff : ((written d fs path v).1 = true →
      (written d fs path v).2.content path = some v) ↔ Settled d fs path v.length := by
  unfold Settled
  cases ho : fs.openForWriting path with
  | none =>
    rw [written_of_none ho]
    exact iff_of_true (fun h => absurd h Bool.false_ne_true) (fun l hl => by simp at hl)
  | some l =>
    obtain ⟨hl, ha⟩ := openForWriting_eq_some_iff.mp ho
    have hcontent := content_of_lookup (lookup_delivered_self (d := d) (p := path) (v := v) hl ha)
    rw [written_of_some ho]
    dsimp only
    rw [hcontent]
    have hcomplete := OutStream.complete_iff d l v
    constructor
    · intro h k hk
      rw [← Option.some.inj hk]
      apply hcomplete.mp
      intro hsound
      exact Option.some.inj (h (by rw [reports, hsound]; rfl))
    · intro h hreport
      have hsound : (OutStream.opened.write d l v).failed = false := by
        simpa [reports] using hreport
      rw [hcomplete.mpr (h l rfl) hsound]

/-- Two lower-case digits, the high one first. -/
def lowerDigits (b : UInt8) : Bytes :=
  [(Nat.digitChar (b.toNat / 16)).toUInt8, (Nat.digitChar (b.toNat % 16)).toUInt8]

theorem hexText_eq (v : Bytes) : hexText v = hexPrefix ++ v.flatMap lowerDigits := by
  have hdigits : formatByte = lowerDigits := funext formatByte_eq
  rw [hexText, hdigits]

theorem length_hexText (v : Bytes) : (hexText v).length = 2 * v.length + 2 := by
  induction v with
  | nil => rfl
  | cons b v ih =>
    have hcons : hexText (b :: v) = hexPrefix ++ (formatByte b ++ v.flatMap formatByte) := rfl
    simp only [hexText, List.length_append] at ih
    rw [hcons, List.length_append, List.length_append, length_formatByte, List.length_cons]
    omega

/-- A writer that reports success has left the complete file exactly if the push on close had
nothing to do or worked, or no success was to be reported in the first place. -/
theorem writers_report_complete_files_iff (d : Disk) (fs : FileSystem) (path : Path) (v : Bytes) :
    ((((writeVectorToFile d v path).run fs).1 = .ok true →
        ((writeVectorToFile d v path).run fs).2.content path = some v) ∧
      (((writeVectorToHexFile d v path).run fs).1 = .ok true →
        ((writeVectorToHexFile d v path).run fs).2.content path =
          some (hexPrefix ++ v.flatMap lowerDigits))) ↔
      Settled d fs path v.length ∧ Settled d fs path (2 * v.length + 2) := by
  rw [writeVectorToFile_run_eq, writeVectorToHexFile_run_eq, ← hexText_eq, ← length_hexText,
    ← written_complete_iff, ← written_complete_iff]
  simp only [Except.ok.injEq]

/-- A disk that is full from the start, behind a buffer of the usual size. -/
def fullDisk : Disk := ⟨8192, fun _ _ => false⟩

/-- The bytes fit into the buffer, so that only the close finds out. -/
theorem full_disk_is_not_reported :
    ¬ ∀ (d : Disk) (fs : FileSystem) (path : Path) (v : Bytes),
      (((writeVectorToFile d v path).run fs).1 = .ok true →
        ((writeVectorToFile d v path).run fs).2.content path = some v) ∧
      (((writeVectorToHexFile d v path).run fs).1 = .ok true →
        ((writeVectorToHexFile d v path).run fs).2.content path =
          some (hexPrefix ++ v.flatMap lowerDigits)) := by
  intro h
  have hcontent := (h fullDisk .empty ['p'] [1]).1 rfl
  exact absurd hcontent (by decide)

end ProofProducer
