import ProofProducer.Shared.FileSystem
import Mathlib.Data.List.Induction

/-!
# Buffered output over a disk that may fail

Output is collected in a buffer that is pushed to the disk when it is full. Writing many bytes is
taken as writing one after the other; an implementation may push a long write at once. A push that
fails during an output call sets the fail state, and a failed stream ignores further output. What
is left in the buffer is pushed when the stream is closed, and that push reports to nobody.
-/

namespace Files

set_option autoImplicit false

/-- The disk under all streams: `takes l n` says whether the `n`-th push to `l` succeeds. -/
structure Disk where
  bufferSize : Nat
  takes : Location → Nat → Bool

def Disk.Reliable (d : Disk) : Prop := ∀ l n, d.takes l n = true

def Disk.reliable : Disk := ⟨8192, fun _ _ => true⟩

theorem Disk.reliable_reliable : Disk.reliable.Reliable := fun _ _ => rfl

structure OutStream where
  reached : Bytes
  pending : Bytes
  pushes : Nat
  failed : Bool
  deriving DecidableEq, Repr

namespace OutStream

def opened : OutStream := ⟨[], [], 0, false⟩

def push (d : Disk) (l : Location) (s : OutStream) : OutStream :=
  if d.takes l s.pushes then ⟨s.reached ++ s.pending, [], s.pushes + 1, s.failed⟩
  else ⟨s.reached, [], s.pushes + 1, true⟩

def put (d : Disk) (l : Location) (s : OutStream) (b : UInt8) : OutStream :=
  if s.failed then s else
  let t : OutStream := { s with pending := s.pending ++ [b] }
  if d.bufferSize ≤ t.pending.length then t.push d l else t

def write (d : Disk) (l : Location) (s : OutStream) (c : Bytes) : OutStream :=
  c.foldl (put d l) s

/-- The bytes the file holds once the stream is closed. -/
def close (d : Disk) (l : Location) (s : OutStream) : Bytes :=
  if s.pending = [] then s.reached else (s.push d l).reached

/-- Everything given to the stream is on the disk or still pending. -/
structure Carries (s : OutStream) (c : Bytes) : Prop where
  sound : s.failed = false
  bytes : s.reached ++ s.pending = c

theorem put_carries {d : Disk} (hd : d.Reliable) (l : Location) {s : OutStream} {c : Bytes}
    (h : s.Carries c) (b : UInt8) : (s.put d l b).Carries (c ++ [b]) := by
  obtain ⟨hf, rfl⟩ := h
  have ht : ∀ n, d.takes l n = true := hd l
  unfold put
  rw [hf, if_neg Bool.false_ne_true]
  dsimp only
  split
  · exact ⟨by simp [push, ht], by simp [push, ht]⟩
  · exact ⟨rfl, by simp⟩

theorem write_carries {d : Disk} (hd : d.Reliable) (l : Location) (c : Bytes) {s : OutStream}
    {c₀ : Bytes} (h : s.Carries c₀) : (s.write d l c).Carries (c₀ ++ c) := by
  induction c generalizing s c₀ with
  | nil => simpa [write] using h
  | cons b c ih => simpa [write] using ih (put_carries hd l h b)

theorem opened_carries : opened.Carries [] := ⟨rfl, rfl⟩

theorem write_reliable_failed {d : Disk} (hd : d.Reliable) (l : Location) (c : Bytes) :
    (opened.write d l c).failed = false := (write_carries hd l c opened_carries).sound

theorem close_write_reliable {d : Disk} (hd : d.Reliable) (l : Location) (c : Bytes) :
    (opened.write d l c).close d l = c := by
  have hc := (write_carries hd l c opened_carries).bytes
  simp only [List.nil_append] at hc
  have ht : ∀ n, d.takes l n = true := hd l
  simp only [close, push, ht, if_true]
  split
  · rename_i hp
    simpa [hp] using hc
  · exact hc

/-- The number of bytes that are pushed together while the stream is open. -/
def block (d : Disk) : Nat := max 1 d.bufferSize

theorem block_pos (d : Disk) : 0 < block d := Nat.le_max_left 1 d.bufferSize

/-- The stream carries `c`, whole blocks of it have been pushed and the disk took each of them. -/
structure Taking (d : Disk) (l : Location) (s : OutStream) (c : Bytes) : Prop where
  carries : s.Carries c
  short : s.pending.length < block d
  whole : s.reached.length = block d * s.pushes
  taken : ∀ i < s.pushes, d.takes l i = true

namespace Taking
variable {d : Disk} {l : Location} {s : OutStream} {c : Bytes}

theorem length_eq (h : Taking d l s c) :
    c.length = block d * s.pushes + s.pending.length := by
  rw [← h.carries.bytes, List.length_append, h.whole]

theorem pushes_eq (h : Taking d l s c) : s.pushes = c.length / block d := by
  rw [h.length_eq, Nat.mul_add_div (block_pos d), Nat.div_eq_of_lt h.short, Nat.add_zero]

theorem pending_eq_nil_iff (h : Taking d l s c) : s.pending = [] ↔ block d ∣ c.length := by
  rw [h.length_eq, Nat.dvd_add_right (Nat.dvd_mul_right _ _), ← List.length_eq_zero_iff]
  constructor
  · intro hz
    rw [hz]
    exact Nat.dvd_zero _
  · intro hdvd
    exact Nat.eq_zero_of_dvd_of_lt hdvd h.short

end Taking

/-- The disk refused one of the blocks of `n` bytes. -/
def Refuses (d : Disk) (l : Location) (n : Nat) : Prop := ∃ i < n / block d, d.takes l i = false

theorem Refuses.mono {d : Disk} {l : Location} {m n : Nat} (h : Refuses d l m) (hmn : m ≤ n) :
    Refuses d l n := by
  obtain ⟨i, hi, ht⟩ := h
  exact ⟨i, Nat.lt_of_lt_of_le hi (Nat.div_le_div_right hmn), ht⟩

theorem put_failed {d : Disk} {l : Location} {s : OutStream} (h : s.failed = true) (b : UInt8) :
    s.put d l b = s := by
  rw [put, h, if_pos rfl]

theorem put_taking {d : Disk} {l : Location} {s : OutStream} {c : Bytes} (h : Taking d l s c)
    (b : UInt8) : Taking d l (s.put d l b) (c ++ [b]) ∨
      (s.put d l b).failed = true ∧ Refuses d l (c.length + 1) := by
  have hlen := h.length_eq
  have hblock : d.bufferSize ≤ s.pending.length + 1 ↔ block d ≤ s.pending.length + 1 := by
    unfold block
    omega
  obtain ⟨⟨hsound, rfl⟩, hshort, hwhole, htaken⟩ := h
  unfold put
  rw [hsound, if_neg Bool.false_ne_true]
  dsimp only
  rw [List.length_append, List.length_singleton]
  split
  · rename_i hfull
    have hfill : s.pending.length + 1 = block d := by
      have hle := hblock.mp hfull
      omega
    cases ht : d.takes l s.pushes with
    | false =>
      refine Or.inr ⟨by simp [push, ht], s.pushes, ?_, ht⟩
      have hnext : (s.reached ++ s.pending).length + 1 = block d * (s.pushes + 1) := by
        rw [hlen, Nat.mul_add, Nat.mul_one, Nat.add_assoc, hfill]
      rw [hnext, Nat.mul_div_cancel_left _ (block_pos d)]
      exact Nat.lt_succ_self _
    | true =>
      refine Or.inl ⟨⟨by simp [push, ht], by simp [push, ht]⟩, ?_, ?_, ?_⟩
      · simpa [push, ht] using block_pos d
      · simp only [push, ht, if_true, List.length_append, List.length_singleton]
        rw [hwhole, hfill, Nat.mul_add, Nat.mul_one]
      · intro i hi
        simp only [push, ht, if_true] at hi
        by_cases hlast : i = s.pushes
        · rw [hlast, ht]
        · exact htaken i (by omega)
  · rename_i hroom
    have hlt : ¬ block d ≤ s.pending.length + 1 := fun hle => hroom (hblock.mpr hle)
    refine Or.inl ⟨⟨rfl, by simp⟩, ?_, hwhole, htaken⟩
    rw [List.length_append, List.length_singleton]
    omega

theorem opened_taking (d : Disk) (l : Location) : Taking d l opened [] where
  carries := opened_carries
  short := block_pos d
  whole := rfl
  taken i hi := (Nat.not_lt_zero i hi).elim

/-- Either everything is on its way, or the disk refused a block and the stream failed. -/
theorem write_taking (d : Disk) (l : Location) (c : Bytes) :
    Taking d l (opened.write d l c) c ∨
      (opened.write d l c).failed = true ∧ Refuses d l c.length := by
  induction c using List.reverseRecOn with
  | nil => exact Or.inl (opened_taking d l)
  | append_singleton c b ih =>
    have hwrite : opened.write d l (c ++ [b]) = (opened.write d l c).put d l b := by
      simp [write, List.foldl_append]
    rw [hwrite, List.length_append, List.length_singleton]
    rcases ih with htaking | ⟨hfailed, hrefuses⟩
    · exact put_taking htaking b
    · rw [put_failed hfailed]
      exact Or.inr ⟨hfailed, hrefuses.mono (Nat.le_succ _)⟩

theorem Taking.not_refuses {d : Disk} {l : Location} {s : OutStream} {c : Bytes}
    (h : Taking d l s c) : ¬ Refuses d l c.length := by
  intro hr
  obtain ⟨i, hi, ht⟩ := hr
  rw [h.taken i (by rw [h.pushes_eq]; exact hi)] at ht
  simp at ht

/-- What is left for the close is nothing, or the disk takes it. -/
def Closes (d : Disk) (l : Location) (n : Nat) : Prop :=
  block d ∣ n ∨ d.takes l (n / block d) = true

theorem Taking.close_eq_iff {d : Disk} {l : Location} {s : OutStream} {c : Bytes}
    (h : Taking d l s c) : s.close d l = c ↔ Closes d l c.length := by
  have hpending := h.pending_eq_nil_iff
  have hbytes := h.carries.bytes
  unfold Closes close
  rw [← hpending, ← h.pushes_eq]
  split
  · rename_i hnil
    rw [hnil, List.append_nil] at hbytes
    exact iff_of_true hbytes (Or.inl hnil)
  · rename_i hne
    cases ht : d.takes l s.pushes with
    | true =>
      simp only [push, ht, if_true]
      exact iff_of_true hbytes (Or.inr trivial)
    | false =>
      simp only [push, ht]
      refine iff_of_false ?_ (by simp [hne])
      intro he
      rw [← hbytes] at he
      exact hne (List.self_eq_append_right.mp he)

/-- A stream that did not fail leaves everything on the disk exactly if its close works out. -/
theorem complete_iff (d : Disk) (l : Location) (c : Bytes) :
    ((opened.write d l c).failed = false → (opened.write d l c).close d l = c) ↔
      Refuses d l c.length ∨ Closes d l c.length := by
  rcases write_taking d l c with htaking | ⟨hfailed, hrefuses⟩
  · rw [← htaking.close_eq_iff]
    constructor
    · exact fun h => Or.inr (h htaking.carries.sound)
    · exact fun h _ => h.resolve_left htaking.not_refuses
  · apply iff_of_true _ (Or.inl hrefuses)
    intro hsound
    rw [hfailed] at hsound
    simp at hsound

end OutStream
end Files
