import ProofProducer.HexFormat

/-!
# Sequences of whole-file writes

What a stage leaves on disk is the effect of a list of writes made one after the other. A path
outside the list sees nothing of them, and a path in it holds what was last written to it.
-/

namespace ProofProducer

open Effects Files Files.FileSystem

set_option autoImplicit false

/-- What writing a file whole answers and leaves. -/
def written (d : Disk) (fs : FileSystem) (p : Path) (v : Bytes) : Bool × FileSystem :=
  match fs.openForWriting p with
  | none => (false, fs)
  | some l => (reports d l v, delivered d fs p l v)

/-- All the writes of a list succeed one after the other. -/
inductive WritesThrough (d : Disk) : FileSystem → List (Path × Bytes) → FileSystem → Prop where
  | nil (fs : FileSystem) : WritesThrough d fs [] fs
  | cons {fs fs₁ fs₂ : FileSystem} {p : Path} {v : Bytes} {ws : List (Path × Bytes)} :
      written d fs p v = (true, fs₁) → WritesThrough d fs₁ ws fs₂ →
      WritesThrough d fs ((p, v) :: ws) fs₂

variable {d : Disk} {fs fs₁ fs₂ : FileSystem} {p q : Path} {v : Bytes} {ws : List (Path × Bytes)}

theorem written_of_none (h : fs.openForWriting p = none) : written d fs p v = (false, fs) := by
  simp only [written, h]

theorem written_of_some {l : Location} (h : fs.openForWriting p = some l) :
    written d fs p v = (reports d l v, delivered d fs p l v) := by
  simp only [written, h]

theorem writeVectorToFile_run_eq (d : Disk) (v : Bytes) (p : Path) (fs : FileSystem) :
    (writeVectorToFile d v p).run fs = (.ok (written d fs p v).1, (written d fs p v).2) := by
  rw [writeVectorToFile_run]
  unfold written
  cases fs.openForWriting p <;> rfl

theorem writeVectorToHexFile_run_eq (d : Disk) (v : Bytes) (p : Path) (fs : FileSystem) :
    (writeVectorToHexFile d v p).run fs =
      (.ok (written d fs p (hexText v)).1, (written d fs p (hexText v)).2) := by
  rw [writeVectorToHexFile_run]
  unfold written
  cases fs.openForWriting p <;> rfl

theorem written_steady (d : Disk) (fs : FileSystem) (p : Path) (v : Bytes) :
    Steady fs (written d fs p v).2 := by
  cases ho : fs.openForWriting p with
  | none =>
    rw [written_of_none ho]
    exact .refl fs
  | some l =>
    rw [written_of_some ho]
    exact delivered_steady (openForWriting_eq_some_iff.mp ho).2 d p v

theorem lookup_written_of_ne (hq : ¬ fs.SameFile q p) :
    (written d fs p v).2.lookup q = fs.lookup q := by
  cases ho : fs.openForWriting p with
  | none => rw [written_of_none ho]
  | some l =>
    obtain ⟨hl, ha⟩ := openForWriting_eq_some_iff.mp ho
    rw [written_of_some ho]
    exact lookup_delivered_of_ne (fun hql => hq ⟨l, hql, hl⟩) ha

theorem steady_of_written (h : written d fs p v = (true, fs₁)) : Steady fs fs₁ := by
  have hs := written_steady d fs p v
  rw [h] at hs
  exact hs

theorem lookup_of_written (h : written d fs p v = (true, fs₁)) (hq : ¬ fs.SameFile q p) :
    fs₁.lookup q = fs.lookup q := by
  rw [← lookup_written_of_ne hq, h]

/-- The same write makes two file systems agree wherever it writes, and elsewhere if they did. -/
theorem lookup_written_congr {a b : FileSystem} (hs : Steady a b)
    (h : a.SameFile q p ∧ (a.openForWriting p).isSome ∨ b.lookup q = a.lookup q) :
    (written d b p v).2.lookup q = (written d a p v).2.lookup q := by
  by_cases hq : a.SameFile q p
  · cases ho : a.openForWriting p with
    | none =>
      rw [written_of_none ho, written_of_none (by rw [hs.openForWriting_eq, ho])]
      rcases h with ⟨_, hsome⟩ | h
      · simp [ho] at hsome
      · exact h
    | some l =>
      obtain ⟨hl, ha⟩ := openForWriting_eq_some_iff.mp ho
      obtain ⟨k, hkq, hkp⟩ := hq
      have hql : a.fileLocation q = some l := by rw [hkq, ← hkp, hl]
      rw [written_of_some ho, written_of_some (by rw [hs.openForWriting_eq, ho]),
        lookup_delivered_self hql ha,
        lookup_delivered_self (by rw [hs.fileLocation_eq, hql]) (by rw [hs.accepts, ha])]
  · have hb : ¬ b.SameFile q p := fun h' => hq ((hs.sameFile_iff q p).mp h')
    rw [lookup_written_of_ne hq, lookup_written_of_ne hb]
    rcases h with ⟨h', _⟩ | h
    · exact (hq h').elim
    · exact h

theorem written_answer_congr {a b : FileSystem} (hs : Steady a b) :
    (written d b p v).1 = (written d a p v).1 := by
  unfold written
  rw [hs.openForWriting_eq]
  cases a.openForWriting p <;> rfl

theorem openForWriting_of_written (h : written d fs p v = (true, fs₁)) :
    ∃ l, fs.openForWriting p = some l ∧ reports d l v = true ∧ fs₁ = delivered d fs p l v := by
  cases ho : fs.openForWriting p with
  | none => simp [written_of_none ho] at h
  | some l =>
    rw [written_of_some ho] at h
    obtain ⟨hr, hfs⟩ := Prod.mk.inj h
    exact ⟨l, rfl, hr, hfs.symm⟩

theorem journal_not_written (h : (written d fs p v).1 = false) :
    (written d fs p v).2.journal = fs.journal := by
  cases ho : fs.openForWriting p with
  | none => rw [written_of_none ho]
  | some l =>
    rw [written_of_some ho] at h ⊢
    have hfailed : (OutStream.opened.write d l v).failed = true := by simpa [reports] using h
    simp [delivered, hfailed]

theorem content_written (hr : ReachesDisk d fs p v) (h : written d fs p v = (true, fs₁)) :
    fs₁.content p = some v := by
  obtain ⟨l, ho, _, rfl⟩ := openForWriting_of_written h
  exact content_delivered ho hr

theorem exists_content_written (h : written d fs p v = (true, fs₁)) :
    ∃ c, fs₁.content p = some c := by
  obtain ⟨l, ho, _, rfl⟩ := openForWriting_of_written h
  obtain ⟨hl, ha⟩ := openForWriting_eq_some_iff.mp ho
  exact ⟨_, content_of_lookup (lookup_delivered_self hl ha)⟩

/-- A write creates the file it names and removes none. -/
theorem fileExists_written (h : fileExists fs q = true) :
    fileExists (written d fs p v).2 q = true := by
  by_cases hq : fs.SameFile q p
  · cases ho : fs.openForWriting p with
    | none =>
      rw [written_of_none ho]
      exact h
    | some l =>
      obtain ⟨hl, ha⟩ := openForWriting_eq_some_iff.mp ho
      obtain ⟨k, hkq, hkp⟩ := hq
      have hql : fs.fileLocation q = some l := by rw [hkq, ← hkp, hl]
      rw [written_of_some ho]
      simp [fileExists, lookup_delivered_self hql ha]
  · simp only [fileExists, lookup_written_of_ne hq]
    exact h

/-- The path can be opened for writing and its stream takes the bytes. -/
def Writable (d : Disk) (fs : FileSystem) (p : Path) (v : Bytes) : Prop :=
  ∃ l, fs.openForWriting p = some l ∧ reports d l v = true

theorem exists_written_iff :
    (∃ fs₁, written d fs p v = (true, fs₁)) ↔ Writable d fs p v := by
  constructor
  · intro h
    obtain ⟨fs₁, h⟩ := h
    obtain ⟨l, ho, hr, _⟩ := openForWriting_of_written h
    exact ⟨l, ho, hr⟩
  · intro h
    obtain ⟨l, ho, hr⟩ := h
    exact ⟨delivered d fs p l v, by rw [written_of_some ho, hr]⟩

theorem writable_congr (h : Steady fs fs₁) : Writable d fs₁ p v ↔ Writable d fs p v := by
  unfold Writable
  rw [h.openForWriting_eq]

theorem reachesDisk_congr (h : Steady fs fs₁) : ReachesDisk d fs₁ p v ↔ ReachesDisk d fs p v := by
  unfold ReachesDisk
  rw [h.fileLocation_eq]

/-- The path can be opened for writing, and of what is written there nothing is refused or lost. -/
def Openable (d : Disk) (fs : FileSystem) (p : Path) : Prop :=
  ∀ v, Writable d fs p v ∧ ReachesDisk d fs p v

theorem writable_of_reliable (hd : d.Reliable) (ho : (fs.openForWriting p).isSome) (v : Bytes) :
    Writable d fs p v := by
  obtain ⟨l, hl⟩ := Option.isSome_iff_exists.mp ho
  refine ⟨l, hl, ?_⟩
  rw [reports, OutStream.write_reliable_failed hd]
  rfl

theorem openable_of_reliable (hd : d.Reliable) (ho : (fs.openForWriting p).isSome) :
    Openable d fs p :=
  fun v => ⟨writable_of_reliable hd ho v, reachesDisk_of_reliable hd fs p v⟩

namespace WritesThrough

theorem steady (h : WritesThrough d fs ws fs₁) : Steady fs fs₁ := by
  induction h with
  | nil fs => exact .refl fs
  | @cons fs fs₁ fs₂ p v ws hw _ ih =>
    exact (steady_of_written hw).trans ih

/-- A path that no write of the list names keeps what it held. -/
theorem lookup_of_ne (h : WritesThrough d fs ws fs₁) (hq : ∀ w ∈ ws, ¬ fs.SameFile q w.1) :
    fs₁.lookup q = fs.lookup q := by
  induction h with
  | nil fs => rfl
  | @cons fs fs₁ fs₂ p v ws hw _ ih =>
    have hs := steady_of_written hw
    rw [ih fun w hm hsame => hq w (List.mem_cons_of_mem _ hm) ((hs.sameFile_iff q w.1).mp hsame)]
    exact lookup_of_written hw (hq (p, v) List.mem_cons_self)

/-- A path holds what the list writes to it, if the disk keeps that and no later write names it. -/
theorem content_of_mem (h : WritesThrough d fs ws fs₁) (hr : ReachesDisk d fs p v)
    (hdistinct : ws.Pairwise fun w w' => ¬ fs.SameFile w.1 w'.1) (hm : (p, v) ∈ ws) :
    fs₁.content p = some v := by
  induction h with
  | nil fs => simp at hm
  | @cons fs fs₁ fs₂ p' v' ws hw hrest ih =>
    have hs := steady_of_written hw
    have hsame := fun (x y : Path) => hs.sameFile_iff x y
    obtain ⟨hfirst, hothers⟩ := List.pairwise_cons.mp hdistinct
    rcases List.mem_cons.mp hm with he | hm
    · obtain ⟨rfl, rfl⟩ := Prod.mk.inj he
      have hkeep := hrest.lookup_of_ne (q := p) fun w hw' hsw =>
        hfirst w hw' ((hsame p w.1).mp hsw)
      rw [content_congr hkeep]
      exact content_written hr hw
    · refine ih ((reachesDisk_congr hs).mpr hr) (hothers.imp ?_) hm
      intro w w' hne hsw
      exact hne ((hsame w.1 w'.1).mp hsw)

/-- Writes do not get in each other's way. -/
theorem exists_iff (d : Disk) (fs : FileSystem) (ws : List (Path × Bytes)) :
    (∃ fs₁, WritesThrough d fs ws fs₁) ↔ ∀ w ∈ ws, Writable d fs w.1 w.2 := by
  induction ws generalizing fs with
  | nil =>
    constructor
    · intro _ w hw
      simp at hw
    · intro _
      exact ⟨fs, .nil fs⟩
  | cons w ws ih =>
    obtain ⟨p, v⟩ := w
    rw [List.forall_mem_cons, ← exists_written_iff]
    constructor
    · intro h
      obtain ⟨fs₂, h⟩ := h
      cases h with
      | @cons _ fs₁ _ _ _ _ hw hrest =>
        have hs := steady_of_written hw
        refine ⟨⟨fs₁, hw⟩, fun w hm => (writable_congr hs).mp ?_⟩
        exact (ih fs₁).mp ⟨fs₂, hrest⟩ w hm
    · intro h
      obtain ⟨⟨fs₁, hw⟩, hrest⟩ := h
      have hs := steady_of_written hw
      obtain ⟨fs₂, hws⟩ := (ih fs₁).mpr fun w hm => (writable_congr hs).mpr (hrest w hm)
      exact ⟨fs₂, .cons hw hws⟩

/-- The same writes make two file systems agree on every path they write. -/
theorem lookup_congr {a a₁ b b₁ : FileSystem} (ha : WritesThrough d a ws a₁)
    (hb : WritesThrough d b ws b₁) (hs : Steady a b)
    (h : (∃ w ∈ ws, a.SameFile q w.1) ∨ b.lookup q = a.lookup q) :
    b₁.lookup q = a₁.lookup q := by
  induction ha generalizing b with
  | nil a =>
    cases hb
    rcases h with ⟨w, hm, _⟩ | h
    · simp at hm
    · exact h
  | @cons a a' a₁ p v ws hwa hresta ih =>
    cases hb with
    | cons hwb hrestb =>
      have hsa := steady_of_written hwa
      have hsb := steady_of_written hwb
      obtain ⟨l, ho, _⟩ := openForWriting_of_written hwa
      refine ih hrestb (hsa.symm.trans (hs.trans hsb)) ?_
      have hone := lookup_written_congr (d := d) (v := v) (q := q) (p := p) hs
      rw [hwa, hwb] at hone
      rcases h with ⟨w, hm, hsame⟩ | h
      · rcases List.mem_cons.mp hm with rfl | hm
        · exact Or.inr (hone (Or.inl ⟨hsame, by rw [ho]; rfl⟩))
        · exact Or.inl ⟨w, hm, (hsa.sameFile_iff q w.1).mpr hsame⟩
      · exact Or.inr (hone (Or.inr h))

theorem fileExists (h : WritesThrough d fs ws fs₁) (hq : fileExists fs q = true) :
    fileExists fs₁ q = true := by
  induction h with
  | nil fs => exact hq
  | @cons fs fs₁ fs₂ p v ws hw _ ih =>
    have hone := fileExists_written (d := d) (v := v) (p := p) hq
    rw [hw] at hone
    exact ih hone

end WritesThrough
end ProofProducer
