import ProofProducer.Shared.FileSystem

/-!
# The same done to two file systems

When the same operations are done to two file systems with the same directories, every path
leads to the same in both afterwards, or it has been left alone in both.
-/

namespace Files

set_option autoImplicit false

namespace FileSystem

/-- `a₀` and `b₀` have become `a` and `b`: what one operation has changed in the one it has
changed to the same in the other. -/
structure Alongside (a₀ b₀ a b : FileSystem) : Prop where
  left : Steady a₀ a
  right : Steady b₀ b
  lookup : ∀ q, b.lookup q = a.lookup q ∨ (a.lookup q = a₀.lookup q ∧ b.lookup q = b₀.lookup q)
  journal : ∃ added, a.journal = added ++ a₀.journal ∧ b.journal = added ++ b₀.journal

namespace Alongside
variable {a₀ b₀ a b a' b' : FileSystem} {q : Path} {l : Location}

theorem refl (a b : FileSystem) : Alongside a b a b :=
  ⟨.refl a, .refl b, fun _ => Or.inr ⟨rfl, rfl⟩, [], rfl, rfl⟩

/-- The directories are still the same if they were. -/
theorem sameDirectories (h : Alongside a₀ b₀ a b) (h₀ : SameDirectories a₀ b₀) :
    SameDirectories a b :=
  h.left.sameDirectories.symm.trans (h₀.trans h.right.sameDirectories)

theorem steady (h : Alongside a₀ b₀ a b) (h₀ : Steady a₀ b₀) : Steady a b :=
  h.left.symm.trans (h₀.trans h.right)

/-- A path that led to the same leads to the same. -/
theorem lookup_eq (h : Alongside a₀ b₀ a b) (hq : b₀.lookup q = a₀.lookup q) :
    b.lookup q = a.lookup q := by
  rcases h.lookup q with hsame | ⟨ha, hb⟩
  · exact hsame
  · rw [ha, hb, hq]

theorem exists_eq (h : Alongside a₀ b₀ a b)
    (hq : (b₀.lookup q).isSome = (a₀.lookup q).isSome) :
    (b.lookup q).isSome = (a.lookup q).isSome := by
  rcases h.lookup q with hsame | ⟨ha, hb⟩
  · rw [hsame]
  · rw [ha, hb, hq]

/-- What could be opened for writing in both still can. -/
theorem openForWriting_eq (h : Alongside a₀ b₀ a b)
    (hq : b₀.openForWriting q = a₀.openForWriting q) :
    b.openForWriting q = a.openForWriting q := by
  rw [h.right.openForWriting_eq, h.left.openForWriting_eq, hq]

/-- Both file systems change at one location, and to the same. -/
theorem change (h : Alongside a₀ b₀ a b) (h₀ : SameDirectories a₀ b₀)
    (hla : a.accepts l = true) (hlb : b.accepts l = true)
    (ha : Steady a a') (hb : Steady b b') (hoa : ∀ k, k ≠ l → a'.node k = a.node k)
    (hob : ∀ k, k ≠ l → b'.node k = b.node k) (hsame : b'.node l = a'.node l)
    (hj : ∃ added, a'.journal = added ++ a.journal ∧ b'.journal = added ++ b.journal) :
    Alongside a₀ b₀ a' b' := by
  have hab := h.sameDirectories h₀
  refine ⟨h.left.trans ha, h.right.trans hb, fun q => ?_, ?_⟩
  · by_cases hq : a.fileLocation q = some l
    · left
      have hqa : a'.fileLocation q = some l := by rw [ha.fileLocation_eq, hq]
      have hqb : b'.fileLocation q = some l := by rw [hb.fileLocation_eq, hab.fileLocation_eq, hq]
      rw [lookup_of_fileLocation hqa, lookup_of_fileLocation hqb, hsame]
    · have hqb : b.fileLocation q ≠ some l := by rwa [hab.fileLocation_eq]
      rw [lookup_update_of_ne ha hoa (not_directory_of_accepts hla) hq,
        lookup_update_of_ne hb hob (not_directory_of_accepts hlb) hqb]
      exact h.lookup q
  · obtain ⟨later, hja, hjb⟩ := hj
    obtain ⟨earlier, hja₀, hjb₀⟩ := h.journal
    exact ⟨later ++ earlier, by rw [hja, hja₀, List.append_assoc],
      by rw [hjb, hjb₀, List.append_assoc]⟩

theorem store (h : Alongside a₀ b₀ a b) (h₀ : SameDirectories a₀ b₀)
    (hla : a.accepts l = true) (hlb : b.accepts l = true) (c : Bytes) :
    Alongside a₀ b₀ (a.store l c) (b.store l c) := by
  refine h.change h₀ hla hlb (store_steady hla c) (store_steady hlb c) ?_ ?_ (by simp)
    ⟨[], rfl, rfl⟩
  · exact fun k hk => by simp [hk]
  · exact fun k hk => by simp [hk]

theorem erase (h : Alongside a₀ b₀ a b) (h₀ : SameDirectories a₀ b₀)
    (hla : a.accepts l = true) (hlb : b.accepts l = true)
    (hdir : a.directoryWritable l.dropLast = true) :
    Alongside a₀ b₀ (a.erase l) (b.erase l) := by
  have hdirb : b.directoryWritable l.dropLast = true := by
    rw [directoryWritable_congr (h.sameDirectories h₀).directory, hdir]
  refine h.change h₀ hla hlb (erase_steady hla hdir) (erase_steady hlb hdirb) ?_ ?_ (by simp)
    ⟨[], rfl, rfl⟩
  · exact fun k hk => by simp [hk]
  · exact fun k hk => by simp [hk]

theorem record (h : Alongside a₀ b₀ a b) (p : Path) (c : Bytes) :
    Alongside a₀ b₀ (a.record p c) (b.record p c) := by
  obtain ⟨added, hja, hjb⟩ := h.journal
  refine ⟨h.left.trans (record_steady a p c), h.right.trans (record_steady b p c), ?_, ?_⟩
  · intro q
    rw [lookup_record, lookup_record]
    exact h.lookup q
  · exact ⟨(p, c) :: added, by rw [journal_record, hja]; rfl, by rw [journal_record, hjb]; rfl⟩

end Alongside

/-- The same directories and permissions, and every path leads to the same. -/
structure Alike (a b : FileSystem) : Prop where
  steady : Steady a b
  lookup : ∀ q, b.lookup q = a.lookup q

namespace Alike
variable {a b c : FileSystem}

theorem refl (a : FileSystem) : Alike a a := ⟨.refl a, fun _ => rfl⟩

theorem symm (h : Alike a b) : Alike b a := ⟨h.steady.symm, fun q => (h.lookup q).symm⟩

theorem trans (hab : Alike a b) (hbc : Alike b c) : Alike a c :=
  ⟨hab.steady.trans hbc.steady, fun q => (hbc.lookup q).trans (hab.lookup q)⟩

end Alike

theorem Alongside.alike {a₀ b₀ a b : FileSystem} (h : Alongside a₀ b₀ a b) (h₀ : Alike a₀ b₀) :
    Alike a b := ⟨h.steady h₀.steady, fun q => h.lookup_eq (h₀.lookup q)⟩

end FileSystem
end Files
