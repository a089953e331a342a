import ProofProducer.ProverSpec
import ProofProducer.Shared.ExtendedReals

/-!
# The degree bound made from the row count

Between the file that carries the row count and the parameters of FRI the count goes through a
logarithm that zero does not have.
-/

namespace ProofProducer

open Effects Files Files.FileSystem Codecs ExtendedReals Prover

set_option autoImplicit false

variable {L : Crypto3} {p : Prover L} {fs : FileSystem} {rows : SizeT}

/-- `std::size_t table_rows_log = std::ceil(std::log2(rows))`, step by step. -/
noncomputable def tableRowsLog (rows : SizeT) : Option ℕ :=
  toUnsigned UInt64.size (ceil (log2 rows.toNat))

theorem clog_lt_size (rows : SizeT) : Nat.clog 2 rows.toNat < UInt64.size := by
  have hle : Nat.clog 2 rows.toNat ≤ 64 := Nat.clog_le_of_le_pow rows.toNat_lt.le
  exact Nat.lt_of_le_of_lt hle (by decide)

theorem tableRowsLog_zero : tableRowsLog 0 = none := by
  have hzero : ((0 : SizeT).toNat : ℝ) = 0 := Nat.cast_zero
  rw [tableRowsLog, hzero, log2_zero, ceil_bot, toUnsigned_bot]

theorem tableRowsLog_of_ne_zero (h : rows ≠ 0) :
    tableRowsLog rows = some (Nat.clog 2 rows.toNat) := by
  have hrows : rows.toNat ≠ 0 := by
    intro hzero
    exact h (UInt64.toNat_inj.mp hzero)
  rw [tableRowsLog, ceil_log2_natCast hrows, toUnsigned_natCast (clog_lt_size rows)]

/-- The integer logarithm of the model is the one on the extended reals. -/
theorem ceilLog2_eq (rows : SizeT) : ceilLog2 rows = tableRowsLog rows := by
  unfold ceilLog2
  by_cases hrows : rows = 0
  · rw [if_pos hrows, hrows, tableRowsLog_zero]
  · rw [if_neg hrows, tableRowsLog_of_ne_zero hrows]

/-- What `create_lpc_scheme` does with the bound. -/
def emplaceScheme (L : Crypto3) (tableRowsLog : SizeT) : Step L Unit := do
  let p ← self
  let params ← external (L.friParams 1 tableRowsLog p.lambda p.expandFactor)
  emplaceLpcScheme params

theorem createLpcScheme_run_zero {description : L.TableDescription}
    (hdescription : p.tableDescription = some description)
    (hrows : L.rowsAmount description = 0) :
    (createLpcScheme.run ⟨p, fs⟩).1 = .error (.undefined .conversionOutOfRange) := by
  unfold createLpcScheme
  rw [Action.run_bind_ok (run_deref_some hdescription), ceilLog2_eq, hrows, tableRowsLog_zero]
  rfl

theorem createLpcScheme_run_some {description : L.TableDescription} {k : ℕ}
    (hdescription : p.tableDescription = some description)
    (hk : tableRowsLog (L.rowsAmount description) = some k) :
    createLpcScheme.run ⟨p, fs⟩ = (emplaceScheme L (UInt64.ofNat k)).run ⟨p, fs⟩ := by
  unfold createLpcScheme
  rw [Action.run_bind_ok (run_deref_some hdescription), ceilLog2_eq, hk]
  rfl

theorem emplaceScheme_defined (k : SizeT) (s : Session L) (f : Fault) :
    ((emplaceScheme L k).run s).1 ≠ .error (.undefined f) := by
  unfold emplaceScheme
  rw [Action.run_bind_ok (run_self s), Action.run_bind, run_external]
  cases L.friParams 1 k s.prover.lambda s.prover.expandFactor with
  | error e => simp [Except.mapError]
  | ok params =>
    simp only [Except.mapError]
    unfold emplaceLpcScheme
    rw [Action.run_bind_ok (run_update _ _), Action.run_bind, run_external]
    cases L.lpcScheme params with
    | error e => simp [Except.mapError]
    | ok scheme => simp [Except.mapError, run_update]

/-- The step from the row count to the degree bound is defined, and the bound is the least
exponent of two that reaches the count. -/
structure DegreeBoundCovers (s : Session L) (rows : SizeT) : Prop where
  defined : ∀ f, (createLpcScheme.run s).1 ≠ .error (.undefined f)
  least : ∃ k : SizeT, tableRowsLog rows = some k.toNat ∧
    IsLeast {n | rows.toNat ≤ 2 ^ n} k.toNat ∧
    createLpcScheme.run s = (emplaceScheme L k).run s

theorem degreeBoundCovers_iff {description : L.TableDescription}
    (hdescription : p.tableDescription = some description) :
    DegreeBoundCovers ⟨p, fs⟩ (L.rowsAmount description) ↔ L.rowsAmount description ≠ 0 := by
  constructor
  · intro h hrows
    exact h.defined _ (createLpcScheme_run_zero hdescription hrows)
  · intro hrows
    have hk := tableRowsLog_of_ne_zero hrows
    have hrun : createLpcScheme.run ⟨p, fs⟩ = _ := createLpcScheme_run_some hdescription hk
    have hword : (UInt64.ofNat (Nat.clog 2 (L.rowsAmount description).toNat)).toNat =
        Nat.clog 2 (L.rowsAmount description).toNat :=
      UInt64.toNat_ofNat_of_lt' (clog_lt_size _)
    refine ⟨?_, _, ?_, ?_, hrun⟩
    · intro f
      rw [hrun]
      exact emplaceScheme_defined _ _ f
    · rw [hword]
      exact hk
    · rw [hword]
      exact clog_isLeast _

/-- A reader that has accepted a file leaves the description it carries in the object. -/
theorem readMember_describes {M α : Type} {codec : Codec Exception M}
    {make : M → Except Exception α} {emplace : α → Prover L → Prover L} {path : Path}
    {s t : Session L} (h : (readMember codec make emplace path).run s = (.ok true, t))
    (hemplace : ∀ a p, (emplace a p).tableDescription ≠ none) :
    t.prover.tableDescription ≠ none := by
  rw [readMember_run] at h
  rcases hobject : objectIn codec make s.files path false with e | a
  · simp [hobject] at h
  · cases a with
    | none => simp [hobject] at h
    | some a =>
      simp only [hobject] at h
      rw [← (Prod.mk.inj h).2]
      exact hemplace a s.prover

/-- The degree bound covers the table of every accepted file that has a row. -/
theorem degree_bound_covers_iff {read : Path → Step L Bool}
    (hread : read = readAssignmentTable ∨ read = readAssignmentDescription) {path : Path}
    {s t : Session L} (haccepted : (read path).run s = (.ok true, t)) :
    ∃ description, t.prover.tableDescription = some description ∧
      (DegreeBoundCovers t (L.rowsAmount description) ↔ L.rowsAmount description ≠ 0) := by
  have hdescribed : t.prover.tableDescription ≠ none := by
    rcases hread with rfl | rfl
    · exact readMember_describes haccepted fun _ _ => by simp
    · exact readMember_describes haccepted fun _ _ => by simp
  obtain ⟨description, hdescription⟩ := Option.ne_none_iff_exists'.mp hdescribed
  exact ⟨description, hdescription, degreeBoundCovers_iff hdescription⟩

/-- A description file whose byte is the row count. -/
def describedFiles (rows : UInt8) : FileSystem := FileSystem.empty.store [['d']] [rows]

/-- A prover that has read it. -/
def describedProver (rows : UInt8) : Prover .small :=
  { Prover.new .small 9 2 0 69 with tableDescription := some rows }

theorem describedFiles_accepted (rows : UInt8) :
    (readAssignmentDescription ['d']).run ⟨Prover.new .small 9 2 0 69, describedFiles rows⟩ =
      (.ok true, ⟨describedProver rows, describedFiles rows⟩) := by
  have hheld : objectIn Crypto3.small.plonkAssignmentTableDescription
      Crypto3.small.makeAssignmentTableDescription (describedFiles rows) ['d'] false =
        .ok (some rows) := rfl
  rw [readAssignmentDescription, readMember_run, hheld]
  rfl

theorem degree_bound_covers_iff_five :
    ∃ description, (describedProver 5).tableDescription = some description ∧
      (DegreeBoundCovers ⟨describedProver 5, describedFiles 5⟩
        (Crypto3.small.rowsAmount description) ↔ Crypto3.small.rowsAmount description ≠ 0) :=
  degree_bound_covers_iff (Or.inr rfl) (describedFiles_accepted 5)

/-- A description without rows is accepted, and its logarithm is converted all the same. -/
theorem zero_rows_have_no_degree_bound :
    ¬ ∀ (L : Crypto3) (read : Path → Step L Bool),
      read = readAssignmentTable ∨ read = readAssignmentDescription →
      ∀ (path : Path) (s t : Session L), (read path).run s = (.ok true, t) →
        ∃ description, t.prover.tableDescription = some description ∧
          DegreeBoundCovers t (L.rowsAmount description) := by
  intro h
  obtain ⟨description, hdescription, hcovers⟩ :=
    h .small _ (Or.inr rfl) ['d'] _ _ (describedFiles_accepted 0)
  have hzero : description = (0 : UInt8) := (Option.some.inj hdescription).symm
  apply hcovers.defined .conversionOutOfRange
  apply createLpcScheme_run_zero hdescription
  rw [hzero]
  rfl

end ProofProducer
