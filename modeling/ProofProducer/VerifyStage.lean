import ProofProducer.MemberSafety

/-!
# Stage `verify`

The only way to exit 0 is through the external verifier, on the objects the four files decode
to and on the scheme rebuilt from the description and the options.
-/

namespace ProofProducer

open Effects Files Files.FileSystem Codecs

set_option autoImplicit false

variable {L : Crypto3} {d : Disk} {o : ProverOptions} {fs fs₁ : FileSystem}

/-- Everything stage `verify` reads and computes, and the verdict of the verifier. -/
structure Verification (L : Crypto3) (o : ProverOptions) (fs : FileSystem) where
  circuit : L.ConstraintSystem
  commonData : L.CommonData
  description : L.TableDescription
  proof : L.Proof
  params : L.FriParams
  scheme : L.LpcScheme
  circuit_read : L.circuitIn fs o.circuitFilePath = .ok (some circuit)
  commonData_read : L.commonDataIn fs o.preprocessedCommonDataPath = .ok (some commonData)
  description_read :
    L.descriptionIn fs o.assignmentDescriptionFilePath = .ok (some description)
  proof_read : L.proofIn fs o.proofFilePath = .ok (some proof)
  rows : L.rowsAmount description ≠ 0
  params_made : L.friParams 1 (UInt64.ofNat (Nat.clog 2 (L.rowsAmount description).toNat))
    o.lambda o.expandFactor = .ok params
  scheme_made : L.lpcScheme params = .ok scheme
  accepted : L.placeholderVerifier commonData proof description circuit scheme = .ok true

theorem freshScheme_ok_iff {lambda expandFactor : SizeT} {description : L.TableDescription}
    {scheme : L.LpcScheme} :
    freshScheme L lambda expandFactor description = .ok scheme ↔
      L.rowsAmount description ≠ 0 ∧ ∃ params,
        L.friParams 1 (UInt64.ofNat (Nat.clog 2 (L.rowsAmount description).toNat)) lambda
          expandFactor = .ok params ∧ L.lpcScheme params = .ok scheme := by
  unfold freshScheme Prover.ceilLog2
  by_cases hrows : L.rowsAmount description = 0
  · simp [hrows]
  rw [if_neg hrows]
  dsimp only
  rcases L.friParams 1 (UInt64.ofNat (Nat.clog 2 (L.rowsAmount description).toNat)) lambda
    expandFactor with e | params
  · simp
  · rcases hs : L.lpcScheme params with e | s
    · simp [hs, Except.mapError]
    · simp [hs, Except.mapError, hrows]

/-- Without a row there is no scheme; with one, only the library can refuse to make it. -/
theorem freshScheme_error_thrown {lambda expandFactor : SizeT} {description : L.TableDescription}
    {e : Stop} (hrows : L.rowsAmount description ≠ 0)
    (h : freshScheme L lambda expandFactor description = .error e) : ∃ e', e = .thrown e' := by
  unfold freshScheme Prover.ceilLog2 at h
  rw [if_neg hrows] at h
  dsimp only at h
  split at h
  · exact ⟨_, (Except.error.inj h).symm⟩
  · rename_i params _
    cases hs : L.lpcScheme params with
    | error e' =>
      rw [hs] at h
      exact ⟨e', (Except.error.inj h).symm⟩
    | ok s => simp [hs, Except.mapError] at h

/-- The prover when stage `verify` turns to the proof. -/
def Verification.prover (v : Verification L o fs) : Prover L :=
  { Prover.new L o.lambda o.expandFactor o.maxQuotientChunks o.grind with
    constraintSystem := some v.circuit
    commonData := some v.commonData
    tableDescription := some v.description }

theorem allOf_verify_true_iff :
    (∃ t, (Action.allOf (stageSteps L d o .verify)).run (initialSession L o fs) = (.ok true, t)) ↔
      Nonempty (Verification L o fs) := by
  constructor
  · intro hrun
    obtain ⟨t, h⟩ := hrun
    obtain ⟨_, hcircuit, h⟩ := Action.allOf_cons_true_iff.mp h
    obtain ⟨cs, hcs, rfl⟩ := Prover.readMember_true_iff.mp hcircuit
    obtain ⟨_, hcommon, h⟩ := Action.allOf_cons_true_iff.mp h
    obtain ⟨common, hc, rfl⟩ := Prover.readMember_true_iff.mp hcommon
    obtain ⟨_, hdescription, h⟩ := Action.allOf_cons_true_iff.mp h
    obtain ⟨description, hd, rfl⟩ := Prover.readMember_true_iff.mp hdescription
    obtain ⟨_, hverify, _⟩ := Action.allOf_cons_true_iff.mp h
    obtain ⟨scheme, proof, hfresh, hproof, haccepted, _⟩ :=
      (Prover.verifyFromFile_true_iff rfl rfl rfl).mp hverify
    obtain ⟨hrows, params, hparams, hscheme⟩ := freshScheme_ok_iff.mp hfresh
    exact ⟨⟨cs, common, description, proof, params, scheme, hcs, hc, hd, hproof, hrows, hparams,
      hscheme, haccepted⟩⟩
  · intro h
    obtain ⟨v⟩ := h
    have hfresh : freshScheme L o.lambda o.expandFactor v.description = .ok v.scheme :=
      freshScheme_ok_iff.mpr ⟨v.rows, v.params, v.params_made, v.scheme_made⟩
    have hverify : (Prover.verifyFromFile o.proofFilePath).run ⟨v.prover, fs⟩ =
        (.ok true, ⟨{ v.prover with lpcScheme := some v.scheme }, fs⟩) :=
      (Prover.verifyFromFile_true_iff rfl rfl rfl).mpr
        ⟨v.scheme, v.proof, hfresh, v.proof_read, v.accepted, rfl⟩
    refine ⟨⟨{ v.prover with lpcScheme := some v.scheme }, fs⟩, ?_⟩
    refine Action.allOf_cons_true_iff.mpr
      ⟨_, Prover.readMember_true_iff.mpr ⟨v.circuit, v.circuit_read, rfl⟩, ?_⟩
    refine Action.allOf_cons_true_iff.mpr
      ⟨_, Prover.readMember_true_iff.mpr ⟨v.commonData, v.commonData_read, rfl⟩, ?_⟩
    refine Action.allOf_cons_true_iff.mpr
      ⟨_, Prover.readMember_true_iff.mpr ⟨v.description, v.description_read, rfl⟩, ?_⟩
    exact Action.allOf_cons_true_iff.mpr ⟨_, hverify, Action.allOf_nil_true_iff.mpr rfl⟩

/-- Once the four files and the scheme are known, only the verdict is left. -/
theorem verification_iff {circuit : L.ConstraintSystem} {common : L.CommonData}
    {description : L.TableDescription} {proof : L.Proof} {scheme : L.LpcScheme}
    (hcircuit : L.circuitIn fs o.circuitFilePath = .ok (some circuit))
    (hcommon : L.commonDataIn fs o.preprocessedCommonDataPath = .ok (some common))
    (hdescription : L.descriptionIn fs o.assignmentDescriptionFilePath = .ok (some description))
    (hproof : L.proofIn fs o.proofFilePath = .ok (some proof))
    (hscheme : freshScheme L o.lambda o.expandFactor description = .ok scheme) :
    Nonempty (Verification L o fs) ↔
      L.placeholderVerifier common proof description circuit scheme = .ok true := by
  constructor
  · intro h
    obtain ⟨v⟩ := h
    have hc : v.circuit = circuit := by simpa [v.circuit_read] using hcircuit
    have hm : v.commonData = common := by simpa [v.commonData_read] using hcommon
    have he : v.description = description := by simpa [v.description_read] using hdescription
    have hπ : v.proof = proof := by simpa [v.proof_read] using hproof
    have hfresh : freshScheme L o.lambda o.expandFactor v.description = .ok v.scheme :=
      freshScheme_ok_iff.mpr ⟨v.rows, v.params, v.params_made, v.scheme_made⟩
    have hs : v.scheme = scheme := by
      rw [he, hscheme] at hfresh
      exact (Except.ok.inj hfresh).symm
    have haccepted := v.accepted
    rw [hc, hm, he, hπ, hs] at haccepted
    exact haccepted
  · intro h
    obtain ⟨hrows, params, hparams, hs⟩ := freshScheme_ok_iff.mp hscheme
    exact ⟨⟨circuit, common, description, proof, params, scheme, hcircuit, hcommon, hdescription,
      hproof, hrows, hparams, hs, h⟩⟩

theorem runProver_verify_exit_zero_iff (h : o.stage = "verify") :
    (runProver L d o fs).1 = .exit 0 ↔ Nonempty (Verification L o fs) := by
  have hstage := stage_mem .verify h
  rw [runProver_of_stage hstage, Outcome.ofResult_exit_zero_iff, ← allOf_verify_true_iff]
  constructor
  · intro hrun
    exact ⟨_, Prod.ext hrun rfl⟩
  · intro hrun
    obtain ⟨t, ht⟩ := hrun
    rw [ht]

theorem readMember_error {M α : Type} {codec : Codec Exception M}
    {make : M → Except Exception α} {emplace : α → Prover L → Prover L} {path : Path}
    {s t : Session L} {e : Stop}
    (h : (Prover.readMember codec make emplace path).run s = (.error e, t)) :
    ∃ e', e = .thrown e' := by
  obtain ⟨p, fs⟩ := s
  rw [Prover.readMember_run] at h
  split at h
  · exact ⟨_, (Except.error.inj (Prod.mk.inj h).1).symm⟩
  · simp at h
  · simp at h

/-- Stage `verify` stops with an exception only, unless the description has no row. -/
theorem allOf_verify_error {t : Session L} {e : Stop}
    (hrows : ∀ description, L.descriptionIn fs o.assignmentDescriptionFilePath =
      .ok (some description) → L.rowsAmount description ≠ 0)
    (h : (Action.allOf (stageSteps L d o .verify)).run (initialSession L o fs) = (.error e, t)) :
    ∃ e', e = .thrown e' := by
  rcases Action.allOf_cons_error_iff.mp h with hstop | ⟨u, hcircuit, h⟩
  · exact readMember_error hstop
  obtain ⟨cs, _, rfl⟩ := Prover.readMember_true_iff.mp hcircuit
  rcases Action.allOf_cons_error_iff.mp h with hstop | ⟨u, hcommon, h⟩
  · exact readMember_error hstop
  obtain ⟨common, _, rfl⟩ := Prover.readMember_true_iff.mp hcommon
  rcases Action.allOf_cons_error_iff.mp h with hstop | ⟨u, hdescription, h⟩
  · exact readMember_error hstop
  obtain ⟨description, hd, rfl⟩ := Prover.readMember_true_iff.mp hdescription
  rcases Action.allOf_cons_error_iff.mp h with hstop | ⟨u, _, h⟩
  · rw [Prover.verifyFromFile_run rfl rfl rfl] at hstop
    split at hstop
    · rename_i e' hfresh
      rw [← Except.error.inj (Prod.mk.inj hstop).1]
      exact freshScheme_error_thrown (hrows description hd) hfresh
    · have he := (Prod.mk.inj hstop).1
      split at he
      · exact ⟨_, (Except.error.inj he).symm⟩
      · simp at he
      · rename_i scheme _ _ proof _
        cases hv : L.placeholderVerifier common proof description cs scheme with
        | error e' =>
          rw [hv] at he
          exact ⟨e', (Except.error.inj he).symm⟩
        | ok b => simp [hv, Except.mapError] at he
  · simp [Action.allOf_nil] at h

theorem keepsFiles_verifySteps (L : Crypto3) (d : Disk) (o : ProverOptions) :
    ∀ m ∈ stageSteps L d o .verify, KeepsFiles m := by
  intro m hm
  simp only [stageSteps, List.mem_cons, List.not_mem_nil, or_false] at hm
  rcases hm with rfl | rfl | rfl | rfl
  · exact keepsFiles_readMember _ _ _ _
  · exact keepsFiles_readMember _ _ _ _
  · exact keepsFiles_readMember _ _ _ _
  · exact keepsFiles_verifyFromFile _

/-- A run of stage `verify` exits 0 through the verifier and 1 otherwise, and changes no file. -/
theorem runProver_verify (d : Disk) (h : o.stage = "verify")
    (hrows : ∀ description, L.descriptionIn fs o.assignmentDescriptionFilePath =
      .ok (some description) → L.rowsAmount description ≠ 0) :
    (Nonempty (Verification L o fs) → runProver L d o fs = (.exit 0, fs)) ∧
      (¬ Nonempty (Verification L o fs) → runProver L d o fs = (.exit 1, fs)) := by
  have hstage := stage_mem .verify h
  have hfiles : (runProver L d o fs).2 = fs := by
    rw [runProver_of_stage hstage]
    exact (keepsFiles_allOf (keepsFiles_verifySteps L d o)).files_eq (initialSession L o fs)
  constructor
  · intro hv
    exact Prod.ext ((runProver_verify_exit_zero_iff h).mpr hv) hfiles
  · intro hv
    refine Prod.ext ?_ hfiles
    have hne : (runProver L d o fs).1 ≠ .exit 0 :=
      fun he => hv ((runProver_verify_exit_zero_iff h).mp he)
    rw [runProver_of_stage hstage] at hne ⊢
    rcases hrun : (Action.allOf (stageSteps L d o .verify)).run (initialSession L o fs) with ⟨r, t⟩
    rw [hrun] at hne
    rcases r with e | b
    · obtain ⟨e', rfl⟩ := allOf_verify_error hrows hrun
      rfl
    · cases b with
      | true => exact (hne rfl).elim
      | false => rfl

/-- The directory after stages `preprocess` and `prove`. -/
def provedFiles : FileSystem := filesAfter "prove" (filesAfter "preprocess" smallFiles)

theorem runProver_verify_small :
    (Nonempty (Verification .small (smallOptions "verify") provedFiles) →
        runProver .small .reliable (smallOptions "verify") provedFiles = (.exit 0, provedFiles)) ∧
      (¬ Nonempty (Verification .small (smallOptions "verify") provedFiles) →
        runProver .small .reliable (smallOptions "verify") provedFiles =
          (.exit 1, provedFiles)) := by
  have hread : Crypto3.small.descriptionIn provedFiles ['d'] = .ok (some (2 : UInt8)) := rfl
  refine runProver_verify .reliable rfl fun description hdescription => ?_
  have heq := Option.some.inj (Except.ok.inj (hread.symm.trans hdescription))
  rw [← heq]
  decide

end ProofProducer
