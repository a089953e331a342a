import ProofProducer.Frames

/-!
# Whole runs

A run that exits 0 is characterised, stage by stage, by the computation it made and the writes
it did. Before a stage has a proof to publish it changes nothing but what the probe changes.
-/

namespace ProofProducer

open Effects Files Files.FileSystem Codecs

set_option autoImplicit false

variable {L : Crypto3} {d : Disk} {o : ProverOptions} {fs fs₁ : FileSystem}

theorem proverStageFromString_ok_iff {name : String} {stage : ProverStage} :
    proverStageFromString name = .ok stage ↔ (name, stage) ∈ stageMap := by
  unfold proverStageFromString
  constructor
  · intro h
    split at h
    · rename_i s hs
      obtain ⟨l₁, l₂, hl, _⟩ := List.lookup_eq_some_iff.mp hs
      rw [← Except.ok.inj h, hl]
      simp
    · simp at h
  · intro h
    simp only [stageMap, List.mem_cons, Prod.mk.injEq, List.not_mem_nil, or_false] at h
    rcases h with ⟨rfl, rfl⟩ | ⟨rfl, rfl⟩ | ⟨rfl, rfl⟩ | ⟨rfl, rfl⟩ | ⟨rfl, rfl⟩ <;> rfl

/-- The name under which the options ask for a stage. -/
def ProverStage.name : ProverStage → String
  | .all => "all"
  | .preprocess => "preprocess"
  | .prove => "prove"
  | .verify => "verify"
  | .generateAggregatedChallenge => "generate-aggregated-challenge"

theorem stage_mem (stage : ProverStage) (h : o.stage = stage.name) :
    (o.stage, stage) ∈ stageMap := by
  rw [h]
  cases stage <;> decide

theorem runProver_of_stage {stage : ProverStage} (h : (o.stage, stage) ∈ stageMap) :
    runProver L d o fs =
      (.ofResult ((Action.allOf (stageSteps L d o stage)).run (initialSession L o fs)).1,
        ((Action.allOf (stageSteps L d o stage)).run (initialSession L o fs)).2.files) := by
  unfold runProver proverTask
  rw [Action.run_bind, Prover.run_external, proverStageFromString_ok_iff.mpr h]
  rfl

theorem runProver_of_no_stage (h : ∀ stage, (o.stage, stage) ∉ stageMap) :
    runProver L d o fs = (.exit 1, fs) := by
  unfold runProver proverTask
  rw [Action.run_bind, Prover.run_external]
  cases hs : proverStageFromString o.stage with
  | ok stage => exact (h stage (proverStageFromString_ok_iff.mp hs)).elim
  | error e => rfl

theorem Outcome.ofResult_exit_zero_iff {r : Except Stop Bool} :
    Outcome.ofResult r = .exit 0 ↔ r = .ok true := by
  rcases r with e | b
  · cases e <;> simp [Outcome.ofResult]
  · cases b <;> simp [Outcome.ofResult]

theorem runProver_exit_zero_iff {stage : ProverStage} (h : (o.stage, stage) ∈ stageMap) :
    runProver L d o fs = (.exit 0, fs₁) ↔
      ∃ p, (Action.allOf (stageSteps L d o stage)).run (initialSession L o fs) =
        (.ok true, ⟨p, fs₁⟩) := by
  rw [runProver_of_stage h, Prod.mk.injEq, Outcome.ofResult_exit_zero_iff]
  rcases (Action.allOf (stageSteps L d o stage)).run (initialSession L o fs) with ⟨r, p, fs₂⟩
  constructor
  · intro h
    obtain ⟨rfl, rfl⟩ := h
    exact ⟨p, rfl⟩
  · intro h
    obtain ⟨p', h'⟩ := h
    obtain ⟨rfl, hs⟩ := Prod.mk.inj h'
    obtain ⟨rfl, rfl⟩ := Session.mk.inj hs
    exact ⟨rfl, rfl⟩

section Evidence
variable (L : Crypto3) (d : Disk) (o : ProverOptions) (fs fs₁ : FileSystem)

/-- A run of stage `all` from `fs` that exits 0 and leaves `fs₁`. -/
structure AllRun extends Proving L o fs where
  saved : SavedBytes L data usedScheme
  proofBytes : Bytes
  probed : FileSystem
  proofStored : FileSystem
  jsonTried : FileSystem
  proof_encoded : L.proofBytes proof (L.getFriParams usedScheme) = .ok (some proofBytes)
  probe_ok : (canWriteToFile o.proofFilePath).run fs = (.ok true, probed)
  proof_written : written d probed o.proofFilePath (hexText proofBytes) = (true, proofStored)
  json_tried : JsonAttempt d proofStored o.jsonFilePath toProving.jsonText jsonTried
  all_saved : WritesThrough d jsonTried (saved.writes o) fs₁

/-- A run of stage `preprocess` from `fs` that exits 0 and leaves `fs₁`. -/
structure PreprocessRun extends Preprocessing L o fs where
  saved : SavedBytes L data scheme
  descriptionBytes : Bytes
  description_encoded : L.descriptionBytes description = .ok (some descriptionBytes)
  all_saved : WritesThrough d fs
    ((o.assignmentDescriptionFilePath, descriptionBytes) :: saved.writes o) fs₁

/-- A run of stage `prove` up to the point where its proof has been written. -/
structure ProveRun extends Resumption L o fs where
  proofBytes : Bytes
  probed : FileSystem
  proof_encoded : L.proofBytes proof (L.getFriParams usedScheme) = .ok (some proofBytes)
  probe_ok : (canWriteToFile o.proofFilePath).run fs = (.ok true, probed)
  proof_written : written d probed o.proofFilePath (hexText proofBytes) = (true, fs₁)

end Evidence

variable {t : Session L}

theorem allOf_all_true_iff :
    (Action.allOf (stageSteps L d o .all)).run (initialSession L o fs) = (.ok true, t) ↔
      ∃ r : AllRun L d o fs t.files, t.prover = r.toProving.prover := by
  rw [stageSteps_all, allOf_generateToFile_run]
  constructor
  · intro h
    rcases ha : (acceptedProof (preparation L o) o.proofFilePath false).run
      (initialSession L o fs) with ⟨r, u⟩
    rw [ha] at h
    rcases r with e | proof
    · simp at h
    rcases proof with _ | proof
    · simp at h
    obtain ⟨c, fs₂, rfl, hprobe, rfl⟩ := acceptedProof_preparation_iff.mp ha
    obtain ⟨b, _, hpublish, hrest⟩ := Action.bind_ok_iff.mp h
    cases b with
    | false => simp at hrest
    | true =>
      obtain ⟨v, fs₃, fs₄, hv, hw, hjson, rfl⟩ :=
        (Prover.publishProof_true_iff rfl rfl rfl rfl).mp hpublish
      obtain ⟨saved, fs₅, hsaved, rfl⟩ := (savingSteps_true_iff rfl rfl).mp hrest
      exact ⟨⟨c, saved, v, fs₂, fs₃, fs₄, hv, hprobe, hw, hjson, hsaved⟩, rfl⟩
  · intro h
    obtain ⟨r, hp⟩ := h
    have ha := acceptedProof_preparation_iff.mpr ⟨r.toProving, r.probed, rfl, r.probe_ok, rfl⟩
    rw [ha]
    refine Action.bind_ok_iff.mpr ⟨true, _, (Prover.publishProof_true_iff rfl rfl rfl rfl).mpr
      ⟨r.proofBytes, r.proofStored, r.jsonTried, r.proof_encoded, r.proof_written, r.json_tried,
        rfl⟩, ?_⟩
    exact (savingSteps_true_iff rfl rfl).mpr ⟨r.saved, t.files, r.all_saved,
      congrArg (fun p => (⟨p, t.files⟩ : Session L)) hp⟩

theorem allOf_preprocess_true_iff :
    (Action.allOf (stageSteps L d o .preprocess)).run (initialSession L o fs) = (.ok true, t) ↔
      ∃ r : PreprocessRun L d o fs t.files, t.prover = r.toPreprocessing.prover := by
  have hdescription : ∀ (cs : L.ConstraintSystem) (description : L.TableDescription)
      (table : L.AssignmentTable) (fs : FileSystem),
      (Prover.deref .tableDescription Prover.tableDescription).run
        ⟨loadedProver L o cs description table, fs⟩ = _ :=
    fun _ _ _ _ => Prover.run_deref_some rfl
  constructor
  · intro h
    obtain ⟨_, hcircuit, h⟩ := Action.allOf_cons_true_iff.mp h
    obtain ⟨cs, hcs, rfl⟩ := Prover.readMember_true_iff.mp hcircuit
    obtain ⟨_, htable, h⟩ := Action.allOf_cons_true_iff.mp h
    obtain ⟨⟨description, table⟩, hread, rfl⟩ := Prover.readMember_true_iff.mp htable
    obtain ⟨_, hsave, h⟩ := Action.allOf_cons_true_iff.mp h
    obtain ⟨v, fs₂, hv, hw, rfl⟩ :=
      (Prover.saveObject_true_iff (hdescription cs description table)).mp hsave
    obtain ⟨_, hpublic, h⟩ := Action.allOf_cons_true_iff.mp h
    obtain ⟨fresh, data, scheme, hfresh, hdata, rfl⟩ :=
      (Prover.preprocessPublicData_true_iff rfl rfl rfl).mp hpublic
    obtain ⟨saved, fs₃, hsaved, rfl⟩ := (savingSteps_true_iff rfl rfl).mp h
    exact ⟨⟨⟨cs, description, table, fresh, data, scheme, hcs, hread, hfresh, hdata⟩, saved, v, hv,
      .cons hw hsaved⟩, rfl⟩
  · intro h
    obtain ⟨r, hp⟩ := h
    have hwrites := r.all_saved
    cases hwrites with
    | cons hw hsaved =>
    refine Action.allOf_cons_true_iff.mpr
      ⟨_, Prover.readMember_true_iff.mpr ⟨r.circuit, r.circuit_read, rfl⟩, ?_⟩
    refine Action.allOf_cons_true_iff.mpr
      ⟨_, Prover.readMember_true_iff.mpr ⟨(r.description, r.table), r.table_read, rfl⟩, ?_⟩
    refine Action.allOf_cons_true_iff.mpr ⟨_, (Prover.saveObject_true_iff
      (hdescription r.circuit r.description r.table)).mpr
        ⟨_, _, r.description_encoded, hw, rfl⟩, ?_⟩
    refine Action.allOf_cons_true_iff.mpr ⟨_, (Prover.preprocessPublicData_true_iff rfl rfl
      rfl).mpr ⟨r.fresh, r.data, r.scheme, r.fresh_made, r.preprocessed, rfl⟩, ?_⟩
    exact (savingSteps_true_iff rfl rfl).mpr ⟨r.saved, t.files, hsaved,
      congrArg (fun p => (⟨p, t.files⟩ : Session L)) hp⟩

theorem runProver_all_exit_zero_iff (h : o.stage = "all") :
    runProver L d o fs = (.exit 0, fs₁) ↔ Nonempty (AllRun L d o fs fs₁) := by
  have hstage := stage_mem .all h
  rw [runProver_exit_zero_iff hstage]
  constructor
  · intro h
    obtain ⟨p, hp⟩ := h
    obtain ⟨r, _⟩ := allOf_all_true_iff.mp hp
    exact ⟨r⟩
  · intro h
    obtain ⟨r⟩ := h
    exact ⟨r.toProving.prover, allOf_all_true_iff.mpr ⟨r, rfl⟩⟩

theorem runProver_preprocess_exit_zero_iff (h : o.stage = "preprocess") :
    runProver L d o fs = (.exit 0, fs₁) ↔ Nonempty (PreprocessRun L d o fs fs₁) := by
  have hstage := stage_mem .preprocess h
  rw [runProver_exit_zero_iff hstage]
  constructor
  · intro h
    obtain ⟨p, hp⟩ := h
    obtain ⟨r, _⟩ := allOf_preprocess_true_iff.mp hp
    exact ⟨r⟩
  · intro h
    obtain ⟨r⟩ := h
    exact ⟨r.toPreprocessing.prover, allOf_preprocess_true_iff.mpr ⟨r, rfl⟩⟩

/-- Stage `prove` never fills `public_inputs_`, so opening the JSON file is the last thing it
does with a proof. -/
theorem allOf_prove_run (c : Resumption L o fs)
    (hprobe : (canWriteToFile o.proofFilePath).run fs = (.ok true, fs₁)) :
    (Action.allOf (stageSteps L d o .prove)).run (initialSession L o fs) =
      match L.proofBytes c.proof (L.getFriParams c.usedScheme) with
      | .error e => (.error (.thrown e), ⟨c.prover, fs₁⟩)
      | .ok v =>
        match (Prover.writtenProof d fs₁ o.proofFilePath v).2.openForWriting o.jsonFilePath with
        | none =>
          (.ok (Prover.writtenProof d fs₁ o.proofFilePath v).1,
            ⟨c.prover, (Prover.writtenProof d fs₁ o.proofFilePath v).2⟩)
        | some l =>
          (.error (.undefined (.emptyOptional .publicInputs)),
            ⟨c.prover, (Prover.writtenProof d fs₁ o.proofFilePath v).2.store l []⟩) := by
  have ha := acceptedProof_resumption_iff.mpr ⟨c, fs₁, rfl, hprobe, rfl⟩
  rw [stageSteps_prove, allOf_generateToFile_run, ha]
  dsimp only
  rw [Action.run_bind, Prover.publishProof_run rfl rfl rfl]
  rcases L.proofBytes c.proof (L.getFriParams c.usedScheme) with e | v
  · rfl
  dsimp only
  rcases Prover.writtenProof d fs₁ o.proofFilePath v with ⟨res, fs₂⟩
  cases fs₂.openForWriting o.jsonFilePath with
  | none => cases res <;> rfl
  | some l => rfl

/-- Without a proof stage `prove` changes at most what the probe changes. -/
theorem allOf_prove_files (h : ¬ (Nonempty (Resumption L o fs) ∧
      ∃ fs₁, (canWriteToFile o.proofFilePath).run fs = (.ok true, fs₁))) :
    ((Action.allOf (stageSteps L d o .prove)).run (initialSession L o fs)).2.files = fs ∨
      ((Action.allOf (stageSteps L d o .prove)).run (initialSession L o fs)).2.files =
        ((canWriteToFile o.proofFilePath).run fs).2 := by
  have hfiles := acceptedProof_files (keepsFiles_resumption L o) o.proofFilePath true
    (initialSession L o fs)
  rw [stageSteps_prove, allOf_generateToFile_run]
  rcases ha : (acceptedProof (resumption L o) o.proofFilePath true).run
    (initialSession L o fs) with ⟨r, u⟩
  rw [ha] at hfiles
  rcases r with e | proof
  · exact hfiles
  cases proof with
  | none => exact hfiles
  | some proof =>
    obtain ⟨c, fs₁, _, hprobe, _⟩ := acceptedProof_resumption_iff.mp ha
    exact (h ⟨⟨c⟩, fs₁, hprobe⟩).elim

end ProofProducer
