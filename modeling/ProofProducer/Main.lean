import ProofProducer.CommandOptions
import ProofProducer.Runs

/-!
# `main`

From a command line to the end of the process. The library is selected by the curve and the hash.
An exception in `parse_args` is not caught; it terminates the process.
-/

namespace ProofProducer

open Effects Files Codecs Layers

set_option autoImplicit false

variable {L : Crypto3} {d : Disk} {fs : FileSystem}

abbrev Libraries := CurveType → HashType → Crypto3

inductive ProcessEnd where
  | returned (outcome : Outcome)
  | terminated (e : Exception)
  deriving DecidableEq, Repr

def hashWrapper (libs : Libraries) (d : Disk) (curve : CurveType) (o : AllOptions)
    (fs : FileSystem) : Outcome × FileSystem :=
  runProver (libs curve o.hashType) d o.toProverOptions fs

def curveWrapper (libs : Libraries) (d : Disk) (o : AllOptions) (fs : FileSystem) :
    Outcome × FileSystem :=
  hashWrapper libs d o.ellipticCurveType o fs

def initialWrapper (libs : Libraries) (d : Disk) (o : AllOptions) (fs : FileSystem) :
    Outcome × FileSystem :=
  curveWrapper libs d o fs

def main (po : ProgramOptions) (libs : Libraries) (d : Disk) (args : List String)
    (fs : FileSystem) : ProcessEnd × FileSystem :=
  match parseArgs po fs args with
  | .error e => (.terminated e, fs)
  | .ok none => (.returned (.exit 0), fs)
  | .ok (some o) => (.returned (initialWrapper libs d o fs).1, (initialWrapper libs d o fs).2)

variable {po : ProgramOptions} {libs : Libraries} {args args' : List String}
  {cli cli' config config' : Layer CommandOption.Value}

theorem main_of_asks (hstore : po.store.Lawful) (libs : Libraries) (d : Disk)
    (h : AsksForRun po fs args cli config) :
    ∃ v, Resolved cli config v ∧ main po libs d args fs =
      (.returned (initialWrapper libs d v fs).1, (initialWrapper libs d v fs).2) := by
  obtain ⟨v, hv, hresolved⟩ := h.exists_options hstore
  refine ⟨v, hresolved, ?_⟩
  unfold main
  rw [hv]

theorem main_of_no_run (hcli : parseArgs po fs args = .ok none) :
    main po libs d args fs = (.returned (.exit 0), fs) := by
  unfold main
  rw [hcli]

/-- Help and version are given in spite of a configuration file that cannot be read. -/
theorem main_help (hstore : po.store.Lawful) (hcli : po.parseCommandLine args = .ok cli)
    (h : (cli (.generic .help)).isSome ∨ (cli (.generic .version)).isSome) :
    main po libs d args fs = (.returned (.exit 0), fs) :=
  main_of_no_run ((parseArgs_none_iff hstore fs args).mpr ⟨cli, hcli, h⟩)

/-- One library for every curve and hash. -/
def smallLibraries : Libraries := fun _ _ => .small

/-- The files of a stage that have no default name. -/
def ProverStage.required : ProverStage → List ConfigOption
  | .all => [.circuit, .assignmentTable]
  | .preprocess => [.circuit, .assignmentTable, .assignmentDescriptionFile]
  | .prove => [.circuit, .assignmentTable]
  | .verify => [.circuit, .assignmentDescriptionFile]
  | .generateAggregatedChallenge => [.inputChallengeFiles]

/-- From objects of this kind the steps end a run with exit code 1 and no file changed. -/
def GiveUp (P : Prover L → Prop) (steps : List (Step L Bool)) : Prop :=
  ∀ p fs, P p → ∃ r q, (Action.allOf steps).run ⟨p, fs⟩ = (r, ⟨q, fs⟩) ∧
    Outcome.ofResult r = .exit 1

section GiveUp
variable {M α : Type} {codec : Codec Exception M} {make : M → Except Exception α}
  {emplace : α → Prover L → Prover L} {path : Path} {P Q : Prover L → Prop}
  {steps : List (Step L Bool)}

theorem giveUp_of_false {m : Step L Bool}
    (h : ∀ p fs, P p → m.run ⟨p, fs⟩ = (.ok false, ⟨p, fs⟩)) : GiveUp P (m :: steps) := by
  intro p fs hp
  refine ⟨.ok false, p, ?_, rfl⟩
  rw [Action.allOf_cons, Action.run_bind_ok (h p fs hp)]
  rfl

/-- There is no file to read under the empty path. -/
theorem giveUp_empty_path : GiveUp P (Prover.readMember codec make emplace [] :: steps) := by
  apply giveUp_of_false
  intro p fs _
  rw [Prover.readMember_run]
  rfl

theorem giveUp_after_read (hQ : ∀ a p, P p → Q (emplace a p)) (hsteps : GiveUp Q steps) :
    GiveUp P (Prover.readMember codec make emplace path :: steps) := by
  intro p fs hp
  rw [Action.allOf_cons, Action.run_bind, Prover.readMember_run]
  rcases objectIn codec make fs path false with e | a
  · exact ⟨_, p, rfl, rfl⟩
  · cases a with
    | none => exact ⟨_, p, rfl, rfl⟩
    | some a => exact hsteps (emplace a p) fs (hQ a p hp)

/-- Nothing can be saved under the empty path. -/
theorem giveUp_empty_output {m : Member} {get : Prover L → Option α}
    {fill : α → Except Exception M} (hget : ∀ p, P p → (get p).isSome) :
    GiveUp P (Prover.saveObject d codec (Prover.deref m get) fill [] :: steps) := by
  intro p fs hp
  obtain ⟨a, ha⟩ := Option.isSome_iff_exists.mp (hget p hp)
  rw [Action.allOf_cons, Action.run_bind, Prover.saveObject_run (Prover.run_deref_some ha)]
  rcases bytesOf codec fill a with e | v
  · exact ⟨_, p, rfl, rfl⟩
  · cases v with
    | none => exact ⟨_, p, rfl, rfl⟩
    | some v => exact ⟨_, p, rfl, rfl⟩

end GiveUp

theorem runProver_of_giveUp {o : ProverOptions} {stage : ProverStage} {P : Prover L → Prop}
    (hstage : (o.stage, stage) ∈ stageMap) (h : GiveUp P (stageSteps L d o stage))
    (hnew : P (initialSession L o fs).prover) : runProver L d o fs = (.exit 1, fs) := by
  obtain ⟨r, q, hrun, hexit⟩ := h (initialSession L o fs).prover fs hnew
  have hinitial : initialSession L o fs = ⟨(initialSession L o fs).prover, fs⟩ := rfl
  rw [runProver_of_stage hstage, hinitial, hrun, hexit]

theorem giveUp_without_inputs {circuit table : Path} (h : circuit = [] ∨ table = [])
    (rest : List (Step L Bool)) :
    GiveUp (fun _ => True)
      (Prover.readCircuit circuit :: Prover.readAssignmentTable table :: rest) := by
  rcases h with rfl | rfl
  · exact giveUp_empty_path
  · exact giveUp_after_read (Q := fun _ => True) (fun _ _ _ => trivial) giveUp_empty_path

theorem stage_gives_up {v : AllOptions} {stage : ProverStage} {o : ConfigOption}
    (ho : o ∈ stage.required) (hunset : v.variable o = initialOptions.variable o) :
    GiveUp (fun _ => True) (stageSteps L d v.toProverOptions stage) := by
  have hinputs : ∀ rest : List (Step L Bool), o = .circuit ∨ o = .assignmentTable →
      GiveUp (fun _ => True) (Prover.readCircuit v.circuitFilePath ::
        Prover.readAssignmentTable v.assignmentTableFilePath :: rest) := by
    intro rest h
    rcases h with rfl | rfl
    · exact giveUp_without_inputs (Or.inl hunset) rest
    · exact giveUp_without_inputs (Or.inr hunset) rest
  cases stage with
  | all => exact hinputs _ (by simpa [ProverStage.required] using ho)
  | prove => exact hinputs _ (by simpa [ProverStage.required] using ho)
  | preprocess =>
    simp only [ProverStage.required, List.mem_cons, List.not_mem_nil, or_false] at ho
    rcases ho with rfl | rfl | rfl
    · exact hinputs _ (Or.inl rfl)
    · exact hinputs _ (Or.inr rfl)
    · have hpath : v.assignmentDescriptionFilePath = [] := hunset
      simp only [stageSteps, hpath]
      refine giveUp_after_read (Q := fun _ => True) (fun _ _ _ => trivial) ?_
      refine giveUp_after_read (Q := fun p => p.tableDescription.isSome) (fun _ _ _ => rfl) ?_
      exact giveUp_empty_output fun p hp => hp
  | verify =>
    simp only [ProverStage.required, List.mem_cons, List.not_mem_nil, or_false] at ho
    rcases ho with rfl | rfl
    · have hpath : v.circuitFilePath = [] := hunset
      simp only [stageSteps, hpath]
      exact giveUp_empty_path
    · have hpath : v.assignmentDescriptionFilePath = [] := hunset
      simp only [stageSteps, hpath]
      refine giveUp_after_read (Q := fun _ => True) (fun _ _ _ => trivial) ?_
      refine giveUp_after_read (Q := fun _ => True) (fun _ _ _ => trivial) ?_
      exact giveUp_empty_path
  | generateAggregatedChallenge =>
    obtain rfl := List.mem_singleton.mp ho
    have hfiles : v.inputChallengeFiles = [] := hunset
    simp only [stageSteps, hfiles]
    exact giveUp_of_false fun _ _ _ => rfl

/-- A stage that is not told a file without a default name ends with exit code 1, before it has
changed any file. -/
theorem main_without_required (hstore : po.store.Lawful) (h : AsksForRun po fs args cli config)
    {stage : ProverStage}
    (hstage : ((((cli (.config .stage)).or (config (.config .stage))).getD "all"), stage) ∈
      stageMap)
    {o : ConfigOption} (ho : o ∈ stage.required)
    (hcli : cli (.config o) = none) (hconfig : config (.config o) = none)
    (libs : Libraries) (d : Disk) :
    main po libs d args fs = (.returned (.exit 1), fs) := by
  obtain ⟨v, hv, hrun⟩ := main_of_asks hstore libs d h
  have hname : (v.stage, stage) ∈ stageMap := by
    have hvalue := hv.variable_eq .stage
    have hsame : v.stage =
        ((cli (.config .stage)).or (config (.config .stage))).getD "all" := hvalue
    rw [hsame]
    exact hstage
  have hunset : v.variable o = initialOptions.variable o := by
    rw [hv.variable_eq, resolvedValue, hcli, hconfig]
    rfl
  have hexit : initialWrapper libs d v fs = (.exit 1, fs) :=
    runProver_of_giveUp hname (stage_gives_up ho hunset) trivial
  rw [hrun, hexit]

theorem main_without_required_small :
    main .small smallLibraries .reliable ["--assignment-table", "t"] smallFiles =
      (.returned (.exit 1), smallFiles) := by
  have hasks : AsksForRun .small smallFiles ["--assignment-table", "t"]
      (Function.update (fun _ => none) (.config .assignmentTable) (some ['t'])) (fun _ => none) :=
    ⟨rfl, rfl, rfl, rfl⟩
  have hstage : ("all", ProverStage.all) ∈ stageMap := by decide
  have hcircuit : ConfigOption.circuit ∈ ProverStage.all.required := by decide
  exact main_without_required Store.plain_lawful hasks hstage hcircuit rfl rfl smallLibraries
    .reliable

end ProofProducer
