import ProofProducer.Primitives
import ProofProducer.Histories
import ProofProducer.Main

/-!
# What has influence

What two objects differ in does not show if no primitive can see it. So a stage depends on the
options that its steps read and on no others, and each of those can make a difference. Common data
make a difference only to an object without preprocessed data.
-/

namespace ProofProducer

open Effects Files Files.FileSystem Composition Relational

set_option autoImplicit false

variable {L : Crypto3} {d : Disk} {α : Type} {fs₀ fs : FileSystem} {R W T : Path → Prop}
  {uses : Parameter → Prop} {o : ProverOptions} {s t : Session L}

/-- The whole directory is open to the primitives. -/
abbrev Everywhere (_ : Path) : Prop := True

theorem uniform_stageSteps_side {E : Prover L → Prover L → Prop} {stage : ProverStage}
    (hE : Unseen (· ∈ stageParameters stage) E) :
    ∀ m ∈ stageSteps L d o stage, Uniform (Side E (SameFiles fs₀)) m := by
  intro m hm
  have hcomposed : Composed (Primitive L d fs₀ Everywhere Everywhere Everywhere
      (· ∈ stageParameters stage)) Anything m :=
    composed_stageSteps stage (fun _ _ => trivial) (fun _ _ => ⟨trivial, trivial, trivial, trivial⟩)
      (fun _ _ => trivial) (fun _ hk => hk) m hm
  exact hcomposed.uniform fun hp => hp.faithful hE unread_sameFiles

def Prover.withParameter (p : Prover L) : Parameter → SizeT → Prover L
  | .lambda, v => { p with lambda := v }
  | .expandFactor, v => { p with expandFactor := v }
  | .maxQuotientChunks, v => { p with maxQuotientChunks := v }
  | .grind, v => { p with grind := v }

def ProverOptions.withParameter (o : ProverOptions) : Parameter → SizeT → ProverOptions
  | .lambda, v => { o with lambda := v }
  | .expandFactor, v => { o with expandFactor := v }
  | .maxQuotientChunks, v => { o with maxQuotientChunks := v }
  | .grind, v => { o with grind := v }

theorem Change.withParameter {f : Prover L → Prover L} (hf : Change f) (p : Prover L)
    (k : Parameter) (v : SizeT) : f (p.withParameter k v) = (f p).withParameter k v := by
  induction hf generalizing p with
  | emplace m x => cases k <;> cases m <;> rfl
  | dropTable => cases k <;> rfl
  | dropScheme => cases k <;> rfl
  | @comp f g _ _ ihf ihg =>
    show g (f (p.withParameter k v)) = (g (f p)).withParameter k v
    rw [ihf, ihg]

theorem unseen_parameter {k : Parameter} (hk : ¬ uses k) (v : SizeT) :
    Unseen uses fun p q : Prover L => q = p.withParameter k v := by
  constructor
  · rintro p q m rfl _
    cases k <;> cases m <;> rfl
  · rintro p q rfl
    cases k <;> rfl
  · rintro p q k' rfl hk'
    have hne : k' ≠ k := fun h => hk (h ▸ hk')
    cases k <;> cases k' <;> first | rfl | exact (hne rfl).elim
  · rintro p q f rfl hf
    exact hf.withParameter p k v

theorem stageSteps_withParameter (stage : ProverStage) (k : Parameter) (v : SizeT) :
    stageSteps L d (o.withParameter k v) stage = stageSteps L d o stage := by
  cases k <;> cases stage <;> rfl

theorem stage_withParameter (o : ProverOptions) (k : Parameter) (v : SizeT) :
    (o.withParameter k v).stage = o.stage := by
  cases k <;> rfl

theorem initialSession_withParameter (k : Parameter) (v : SizeT) :
    initialSession L (o.withParameter k v) fs =
      ⟨(initialSession L o fs).prover.withParameter k v, fs⟩ := by
  cases k <;> rfl

theorem runProver_withParameter {stage : ProverStage} (hstage : (o.stage, stage) ∈ stageMap)
    {k : Parameter} (hk : k ∉ stageParameters stage) (v : SizeT) :
    runProver L d (o.withParameter k v) fs = runProver L d o fs := by
  have hstage' : ((o.withParameter k v).stage, stage) ∈ stageMap := by
    rw [stage_withParameter]
    exact hstage
  have hside : Side (fun p q : Prover L => q = p.withParameter k v) (SameFiles fs)
      (initialSession L o fs) (initialSession L (o.withParameter k v) fs) := by
    rw [initialSession_withParameter]
    exact ⟨rfl, .refl fs, rfl⟩
  have hsteps : Uniform (Side (fun p q : Prover L => q = p.withParameter k v) (SameFiles fs))
      (Action.allOf (stageSteps L d o stage)) :=
    uniform_allOf (uniform_stageSteps_side (unseen_parameter hk v))
  obtain ⟨hanswer, hend⟩ := hsteps _ _ hside
  rw [runProver_of_stage hstage, runProver_of_stage hstage', stageSteps_withParameter, hanswer,
    hend.files.2]

/-- Give one option another value. -/
def AllOptions.assign (v : AllOptions) : (o : ConfigOption) → o.Value → AllOptions
  | .stage, x => { v with stage := x }
  | .proof, x => { v with proofFilePath := x }
  | .json, x => { v with jsonFilePath := x }
  | .commonData, x => { v with preprocessedCommonDataPath := x }
  | .preprocessedData, x => { v with preprocessedPublicDataPath := x }
  | .commitmentStateFile, x => { v with commitmentSchemeStatePath := x }
  | .circuit, x => { v with circuitFilePath := x }
  | .assignmentTable, x => { v with assignmentTableFilePath := x }
  | .assignmentDescriptionFile, x => { v with assignmentDescriptionFilePath := x }
  | .logLevel, x => { v with logLevel := x }
  | .ellipticCurveType, x => { v with ellipticCurveType := x }
  | .hashType, x => { v with hashType := x }
  | .lambdaParam, x => { v with lambda := x }
  | .grindParam, x => { v with grind := x }
  | .expandFactor, x => { v with expandFactor := x }
  | .maxQuotientChunks, x => { v with maxQuotientChunks := x }
  | .inputChallengeFiles, x => { v with inputChallengeFiles := x }
  | .aggregatedChallengeFile, x => { v with aggregatedChallengeFile := x }

/-- The options that a run of the stage depends on. -/
def stageOptions : ProverStage → List ConfigOption
  | .all => [.stage, .hashType, .circuit, .assignmentTable, .lambdaParam, .expandFactor,
      .maxQuotientChunks, .proof, .json, .commonData, .preprocessedData, .commitmentStateFile]
  | .preprocess => [.stage, .hashType, .circuit, .assignmentTable, .assignmentDescriptionFile,
      .lambdaParam, .expandFactor, .maxQuotientChunks, .commonData, .preprocessedData,
      .commitmentStateFile]
  | .prove => [.stage, .hashType, .circuit, .assignmentTable, .preprocessedData,
      .commitmentStateFile, .proof, .json]
  | .verify => [.stage, .hashType, .circuit, .commonData, .assignmentDescriptionFile, .proof,
      .lambdaParam, .expandFactor]
  | .generateAggregatedChallenge =>
    [.stage, .hashType, .inputChallengeFiles, .aggregatedChallengeFile]

/-- Options that name no parameter influence a run through its steps only. -/
theorem runProver_congr {o' : ProverOptions} {stage : ProverStage}
    (hstage : (o.stage, stage) ∈ stageMap) (hname : o'.stage = o.stage)
    (hsteps : stageSteps L d o' stage = stageSteps L d o stage)
    (hsession : initialSession L o' fs = initialSession L o fs) :
    runProver L d o' fs = runProver L d o fs := by
  have hstage' : (o'.stage, stage) ∈ stageMap := by
    rw [hname]
    exact hstage
  rw [runProver_of_stage hstage, runProver_of_stage hstage', hsteps, hsession]

theorem initialWrapper_assign {v : AllOptions} {stage : ProverStage}
    (hstage : (v.stage, stage) ∈ stageMap) {o : ConfigOption} (ho : o ∉ stageOptions stage)
    (libs : Libraries) (x : o.Value) :
    initialWrapper libs d (v.assign o x) fs = initialWrapper libs d v fs := by
  have hparameter : ∀ L (k : Parameter) (n : SizeT), k ∉ stageParameters stage →
      runProver L d (v.toProverOptions.withParameter k n) fs =
        runProver L d v.toProverOptions fs := fun L k n hk => runProver_withParameter hstage hk n
  cases o with
  | stage => exact (ho (by cases stage <;> decide)).elim
  | hashType => exact (ho (by cases stage <;> decide)).elim
  | logLevel => rfl
  | ellipticCurveType => cases x; rfl
  | lambdaParam =>
    refine hparameter _ .lambda x fun hk => ho ?_
    cases stage <;> revert hk <;> decide
  | grindParam =>
    refine hparameter _ .grind x ?_
    cases stage <;> decide
  | expandFactor =>
    refine hparameter _ .expandFactor x fun hk => ho ?_
    cases stage <;> revert hk <;> decide
  | maxQuotientChunks =>
    refine hparameter _ .maxQuotientChunks x fun hk => ho ?_
    cases stage <;> revert hk <;> decide
  | _ =>
    refine runProver_congr hstage rfl ?_ rfl
    cases stage <;> first | exact (ho (by decide)).elim | rfl

/-- The small library, where the chunks show in the preprocessed data and the verifier insists on
one scheme. -/
def Crypto3.exacting : Crypto3 := { Crypto3.small with
  placeholderPublicPreprocessor := fun (cs t : UInt8) _ s chunks =>
    .ok (cs + t + chunks.toUInt8, s)
  placeholderVerifier := fun _ _ _ _ (s : UInt8) => .ok (s = 13) }

/-- A library for another hash, which differs in all that depends on it. -/
def Crypto3.contrary : Crypto3 := { Crypto3.exacting with
  placeholderPublicPreprocessor := fun (cs t : UInt8) _ s _ => .ok (cs + t + 1, s)
  placeholderProver := fun (pub priv : UInt8) _ _ s => .ok (pub + priv + 1, s)
  placeholderVerifier := fun _ _ _ _ _ => .ok false
  transcript := (1 : UInt8) }

def smallHashes : Libraries
  | _, .keccak => .exacting
  | _, _ => .contrary

/-- The small options, with a challenge to aggregate. -/
def baseOptions (stage : ProverStage) : AllOptions where
  toProverOptions := { smallOptions stage.name with
    inputChallengeFiles := [['c']]
    aggregatedChallengeFile := ['g'] }

/-- Another value for each option; the file `z` does not exist. -/
def ConfigOption.other : (o : ConfigOption) → o.Value
  | .stage => "none"
  | .logLevel => SeverityLevel.trace
  | .ellipticCurveType => CurveType.pallas
  | .hashType => HashType.poseidon
  | .lambdaParam => (5 : SizeT)
  | .grindParam => (5 : SizeT)
  | .expandFactor => (5 : SizeT)
  | .maxQuotientChunks => (5 : SizeT)
  | .inputChallengeFiles => ([] : List Path)
  | .proof => ['z']
  | .json => ['z']
  | .commonData => ['z']
  | .preprocessedData => ['z']
  | .commitmentStateFile => ['z']
  | .circuit => ['z']
  | .assignmentTable => ['z']
  | .assignmentDescriptionFile => ['z']
  | .aggregatedChallengeFile => ['z']

/-- What is looked at after a run: the exit code and some of the files. -/
def visible (r : Outcome × FileSystem) : Outcome × List (Option Bytes) :=
  (r.1, [['z'], ['s'], ['r'], ['p'], ['g']].map r.2.content)

theorem visible_assign (stage : ProverStage) : ∀ o ∈ stageOptions stage,
    visible (initialWrapper smallHashes .reliable ((baseOptions stage).assign o o.other)
        workedFiles) ≠
      visible (initialWrapper smallHashes .reliable (baseOptions stage) workedFiles) := by
  cases stage <;> decide +kernel

/-- For each stage, the options whose value can make a difference to anything the process does.
No stage depends on `--grind-param`, `--log-level` or `--elliptic-curve-type`. -/
theorem option_matters_iff (stage : ProverStage) (o : ConfigOption) :
    (∃ (libs : Libraries) (d : Disk) (v : AllOptions) (fs : FileSystem) (x : o.Value),
      (v.stage, stage) ∈ stageMap ∧
        initialWrapper libs d (v.assign o x) fs ≠ initialWrapper libs d v fs) ↔
      o ∈ stageOptions stage := by
  refine ⟨?_, ?_⟩
  · rintro ⟨libs, d, v, fs, x, hstage, hne⟩
    by_contra ho
    exact hne (initialWrapper_assign hstage ho libs x)
  · intro ho
    refine ⟨smallHashes, .reliable, baseOptions stage, workedFiles, o.other,
      stage_mem stage rfl, fun heq => ?_⟩
    exact visible_assign stage o ho (congrArg visible heq)

theorem variable_assign_self (v : AllOptions) (o : ConfigOption) (x : o.Value) :
    (v.assign o x).variable o = x := by
  cases o <;> rfl

theorem variable_assign_of_ne (v : AllOptions) {o o' : ConfigOption} (hne : o' ≠ o)
    (x : o.Value) : (v.assign o x).variable o' = v.variable o' := by
  cases o <;> cases o' <;> first | rfl | exact (hne rfl).elim

/-- Take over the values of some of the options. -/
def AllOptions.takeOver (v w : AllOptions) (os : List ConfigOption) : AllOptions :=
  os.foldl (fun u o => u.assign o (w.variable o)) v

theorem variable_takeOver (v w : AllOptions) (os : List ConfigOption) (o : ConfigOption) :
    (v.takeOver w os).variable o = if o ∈ os then w.variable o else v.variable o := by
  induction os generalizing v with
  | nil => simp [AllOptions.takeOver]
  | cons o' os ih =>
    have hstep : v.takeOver w (o' :: os) = (v.assign o' (w.variable o')).takeOver w os := rfl
    rw [hstep, ih]
    by_cases hmem : o ∈ os
    · simp [hmem]
    · by_cases ho : o = o'
      · subst ho
        simp [hmem, variable_assign_self]
      · simp [hmem, ho, variable_assign_of_ne v ho]

theorem initialWrapper_takeOver {v : AllOptions} (w : AllOptions) {stage : ProverStage}
    (hstage : (v.stage, stage) ∈ stageMap) {os : List ConfigOption}
    (hos : ∀ o ∈ os, o ∉ stageOptions stage) (libs : Libraries) :
    initialWrapper libs d (v.takeOver w os) fs = initialWrapper libs d v fs := by
  induction os generalizing v with
  | nil => rfl
  | cons o os ih =>
    have ho : o ∉ stageOptions stage := hos o List.mem_cons_self
    have hne : ConfigOption.stage ≠ o := by
      rintro rfl
      exact ho (by cases stage <;> decide)
    have hname : (v.assign o (w.variable o)).stage = v.stage :=
      variable_assign_of_ne v hne (w.variable o)
    have hrest := ih (v := v.assign o (w.variable o)) (by rw [hname]; exact hstage)
      fun o' ho' => hos o' (List.mem_cons_of_mem o ho')
    rw [← initialWrapper_assign hstage ho libs (w.variable o), ← hrest]
    rfl

/-- The options that a request for the stage of this name depends on. -/
def relevantOptions (stage : String) : List ConfigOption :=
  match proverStageFromString stage with
  | .ok stage => stageOptions stage
  | .error _ => [.stage]

theorem initialWrapper_congr {v w : AllOptions}
    (h : ∀ o ∈ relevantOptions v.stage, v.variable o = w.variable o) (libs : Libraries) :
    initialWrapper libs d v fs = initialWrapper libs d w fs := by
  have hname : v.stage = w.stage := by
    refine h .stage ?_
    unfold relevantOptions
    cases proverStageFromString v.stage with
    | error e => simp
    | ok stage => cases stage <;> decide
  cases hs : proverStageFromString v.stage with
  | error e =>
    have hnone : ∀ stage, (v.stage, stage) ∉ stageMap := by
      intro stage hmem
      rw [proverStageFromString_ok_iff.mpr hmem] at hs
      simp at hs
    have hv : initialWrapper libs d v fs = (.exit 1, fs) := runProver_of_no_stage hnone
    have hw : initialWrapper libs d w fs = (.exit 1, fs) :=
      runProver_of_no_stage (by rw [← hname]; exact hnone)
    rw [hv, hw]
  | ok stage =>
    have hstage := proverStageFromString_ok_iff.mp hs
    have hsame : v.takeOver w (configOptions.filter (· ∉ stageOptions stage)) = w := by
      apply AllOptions.ext_variable
      intro o
      rw [variable_takeOver]
      split
      · rfl
      · rename_i ho
        refine h o ?_
        unfold relevantOptions
        rw [hs]
        have hmem : o ∈ configOptions := by cases o <;> decide
        simpa [hmem] using ho
    have hirrelevant : ∀ o ∈ configOptions.filter (· ∉ stageOptions stage),
        o ∉ stageOptions stage :=
      fun o ho => of_decide_eq_true (List.mem_filter.mp ho).2
    rw [← initialWrapper_takeOver w hstage hirrelevant libs, hsame]

/-- Two requests for a stage in which its options have the same values, given on the command line,
in a configuration file or by default, make the process do the same. -/
theorem main_of_same_values {po : ProgramOptions} (hstore : po.store.Lawful)
    {args args' : List String} {cli config cli' config' : Layers.Layer CommandOption.Value}
    (h : AsksForRun po fs args cli config) (h' : AsksForRun po fs args' cli' config')
    (hsame : ∀ o ∈ relevantOptions (resolvedValue cli config .stage),
      resolvedValue cli config o = resolvedValue cli' config' o) (libs : Libraries) (d : Disk) :
    main po libs d args fs = main po libs d args' fs := by
  obtain ⟨v, hv, hrun⟩ := main_of_asks hstore libs d h
  obtain ⟨w, hw, hrun'⟩ := main_of_asks hstore libs d h'
  have hcongr : initialWrapper libs d v fs = initialWrapper libs d w fs := by
    refine initialWrapper_congr (fun o ho => ?_) libs
    rw [hv.variable_eq, hw.variable_eq]
    refine hsame o ?_
    have hname : v.stage = resolvedValue cli config .stage := hv.variable_eq .stage
    rw [← hname]
    exact ho
  rw [hrun, hrun', hcongr]

/-- One of the lines names the circuit and a parameter that nothing reads; the other leaves the
circuit to a configuration file and spells a default out. -/
theorem main_of_same_values_small :
    main .small smallLibraries .reliable
        ["--circuit", "c", "--assignment-table", "t", "--grind-param", "5"] configuredFiles =
      main .small smallLibraries .reliable
        ["--config", "f", "--assignment-table", "t", "--lambda-param", "9"] configuredFiles := by
  let silent : Layers.Layer CommandOption.Value := fun _ => none
  let grind := Function.update silent (.config .grindParam) (some (5 : SizeT))
  let lambda := Function.update silent (.config .lambdaParam) (some (9 : SizeT))
  let table (layer : Layers.Layer CommandOption.Value) :=
    Function.update layer (.config .assignmentTable) (some ['t'])
  have hcli : AsksForRun .small configuredFiles
      ["--circuit", "c", "--assignment-table", "t", "--grind-param", "5"]
      (Function.update (table grind) (.config .circuit) (some ['c'])) silent :=
    ⟨rfl, rfl, rfl, rfl⟩
  have hconfig : AsksForRun .small configuredFiles
      ["--config", "f", "--assignment-table", "t", "--lambda-param", "9"]
      (Function.update (table lambda) (.generic .config) (some ['f']))
      (configLayer (Function.update (fun _ => none) .circuit (some ['c']))) :=
    ⟨rfl, rfl, rfl, rfl⟩
  refine main_of_same_values Layers.Store.plain_lawful hcli hconfig (fun o ho => ?_)
    smallLibraries .reliable
  have hall : o ∈ stageOptions .all := ho
  cases o <;> first | rfl | exact absurd hall (by decide)

/-- The objects have preprocessed data and differ at most in the common data. -/
def BesideData (p q : Prover L) : Prop :=
  p.publicPreprocessedData.isSome ∧ q = { p with commonData := q.commonData }

theorem Change.besideData {f : Prover L → Prover L} (hf : Change f) {p q : Prover L}
    (h : BesideData p q) : BesideData (f p) (f q) := by
  induction hf generalizing p q with
  | emplace m v =>
    obtain ⟨hdata, hq⟩ := h
    rw [hq]
    cases m with
    | publicPreprocessedData => exact ⟨rfl, rfl⟩
    | _ => exact ⟨hdata, rfl⟩
  | dropTable =>
    obtain ⟨hdata, hq⟩ := h
    rw [hq]
    exact ⟨hdata, rfl⟩
  | dropScheme =>
    obtain ⟨hdata, hq⟩ := h
    rw [hq]
    exact ⟨hdata, rfl⟩
  | comp _ _ ihf ihg => exact ihg (ihf h)

theorem unseen_besideData : Unseen uses (BesideData : Prover L → Prover L → Prop) := by
  constructor
  · rintro p q m ⟨_, hq⟩ hm
    rw [hq]
    cases m with
    | commonData => exact (hm rfl).elim
    | _ => rfl
  · rintro p q ⟨hdata, hq⟩
    rw [hq]
    obtain ⟨data, hdata⟩ := Option.isSome_iff_exists.mp hdata
    simp [Prover.heldCommonData, hdata]
  · rintro p q k ⟨_, hq⟩ _
    rw [hq]
    cases k <;> rfl
  · exact fun h hf => hf.besideData h

theorem uniform_call {E : Prover L → Prover L → Prop} (hE : Unseen (fun _ => True) E) (c : Call L) :
    Uniform (Side E (SameFiles fs₀)) (c.run d) := by
  have hcomposed : Composed (Primitive L d fs₀ Everywhere Everywhere Everywhere fun _ => True)
      Anything (c.run d) :=
    composed_call c (fun _ _ => trivial) (fun _ _ => ⟨trivial, trivial, trivial, trivial⟩)
      (fun _ _ => trivial) fun _ _ => trivial
  exact hcomposed.uniform fun hp => hp.faithful hE unread_sameFiles

/-- Once an object has preprocessed data, any common data give it the same histories. -/
theorem commonData_unused {es : List (Event L)} (h : History d s es t)
    (hs : s.prover.publicPreprocessedData.isSome) (c : Option L.CommonData) :
    ∃ c', History d ⟨{ s.prover with commonData := c }, s.files⟩ es
      ⟨{ t.prover with commonData := c' }, t.files⟩ := by
  have hside : Side BesideData (SameFiles s.files) s
      ⟨{ s.prover with commonData := c }, s.files⟩ := ⟨⟨hs, rfl⟩, .refl s.files, rfl⟩
  obtain ⟨⟨q, fs⟩, htrace, ⟨_, hq⟩, _, hfiles⟩ :=
    h.uniform (fun c => uniform_call unseen_besideData c) hside
  refine ⟨q.commonData, ?_⟩
  rw [← hq, ← hfiles]
  exact htrace

/-- The small library, with a verifier that accepts the common data 1 only. -/
def Crypto3.attentive : Crypto3 := { Crypto3.small with
  placeholderVerifier := fun (common : UInt8) _ _ _ _ => .ok (common = 1) }

/-- An object that can verify a proof with the common data it has read. -/
def verifierSession : Session .attentive where
  prover := { Prover.new .attentive 9 2 0 69 with
    commonData := some (1 : UInt8)
    tableDescription := some (2 : UInt8)
    constraintSystem := some (5 : UInt8)
    lpcScheme := some (13 : UInt8) }
  files := .empty

/-- The common data of an object can make a difference to what happens to it later if and only if
it has no preprocessed data. -/
theorem commonData_matters_iff (engaged : Bool) :
    (∃ (L : Crypto3) (d : Disk) (s t : Session L) (es : List (Event L)) (c : Option L.CommonData),
      s.prover.publicPreprocessedData.isSome = engaged ∧ History d s es t ∧
        ¬ ∃ c', History d ⟨{ s.prover with commonData := c }, s.files⟩ es
          ⟨{ t.prover with commonData := c' }, t.files⟩) ↔ engaged = false := by
  constructor
  · rintro ⟨L, d, s, t, es, c, hengaged, hhistory, hno⟩
    cases engaged with
    | false => rfl
    | true => exact (hno (commonData_unused hhistory hengaged c)).elim
  · rintro rfl
    refine ⟨.attentive, .reliable, verifierSession, verifierSession,
      [(.verify (1 : UInt8), .ok true)], some (2 : UInt8), rfl, .cons rfl trivial (.nil _), ?_⟩
    rintro ⟨c', hhistory⟩
    cases hhistory with
    | cons hrun _ _ =>
      have hanswer := congrArg Prod.fst hrun
      cases hanswer

end ProofProducer
