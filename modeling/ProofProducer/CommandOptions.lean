import ProofProducer.Shared.Layers
import ProofProducer.RunProver
import Mathlib.Logic.Function.Basic

/-!
# `arg_parser.cpp`

Two groups of options: those of the command line only and those that a configuration file may
hold as well. The parsers and the store of `boost::program_options` are parameters; of the store
it is assumed what its documentation says. What is printed is left out.
-/

namespace ProofProducer

open Files Layers

set_option autoImplicit false

inductive CurveType where
  | pallas
  deriving DecidableEq, Repr

inductive HashType where
  | keccak
  | poseidon
  | sha256
  deriving DecidableEq, Repr

inductive SeverityLevel where
  | trace
  | debug
  | info
  | warning
  | error
  | fatal
  deriving DecidableEq, Repr

/-- The options with the curve and the hash, which select the library, and the log level. -/
structure AllOptions extends ProverOptions where
  logLevel : SeverityLevel := .info
  ellipticCurveType : CurveType := .pallas
  hashType : HashType := .keccak

/-- The variable `prover_options` before anything is parsed. -/
def initialOptions : AllOptions := {}

inductive GenericOption where
  | help
  | version
  | config
  deriving DecidableEq, Repr

inductive ConfigOption where
  | stage
  | proof
  | json
  | commonData
  | preprocessedData
  | commitmentStateFile
  | circuit
  | assignmentTable
  | assignmentDescriptionFile
  | logLevel
  | ellipticCurveType
  | hashType
  | lambdaParam
  | grindParam
  | expandFactor
  | maxQuotientChunks
  | inputChallengeFiles
  | aggregatedChallengeFile
  deriving DecidableEq, Repr

inductive CommandOption where
  | generic (o : GenericOption)
  | config (o : ConfigOption)
  deriving DecidableEq, Repr

def GenericOption.Value : GenericOption → Type
  | .help => Unit
  | .version => Unit
  | .config => Path

def ConfigOption.Value : ConfigOption → Type
  | .stage => String
  | .logLevel => SeverityLevel
  | .ellipticCurveType => CurveType
  | .hashType => HashType
  | .lambdaParam => SizeT
  | .grindParam => SizeT
  | .expandFactor => SizeT
  | .maxQuotientChunks => SizeT
  | .inputChallengeFiles => List Path
  | _ => Path

def CommandOption.Value : CommandOption → Type
  | .generic o => o.Value
  | .config o => o.Value

def GenericOption.name : GenericOption → String
  | .help => "help"
  | .version => "version"
  | .config => "config"

def ConfigOption.name : ConfigOption → String
  | .stage => "stage"
  | .proof => "proof"
  | .json => "json"
  | .commonData => "common-data"
  | .preprocessedData => "preprocessed-data"
  | .commitmentStateFile => "commitment-state-file"
  | .circuit => "circuit"
  | .assignmentTable => "assignment-table"
  | .assignmentDescriptionFile => "assignment-description-file"
  | .logLevel => "log-level"
  | .ellipticCurveType => "elliptic-curve-type"
  | .hashType => "hash-type"
  | .lambdaParam => "lambda-param"
  | .grindParam => "grind-param"
  | .expandFactor => "expand-factor"
  | .maxQuotientChunks => "max-quotient-chunks"
  | .inputChallengeFiles => "input-challenge-files"
  | .aggregatedChallengeFile => "aggregated-challenge-file"

def CommandOption.name : CommandOption → String
  | .generic o => o.name
  | .config o => o.name

/-- The variable that an option stores its value to. -/
def AllOptions.variable (v : AllOptions) : (o : ConfigOption) → o.Value
  | .stage => v.stage
  | .proof => v.proofFilePath
  | .json => v.jsonFilePath
  | .commonData => v.preprocessedCommonDataPath
  | .preprocessedData => v.preprocessedPublicDataPath
  | .commitmentStateFile => v.commitmentSchemeStatePath
  | .circuit => v.circuitFilePath
  | .assignmentTable => v.assignmentTableFilePath
  | .assignmentDescriptionFile => v.assignmentDescriptionFilePath
  | .logLevel => v.logLevel
  | .ellipticCurveType => v.ellipticCurveType
  | .hashType => v.hashType
  | .lambdaParam => v.lambda
  | .grindParam => v.grind
  | .expandFactor => v.expandFactor
  | .maxQuotientChunks => v.maxQuotientChunks
  | .inputChallengeFiles => v.inputChallengeFiles
  | .aggregatedChallengeFile => v.aggregatedChallengeFile

/-- The options that are not declared by `make_defaulted_option`. -/
def ConfigOption.undefaulted : List ConfigOption :=
  [.circuit, .assignmentTable, .assignmentDescriptionFile, .inputChallengeFiles,
    .aggregatedChallengeFile]

/-- `make_defaulted_option`: the default is what the variable holds. -/
def defaultValues : Layer CommandOption.Value
  | .generic _ => none
  | .config o => if o ∈ ConfigOption.undefaulted then none else some (initialOptions.variable o)

abbrev VariablesMap := Settings CommandOption.Value

/-- What `notify` assigns to the variable of an option. -/
def assigned {α : Type} (e : Option (Entry α)) (old : α) : α := (e.map Entry.value).getD old

def notify (vm : VariablesMap) (v : AllOptions) : AllOptions where
  stage := assigned (vm (.config .stage)) v.stage
  proofFilePath := assigned (vm (.config .proof)) v.proofFilePath
  jsonFilePath := assigned (vm (.config .json)) v.jsonFilePath
  preprocessedCommonDataPath :=
    assigned (vm (.config .commonData)) v.preprocessedCommonDataPath
  preprocessedPublicDataPath :=
    assigned (vm (.config .preprocessedData)) v.preprocessedPublicDataPath
  commitmentSchemeStatePath :=
    assigned (vm (.config .commitmentStateFile)) v.commitmentSchemeStatePath
  circuitFilePath := assigned (vm (.config .circuit)) v.circuitFilePath
  assignmentTableFilePath := assigned (vm (.config .assignmentTable)) v.assignmentTableFilePath
  assignmentDescriptionFilePath :=
    assigned (vm (.config .assignmentDescriptionFile)) v.assignmentDescriptionFilePath
  inputChallengeFiles := assigned (vm (.config .inputChallengeFiles)) v.inputChallengeFiles
  aggregatedChallengeFile :=
    assigned (vm (.config .aggregatedChallengeFile)) v.aggregatedChallengeFile
  lambda := assigned (vm (.config .lambdaParam)) v.lambda
  grind := assigned (vm (.config .grindParam)) v.grind
  expandFactor := assigned (vm (.config .expandFactor)) v.expandFactor
  maxQuotientChunks := assigned (vm (.config .maxQuotientChunks)) v.maxQuotientChunks
  logLevel := assigned (vm (.config .logLevel)) v.logLevel
  ellipticCurveType := assigned (vm (.config .ellipticCurveType)) v.ellipticCurveType
  hashType := assigned (vm (.config .hashType)) v.hashType

/-- What is used of `boost::program_options`. A parser validates the values as well; that of the
configuration file is told which options have one, and skips them. -/
structure ProgramOptions where
  parseCommandLine : List String → Except Exception (Layer CommandOption.Value)
  parseConfigFile : (ConfigOption → Bool) → Bytes → Except Exception (Layer ConfigOption.Value)
  store : Store CommandOption.Value

def genericOptions : List GenericOption := [.help, .version, .config]

def configOptions : List ConfigOption :=
  [.stage, .proof, .json, .commonData, .preprocessedData, .commitmentStateFile, .circuit,
    .assignmentTable, .assignmentDescriptionFile, .logLevel, .ellipticCurveType, .hashType,
    .lambdaParam, .grindParam, .expandFactor, .maxQuotientChunks, .inputChallengeFiles,
    .aggregatedChallengeFile]

def commandOptions : List CommandOption :=
  genericOptions.map .generic ++ configOptions.map .config

/-- The option of this name is in the map, and not by its default. -/
def givenByName (vm : VariablesMap) (opt : String) : Bool :=
  commandOptions.any fun o => decide (o.name = opt) && vm.explicit o

def checkExclusiveOptions (vm : VariablesMap) (opts : List String) : Except Exception Unit :=
  let foundOpts := opts.filter (givenByName vm)
  if foundOpts.length > 1 then
    .error ⟨"Conflicting options: " ++ " and ".intercalate foundOpts⟩
  else .ok ()

/-- `std::ifstream` opens a directory too; nothing can be read from it. -/
def configText (fs : FileSystem) (path : Path) : Option Bytes :=
  match fs.lookup path with
  | none => none
  | some (.directory _) => some []
  | some (.file c _) => some c

/-- A configuration file says nothing about the generic options. -/
def configLayer (layer : Layer ConfigOption.Value) : Layer CommandOption.Value
  | .generic _ => none
  | .config o => layer o

def readConfig (po : ProgramOptions) (fs : FileSystem) (given : ConfigOption → Bool)
    (path : Path) : Except Exception (Layer CommandOption.Value) :=
  match configText fs path with
  | none => .error ⟨"Cannot open config file: " ++ String.ofList path⟩
  | some text => (po.parseConfigFile given text).map configLayer

def parseArgs (po : ProgramOptions) (fs : FileSystem) (args : List String) :
    Except Exception (Option AllOptions) := do
  let parsed ← po.parseCommandLine args
  let vm := po.store defaultValues parsed (nothing _)
  if (vm (.generic .help)).isSome then return none
  if (vm (.generic .version)).isSome then return none
  let vm ← match vm (.generic .config) with
    | none => pure vm
    | some path => do
      let layer ← readConfig po fs (fun o => vm.explicit (.config o)) path.value
      pure (po.store defaultValues layer vm)
  let proverOptions := notify vm initialOptions
  checkExclusiveOptions vm ["verification-only", "skip-verification"]
  return some proverOptions

def smallNumber (text : String) : SizeT := UInt64.ofNat ((text.toList.headD '0').toNat - '0'.toNat)

/-- Some of the options in their long form, with numbers of one digit. -/
def smallCommandLine : List String → Except Exception (Layer CommandOption.Value)
  | [] => .ok fun _ => none
  | ["--help"] => .ok (Function.update (fun _ => none) (.generic .help) (some ()))
  | "--config" :: path :: args => (smallCommandLine args).map fun layer =>
    Function.update layer (.generic .config) (some path.toList)
  | "--circuit" :: path :: args => (smallCommandLine args).map fun layer =>
    Function.update layer (.config .circuit) (some path.toList)
  | "--assignment-table" :: path :: args => (smallCommandLine args).map fun layer =>
    Function.update layer (.config .assignmentTable) (some path.toList)
  | "--lambda-param" :: digit :: args => (smallCommandLine args).map fun layer =>
    Function.update layer (.config .lambdaParam) (some (smallNumber digit))
  | "--grind-param" :: digit :: args => (smallCommandLine args).map fun layer =>
    Function.update layer (.config .grindParam) (some (smallNumber digit))
  | arg :: _ => .error ⟨"unrecognised option '" ++ arg ++ "'"⟩

/-- Configuration files of at most the line `circuit=...`. -/
def smallConfigFile (given : ConfigOption → Bool) (text : Bytes) :
    Except Exception (Layer ConfigOption.Value) :=
  let line := text.map fun b => Char.ofNat b.toNat
  if line = [] then .ok fun _ => none
  else if line.take 8 = "circuit=".toList then
    if given .circuit then .ok fun _ => none
    else .ok (Function.update (fun _ => none) .circuit
      (some ((line.drop 8).takeWhile (· ≠ '\n'))))
  else .error ⟨"unrecognised line"⟩

def ProgramOptions.small : ProgramOptions := ⟨smallCommandLine, smallConfigFile, .plain⟩

/-- The small directory with a configuration file `f` that names the circuit. -/
def configuredFiles : FileSystem :=
  smallFiles.store [['f']] ("circuit=c\n".toList.map fun c => UInt8.ofNat c.toNat)

variable {po : ProgramOptions} {fs : FileSystem} {args : List String} {vm : VariablesMap}
  {layers : List (Layer CommandOption.Value)}

/-- Settings that give every option the value its variable has already. -/
def ownValues (v : AllOptions) : VariablesMap
  | .generic _ => none
  | .config o => some ⟨v.variable o, false⟩

theorem notify_ownValues (v : AllOptions) : notify (ownValues v) initialOptions = v := rfl

theorem AllOptions.ext_variable {v w : AllOptions} (h : ∀ o, v.variable o = w.variable o) :
    v = w := by
  have hsame : ownValues v = ownValues w := by
    funext o
    cases o with
    | generic o => rfl
    | config o => simp only [ownValues, h o]
  rw [← notify_ownValues v, ← notify_ownValues w, hsame]

theorem notify_variable (vm : VariablesMap) (v : AllOptions) (o : ConfigOption) :
    (notify vm v).variable o = assigned (vm (.config o)) (v.variable o) := by
  cases o <;> rfl

theorem assigned_of_reflects (h : Reflects defaultValues layers vm) (o : ConfigOption) :
    assigned (vm (.config o)) (initialOptions.variable o) =
      (topmost layers (.config o)).getD (initialOptions.variable o) := by
  cases ht : topmost layers (.config o) with
  | some v => rw [h.given ht]; rfl
  | none =>
    rcases h.notGiven ht with hm | ⟨v, hdefault, hm⟩
    · rw [hm]; rfl
    · rw [hm]
      by_cases ho : o ∈ ConfigOption.undefaulted
      · simp [defaultValues, ho] at hdefault
      · simp only [defaultValues, ho, if_false] at hdefault
        exact (Option.some.inj hdefault).symm

/-- Nothing on the command line or in a file can be one of the two options. -/
theorem checkExclusiveOptions_unknown (vm : VariablesMap) :
    checkExclusiveOptions vm ["verification-only", "skip-verification"] = .ok () := by
  have hnames : ∀ o ∈ commandOptions, o.name ≠ "verification-only" ∧
      o.name ≠ "skip-verification" := by decide
  have hverification : givenByName vm "verification-only" = false := by
    rw [givenByName, List.any_eq_false]
    intro o ho
    simp [(hnames o ho).1]
  have hskip : givenByName vm "skip-verification" = false := by
    rw [givenByName, List.any_eq_false]
    intro o ho
    simp [(hnames o ho).2]
  simp [checkExclusiveOptions, hverification, hskip]

/-- What the configuration file adds, if the command line names one. -/
def configFor (po : ProgramOptions) (fs : FileSystem) (cli : Layer CommandOption.Value) :
    Except Exception (Layer CommandOption.Value) :=
  match cli (.generic .config) with
  | none => .ok fun _ => none
  | some path => readConfig po fs (fun o => (cli (.config o)).isSome) path

/-- The command line comes first, then the configuration file, then the initial values. -/
def resolvedValue (cli config : Layer CommandOption.Value) (o : ConfigOption) : o.Value :=
  ((cli (.config o)).or (config (.config o))).getD (initialOptions.variable o)

structure Resolved (cli config : Layer CommandOption.Value) (v : AllOptions) : Prop where
  variable_eq : ∀ o, v.variable o = resolvedValue cli config o

theorem Resolved.unique {cli config : Layer CommandOption.Value} {v w : AllOptions}
    (hv : Resolved cli config v) (hw : Resolved cli config w) : v = w := by
  apply AllOptions.ext_variable
  intro o
  rw [hv.variable_eq, hw.variable_eq]

theorem resolved_notify {cli config : Layer CommandOption.Value}
    (h : Reflects defaultValues [cli, config] vm) :
    Resolved cli config (notify vm initialOptions) := by
  constructor
  intro o
  rw [notify_variable, assigned_of_reflects h, topmost_pair, resolvedValue]

theorem generic_of_reflects (h : Reflects defaultValues layers vm) (o : GenericOption) :
    vm (.generic o) = (topmost layers (.generic o)).map fun v => ⟨v, false⟩ := by
  cases ht : topmost layers (.generic o) with
  | some v => exact h.given ht
  | none =>
    rcases h.notGiven ht with hm | ⟨v, hdefault, _⟩
    · exact hm
    · simp [defaultValues] at hdefault

theorem resolved_of_cli {cli : Layer CommandOption.Value}
    (h : Reflects defaultValues [cli] vm) :
    Resolved cli (fun _ => none) (notify vm initialOptions) := by
  constructor
  intro o
  rw [notify_variable, assigned_of_reflects h, resolvedValue, Option.or_none]
  have hone : topmost [cli] (.config o) = cli (.config o) := by
    unfold topmost
    cases hc : cli (.config o) <;> simp [hc]
  rw [hone]

/-- Help and version come before the configuration file, which comes before everything else. -/
theorem parseArgs_of_cli (hstore : po.store.Lawful) (fs : FileSystem)
    {cli : Layer CommandOption.Value} (hcli : po.parseCommandLine args = .ok cli) :
    if (cli (.generic .help)).isSome || (cli (.generic .version)).isSome then
      parseArgs po fs args = .ok none
    else match configFor po fs cli with
      | .error e => parseArgs po fs args = .error e
      | .ok config => ∃ v, parseArgs po fs args = .ok (some v) ∧ Resolved cli config v := by
  have hfirst := (reflects_nothing defaultValues).stored hstore cli
  have hgeneric : ∀ o, po.store defaultValues cli (nothing _) (.generic o) =
      (cli (.generic o)).map fun v => ⟨v, false⟩ := by
    intro o
    rw [generic_of_reflects hfirst]
    congr 1
    unfold topmost
    cases hc : cli (.generic o) <;> simp [hc]
  have hgiven : ∀ o, (po.store defaultValues cli (nothing _) (.generic o)).isSome =
      (cli (.generic o)).isSome := by
    intro o
    rw [hgeneric, Option.isSome_map]
  have hexplicit : ∀ o, (po.store defaultValues cli (nothing _)).explicit (.config o) =
      (cli (.config o)).isSome := by
    intro o
    rw [hfirst.explicit_iff]
    congr 1
    unfold topmost
    cases hc : cli (.config o) <;> simp [hc]
  unfold parseArgs configFor
  rw [hcli]
  dsimp only [bind, Except.bind, pure, Except.pure]
  simp only [hgiven]
  by_cases hhelp : (cli (.generic .help)).isSome = true
  · simp [hhelp]
  by_cases hversion : (cli (.generic .version)).isSome = true
  · simp [hversion]
  simp only [hhelp, hversion, Bool.or_self, Bool.false_eq_true, if_false, hgeneric]
  cases hconfig : cli (.generic .config) with
  | none =>
    refine ⟨notify _ initialOptions, ?_, resolved_of_cli hfirst⟩
    simp only [Option.map_none, checkExclusiveOptions_unknown]
  | some path =>
    simp only [Option.map_some, hexplicit]
    cases hread : readConfig po fs (fun o => (cli (.config o)).isSome) path with
    | error e => rfl
    | ok config =>
      refine ⟨notify _ initialOptions, ?_, resolved_notify (hfirst.stored hstore config)⟩
      simp only [checkExclusiveOptions_unknown]

theorem parseArgs_of_bad_cli {e : Exception} (hcli : po.parseCommandLine args = .error e) :
    parseArgs po fs args = .error e := by
  unfold parseArgs
  rw [hcli]
  rfl

/-- The command line asks for a run, and the configuration file it names can be read. -/
structure AsksForRun (po : ProgramOptions) (fs : FileSystem) (args : List String)
    (cli config : Layer CommandOption.Value) : Prop where
  parsed : po.parseCommandLine args = .ok cli
  noHelp : cli (.generic .help) = none
  noVersion : cli (.generic .version) = none
  configured : configFor po fs cli = .ok config

theorem AsksForRun.exists_options (hstore : po.store.Lawful)
    {cli config : Layer CommandOption.Value} (h : AsksForRun po fs args cli config) :
    ∃ v, parseArgs po fs args = .ok (some v) ∧ Resolved cli config v := by
  have hrun := parseArgs_of_cli hstore fs h.parsed
  rw [h.noHelp, h.noVersion, h.configured] at hrun
  exact hrun

/-- The options of a run are what the command line says, what the configuration file says where
the command line is silent, and the initial values where both are. -/
theorem parseArgs_some_iff (hstore : po.store.Lawful) (fs : FileSystem) (args : List String)
    (v : AllOptions) :
    parseArgs po fs args = .ok (some v) ↔
      ∃ cli config, AsksForRun po fs args cli config ∧ Resolved cli config v := by
  constructor
  · intro h
    cases hcli : po.parseCommandLine args with
    | error e => simp [parseArgs_of_bad_cli hcli] at h
    | ok cli =>
      have hrun := parseArgs_of_cli hstore fs hcli
      split at hrun
      · simp [hrun] at h
      · rename_i hgeneric
        simp only [Bool.or_eq_true, not_or, Option.not_isSome_iff_eq_none] at hgeneric
        split at hrun
        · simp [hrun] at h
        · rename_i config hconfig
          obtain ⟨w, hw, hresolved⟩ := hrun
          rw [hw] at h
          obtain rfl := Option.some.inj (Except.ok.inj h)
          exact ⟨cli, config, ⟨hcli, hgeneric.1, hgeneric.2, hconfig⟩, hresolved⟩
  · rintro ⟨cli, config, hasks, hresolved⟩
    obtain ⟨w, hw, hw'⟩ := hasks.exists_options hstore
    rw [hw, hw'.unique hresolved]

theorem parseArgs_some_iff_small :
    parseArgs .small configuredFiles ["--config", "f"] =
        .ok (some { initialOptions with circuitFilePath := ['c'] }) ↔
      ∃ cli config, AsksForRun .small configuredFiles ["--config", "f"] cli config ∧
        Resolved cli config { initialOptions with circuitFilePath := ['c'] } :=
  parseArgs_some_iff Store.plain_lawful configuredFiles ["--config", "f"] _

example : parseArgs .small configuredFiles ["--config", "f"] =
    .ok (some { initialOptions with circuitFilePath := ['c'] }) := rfl

/-- Parsing fails for a bad command line, and for a missing or bad configuration file of a
command line that asks for a run. Nothing else can go wrong: the check for exclusive options
never finds any. -/
theorem parseArgs_error_iff (hstore : po.store.Lawful) (fs : FileSystem) (args : List String)
    (e : Exception) :
    parseArgs po fs args = .error e ↔
      po.parseCommandLine args = .error e ∨
        ∃ cli, po.parseCommandLine args = .ok cli ∧ cli (.generic .help) = none ∧
          cli (.generic .version) = none ∧ configFor po fs cli = .error e := by
  cases hcli : po.parseCommandLine args with
  | error e' => simp [parseArgs_of_bad_cli hcli]
  | ok cli =>
    have hrun := parseArgs_of_cli hstore fs hcli
    constructor
    · intro h
      split at hrun
      · simp [hrun] at h
      · rename_i hgeneric
        simp only [Bool.or_eq_true, not_or, Option.not_isSome_iff_eq_none] at hgeneric
        split at hrun
        · rename_i e' hconfig
          rw [hrun] at h
          obtain rfl := Except.error.inj h
          exact Or.inr ⟨cli, rfl, hgeneric.1, hgeneric.2, hconfig⟩
        · obtain ⟨w, hw, _⟩ := hrun
          simp [hw] at h
    · rintro (h | ⟨cli', hcli', hhelp, hversion, hconfig⟩)
      · simp at h
      · obtain rfl := Except.ok.inj hcli'
        rw [hhelp, hversion, hconfig] at hrun
        exact hrun

example : parseArgs .small smallFiles ["--config", "f"] =
    .error ⟨"Cannot open config file: f"⟩ := rfl

theorem parseArgs_none_iff (hstore : po.store.Lawful) (fs : FileSystem) (args : List String) :
    parseArgs po fs args = .ok none ↔ ∃ cli, po.parseCommandLine args = .ok cli ∧
      ((cli (.generic .help)).isSome ∨ (cli (.generic .version)).isSome) := by
  cases hcli : po.parseCommandLine args with
  | error e => simp [parseArgs_of_bad_cli hcli]
  | ok cli =>
    have hrun := parseArgs_of_cli hstore fs hcli
    constructor
    · intro h
      split at hrun
      · rename_i hgeneric
        rw [Bool.or_eq_true] at hgeneric
        exact ⟨cli, rfl, hgeneric⟩
      · split at hrun
        · simp [hrun] at h
        · obtain ⟨w, hw, _⟩ := hrun
          simp [hw] at h
    · rintro ⟨cli', hcli', hgeneric⟩
      obtain rfl := Except.ok.inj hcli'
      rw [← Bool.or_eq_true] at hgeneric
      rw [if_pos hgeneric] at hrun
      exact hrun

end ProofProducer
