import ProofProducer.ProverSpec
import ProofProducer.RunProver

/-!
# What a stage that succeeds has done

A successful stage is a computation in memory, whose objects and the reasons they exist are the
fields of a structure, together with the writes that went through.
-/

namespace ProofProducer

open Effects Files Files.FileSystem Codecs

set_option autoImplicit false

variable {L : Crypto3} {d : Disk} {o : ProverOptions} {fs : FileSystem}

/-- What trying to write the JSON file leaves: nothing when it cannot be opened, and otherwise
what its stream delivered, however that went. -/
inductive JsonAttempt (d : Disk) (fs : FileSystem) (path : Path) (text : Except Exception Bytes) :
    FileSystem → Prop where
  | skipped : fs.openForWriting path = none → JsonAttempt d fs path text fs
  | attempted (c : Bytes) : (fs.openForWriting path).isSome → text = .ok c →
      JsonAttempt d fs path text (written d fs path c).2

theorem JsonAttempt.steady {path : Path} {text : Except Exception Bytes} {fs₁ : FileSystem}
    (h : JsonAttempt d fs path text fs₁) : Steady fs fs₁ := by
  cases h with
  | skipped => exact .refl fs
  | attempted c => exact written_steady d fs path c

namespace Prover
variable {M α : Type} {p : Prover L} {t : Session L}

theorem readMember_true_iff {codec : Codec Exception M} {make : M → Except Exception α}
    {emplace : α → Prover L → Prover L} {path : Path} :
    (readMember codec make emplace path).run ⟨p, fs⟩ = (.ok true, t) ↔
      ∃ a, objectIn codec make fs path false = .ok (some a) ∧ t = ⟨emplace a p, fs⟩ := by
  rw [readMember_run]
  rcases objectIn codec make fs path false with e | a
  · simp
  cases a with
  | none => simp
  | some a => simp [eq_comm]

theorem saveObject_true_iff {codec : Codec Exception M} {object : Step L α}
    {fill : α → Except Exception M} {path : Path} {a : α}
    (h : ∀ fs, object.run ⟨p, fs⟩ = (.ok a, ⟨p, fs⟩)) :
    (saveObject d codec object fill path).run ⟨p, fs⟩ = (.ok true, t) ↔
      ∃ v fs₁, bytesOf codec fill a = .ok (some v) ∧ written d fs path v = (true, fs₁) ∧
        t = ⟨p, fs₁⟩ := by
  rw [saveObject_run (h fs)]
  rcases bytesOf codec fill a with e | v
  · simp
  cases v with
  | none => simp
  | some v =>
    rcases hw : written d fs path v with ⟨b, fs₁⟩
    simp [hw, and_assoc, eq_comm]

theorem preprocessPublicData_true_iff {cs : L.ConstraintSystem} {description : L.TableDescription}
    {table : L.AssignmentTable} {moved : Bool}
    (hcs : p.constraintSystem = some cs) (hdescription : p.tableDescription = some description)
    (htable : p.assignmentTable = some ⟨table, false, moved⟩) :
    preprocessPublicData.run ⟨p, fs⟩ = (.ok true, t) ↔
      ∃ fresh data scheme, freshScheme L p.lambda p.expandFactor description = .ok fresh ∧
        L.placeholderPublicPreprocessor cs (L.movePublicTable table).1 description fresh
          p.maxQuotientChunks = .ok (data, scheme) ∧
        t = ⟨{ p with
          publicInputs := some (L.publicInputs table)
          lpcScheme := some scheme
          assignmentTable := some ⟨(L.movePublicTable table).2, true, moved⟩
          publicPreprocessedData := some data }, fs⟩ := by
  rw [preprocessPublicData_run hcs hdescription htable]
  rcases freshScheme L p.lambda p.expandFactor description with e | fresh
  · simp
  rcases hpre : L.placeholderPublicPreprocessor cs (L.movePublicTable table).1 description fresh
    p.maxQuotientChunks with e | ⟨data, scheme⟩
  · simp [hpre]
  · simp [hpre, eq_comm]

theorem preprocessPrivateData_true_iff {cs : L.ConstraintSystem}
    {description : L.TableDescription} {table : L.AssignmentTable} {moved : Bool}
    (hcs : p.constraintSystem = some cs) (hdescription : p.tableDescription = some description)
    (htable : p.assignmentTable = some ⟨table, moved, false⟩) :
    preprocessPrivateData.run ⟨p, fs⟩ = (.ok true, t) ↔
      ∃ data, L.placeholderPrivatePreprocessor cs (L.movePrivateTable table).1 description =
          .ok data ∧
        t = ⟨{ p with privatePreprocessedData := some data, assignmentTable := none }, fs⟩ := by
  rw [preprocessPrivateData_run hcs hdescription htable]
  rcases L.placeholderPrivatePreprocessor cs (L.movePrivateTable table).1 description with e | data
  · simp
  · simp [eq_comm]

theorem acceptProof_some_iff {data : L.PublicPreprocessedData}
    {privateData : L.PrivatePreprocessedData} {description : L.TableDescription}
    {cs : L.ConstraintSystem} {scheme : L.LpcScheme}
    (hdata : p.publicPreprocessedData = some data)
    (hprivate : p.privatePreprocessedData = some privateData)
    (hdescription : p.tableDescription = some description)
    (hcs : p.constraintSystem = some cs) (hscheme : p.lpcScheme = some scheme)
    {path : Path} {skip : Bool} {proof : L.Proof} :
    (acceptProof path skip).run ⟨p, fs⟩ = (.ok (some proof), t) ↔
      ∃ fs₁ scheme', (canWriteToFile path).run fs = (.ok true, fs₁) ∧
        L.placeholderProver data privateData description cs scheme = .ok (proof, scheme') ∧
        (skip = false →
          L.placeholderVerifier (L.commonData data) proof description cs scheme' = .ok true) ∧
        t = ⟨{ p with lpcScheme := some scheme' }, fs₁⟩ := by
  rw [acceptProof_run hdata hprivate hdescription hcs hscheme]
  rcases (canWriteToFile path).run fs with ⟨r, fs₁⟩
  rcases r with e | b
  · simp
  cases b with
  | false => simp
  | true =>
    rcases hprove : L.placeholderProver data privateData description cs scheme with
      e | ⟨proof', scheme'⟩
    · simp
    simp only [Prod.mk.injEq, acceptedUnless_some_iff]
    constructor
    · intro h
      obtain ⟨⟨rfl, hverify⟩, rfl⟩ := h
      exact ⟨fs₁, scheme', ⟨trivial, rfl⟩, rfl, hverify, rfl⟩
    · intro h
      obtain ⟨_, _, ⟨_, rfl⟩, hproof, hverify, rfl⟩ := h
      obtain ⟨rfl, rfl⟩ := Prod.mk.inj (Except.ok.inj hproof)
      exact ⟨⟨rfl, hverify⟩, rfl⟩

theorem publishProof_true_iff {description : L.TableDescription} {cs : L.ConstraintSystem}
    {scheme : L.LpcScheme} {inputs : L.PublicInputs}
    (hdescription : p.tableDescription = some description) (hcs : p.constraintSystem = some cs)
    (hscheme : p.lpcScheme = some scheme) (hinputs : p.publicInputs = some inputs)
    {proofFile jsonFile : Path} {proof : L.Proof} :
    (publishProof d proofFile jsonFile proof).run ⟨p, fs⟩ = (.ok true, t) ↔
      ∃ v fs₁ fs₂, L.proofBytes proof (L.getFriParams scheme) = .ok (some v) ∧
        written d fs proofFile (hexText v) = (true, fs₁) ∧
        JsonAttempt d fs₁ jsonFile
          (L.generateInput description inputs proof (L.publicInputSizes cs)) fs₂ ∧
        t = ⟨p, fs₂⟩ := by
  rw [publishProof_run hdescription hcs hscheme]
  rcases L.proofBytes proof (L.getFriParams scheme) with e | v
  · simp
  have hproof : ∀ fs₁, writtenProof d fs proofFile v = (true, fs₁) ↔
      ∃ v', v = some v' ∧ written d fs proofFile (hexText v') = (true, fs₁) := by
    intro fs₁
    cases v <;> simp [writtenProof]
  rcases hw : writtenProof d fs proofFile v with ⟨res, fs₁⟩
  rw [hw] at hproof
  simp only [hw]
  cases ho : fs₁.openForWriting jsonFile with
  | none =>
    simp only [Prod.mk.injEq]
    constructor
    · intro h
      obtain ⟨hres, rfl⟩ := h
      obtain rfl : res = true := Except.ok.inj hres
      obtain ⟨v', rfl, hv'⟩ := (hproof fs₁).mp rfl
      exact ⟨v', fs₁, fs₁, rfl, hv', .skipped ho, rfl⟩
    · intro h
      obtain ⟨v', fs₂, fs₃, hv, hv', hjson, rfl⟩ := h
      obtain ⟨rfl, rfl⟩ := Prod.mk.inj ((hproof fs₂).mpr ⟨v', Except.ok.inj hv, hv'⟩)
      cases hjson with
      | skipped => exact ⟨rfl, rfl⟩
      | attempted c hsome => simp [ho] at hsome
  | some l =>
    rcases htext : L.generateInput description inputs proof (L.publicInputSizes cs) with e | text
    · simp only [hinputs, htext]
      constructor
      · simp
      · intro h
        obtain ⟨v', fs₂, fs₃, hv, hv', hjson, rfl⟩ := h
        obtain ⟨rfl, rfl⟩ := Prod.mk.inj ((hproof fs₂).mpr ⟨v', Except.ok.inj hv, hv'⟩)
        cases hjson with
        | skipped hnone => simp [ho] at hnone
        | attempted c _ hc => simp at hc
    · simp only [hinputs, htext, Prod.mk.injEq, Except.ok.injEq]
      constructor
      · intro h
        obtain ⟨rfl, rfl⟩ := h
        obtain ⟨v', rfl, hv'⟩ := (hproof fs₁).mp rfl
        exact ⟨v', fs₁, _, rfl, hv', .attempted text (by rw [ho]; rfl) rfl, rfl⟩
      · intro h
        obtain ⟨v', fs₂, fs₃, hv, hv', hjson, rfl⟩ := h
        obtain ⟨rfl, rfl⟩ := Prod.mk.inj ((hproof fs₂).mpr ⟨v', hv, hv'⟩)
        cases hjson with
        | skipped hnone => simp [ho] at hnone
        | attempted c _ hc =>
          rw [Except.ok.inj hc]
          exact ⟨rfl, rfl⟩

theorem verifyFromFile_true_iff {common : L.CommonData} {description : L.TableDescription}
    {cs : L.ConstraintSystem} (hcommon : p.heldCommonData = some common)
    (hdescription : p.tableDescription = some description)
    (hcs : p.constraintSystem = some cs) {path : Path} :
    (verifyFromFile path).run ⟨p, fs⟩ = (.ok true, t) ↔
      ∃ scheme proof, freshScheme L p.lambda p.expandFactor description = .ok scheme ∧
        L.proofIn fs path = .ok (some proof) ∧
        L.placeholderVerifier common proof description cs scheme = .ok true ∧
        t = ⟨{ p with lpcScheme := some scheme }, fs⟩ := by
  rw [verifyFromFile_run hcommon hdescription hcs]
  rcases freshScheme L p.lambda p.expandFactor description with e | scheme
  · simp
  rcases L.proofIn fs path with e | proof
  · simp
  cases proof with
  | none => simp
  | some proof =>
    rcases hv : L.placeholderVerifier common proof description cs scheme with e | b
    · simp [hv, Except.mapError]
    · simp [hv, Except.mapError, eq_comm]

end Prover

section Computations
variable (L : Crypto3) (o : ProverOptions) (fs : FileSystem)

/-- The prover after the circuit and the table have been read. -/
def loadedProver (cs : L.ConstraintSystem) (description : L.TableDescription)
    (table : L.AssignmentTable) : Prover L :=
  { Prover.new L o.lambda o.expandFactor o.maxQuotientChunks o.grind with
    constraintSystem := some cs
    tableDescription := some description
    assignmentTable := some ⟨table, false, false⟩ }

/-- What preprocessing makes of the circuit and the table file. -/
structure Preprocessing where
  circuit : L.ConstraintSystem
  description : L.TableDescription
  table : L.AssignmentTable
  fresh : L.LpcScheme
  data : L.PublicPreprocessedData
  scheme : L.LpcScheme
  circuit_read : L.circuitIn fs o.circuitFilePath = .ok (some circuit)
  table_read : L.tableIn fs o.assignmentTableFilePath = .ok (some (description, table))
  fresh_made : freshScheme L o.lambda o.expandFactor description = .ok fresh
  preprocessed : L.placeholderPublicPreprocessor circuit (L.movePublicTable table).1 description
    fresh o.maxQuotientChunks = .ok (data, scheme)

/-- What stage `all` has in memory once its proof has been accepted. -/
structure Proving extends Preprocessing L o fs where
  privateData : L.PrivatePreprocessedData
  proof : L.Proof
  usedScheme : L.LpcScheme
  privately_preprocessed : L.placeholderPrivatePreprocessor circuit
    (L.movePrivateTable (L.movePublicTable table).2).1 description = .ok privateData
  proved : L.placeholderProver data privateData description circuit scheme =
    .ok (proof, usedScheme)
  accepted : L.placeholderVerifier (L.commonData data) proof description circuit usedScheme =
    .ok true

/-- What stage `prove` has in memory once its proof has been generated. -/
structure Resumption where
  circuit : L.ConstraintSystem
  description : L.TableDescription
  table : L.AssignmentTable
  data : L.PublicPreprocessedData
  scheme : L.LpcScheme
  privateData : L.PrivatePreprocessedData
  proof : L.Proof
  usedScheme : L.LpcScheme
  circuit_read : L.circuitIn fs o.circuitFilePath = .ok (some circuit)
  table_read : L.tableIn fs o.assignmentTableFilePath = .ok (some (description, table))
  data_read : L.preprocessedIn fs o.preprocessedPublicDataPath = .ok (some data)
  scheme_read : L.schemeIn fs o.commitmentSchemeStatePath = .ok (some scheme)
  privately_preprocessed : L.placeholderPrivatePreprocessor circuit (L.movePrivateTable table).1
    description = .ok privateData
  proved : L.placeholderProver data privateData description circuit scheme =
    .ok (proof, usedScheme)

/-- The encodings of what the public preprocessor computed. -/
structure SavedBytes (data : L.PublicPreprocessedData) (scheme : L.LpcScheme) where
  commonDataBytes : Bytes
  preprocessedBytes : Bytes
  schemeBytes : Bytes
  commonData_eq : L.commonDataBytes (L.commonData data) = .ok (some commonDataBytes)
  preprocessed_eq : L.preprocessedBytes data = .ok (some preprocessedBytes)
  scheme_eq : L.schemeBytes scheme = .ok (some schemeBytes)

end Computations

def Preprocessing.prover (c : Preprocessing L o fs) : Prover L :=
  { loadedProver L o c.circuit c.description c.table with
    publicInputs := some (L.publicInputs c.table)
    lpcScheme := some c.scheme
    assignmentTable := some ⟨(L.movePublicTable c.table).2, true, false⟩
    publicPreprocessedData := some c.data }

def Proving.prover (c : Proving L o fs) : Prover L :=
  { c.toPreprocessing.prover with
    privatePreprocessedData := some c.privateData
    assignmentTable := none
    lpcScheme := some c.usedScheme }

def Proving.jsonText (c : Proving L o fs) : Except Exception Bytes :=
  L.generateInput c.description (L.publicInputs c.table) c.proof (L.publicInputSizes c.circuit)

def Resumption.prover (c : Resumption L o fs) : Prover L :=
  { loadedProver L o c.circuit c.description c.table with
    publicPreprocessedData := some c.data
    privatePreprocessedData := some c.privateData
    assignmentTable := none
    lpcScheme := some c.usedScheme }

def SavedBytes.writes {data : L.PublicPreprocessedData} {scheme : L.LpcScheme}
    (b : SavedBytes L data scheme) (o : ProverOptions) : List (Path × Bytes) :=
  [(o.preprocessedCommonDataPath, b.commonDataBytes),
    (o.preprocessedPublicDataPath, b.preprocessedBytes),
    (o.commitmentSchemeStatePath, b.schemeBytes)]

/-- The files determine what preprocessing makes of them. -/
theorem Preprocessing.unique (a b : Preprocessing L o fs) : a = b := by
  obtain ⟨cs, description, table, fresh, data, scheme, hcs, htable, hfresh, hdata⟩ := a
  obtain ⟨cs', description', table', fresh', data', scheme', hcs', htable', hfresh', hdata'⟩ := b
  obtain rfl : cs = cs' := by simpa [hcs] using hcs'
  obtain ⟨rfl, rfl⟩ : description = description' ∧ table = table' := by
    simpa [htable] using htable'
  obtain rfl : fresh = fresh' := by simpa [hfresh] using hfresh'
  obtain ⟨rfl, rfl⟩ : data = data' ∧ scheme = scheme' := by simpa [hdata] using hdata'
  rfl

theorem Proving.unique (a b : Proving L o fs) : a = b := by
  obtain ⟨c, privateData, proof, used, hprivate, hproved, haccepted⟩ := a
  obtain ⟨c', privateData', proof', used', hprivate', hproved', haccepted'⟩ := b
  obtain rfl : c = c' := c.unique c'
  obtain rfl : privateData = privateData' := by simpa [hprivate] using hprivate'
  obtain ⟨rfl, rfl⟩ : proof = proof' ∧ used = used' := by simpa [hproved] using hproved'
  rfl

theorem SavedBytes.writes_eq {data data' : L.PublicPreprocessedData} {scheme scheme' : L.LpcScheme}
    (a : SavedBytes L data scheme) (b : SavedBytes L data' scheme') (hdata : data = data')
    (hscheme : scheme = scheme') : a.writes o = b.writes o := by
  subst hdata hscheme
  have hcommon : a.commonDataBytes = b.commonDataBytes := by
    simpa [a.commonData_eq] using b.commonData_eq
  have hpublic : a.preprocessedBytes = b.preprocessedBytes := by
    simpa [a.preprocessed_eq] using b.preprocessed_eq
  have hstate : a.schemeBytes = b.schemeBytes := by
    simpa [a.scheme_eq] using b.scheme_eq
  simp only [SavedBytes.writes, hcommon, hpublic, hstate]

section Chains
variable (L : Crypto3) (d : Disk) (o : ProverOptions)

/-- What stage `all` does before it generates the proof. -/
def preparation : List (Step L Bool) :=
  [Prover.readCircuit o.circuitFilePath, Prover.readAssignmentTable o.assignmentTableFilePath,
    Prover.preprocessPublicData, Prover.preprocessPrivateData]

/-- What stage `prove` does before it generates the proof. -/
def resumption : List (Step L Bool) :=
  [Prover.readCircuit o.circuitFilePath, Prover.readAssignmentTable o.assignmentTableFilePath,
    Prover.readPublicPreprocessedDataFromFile o.preprocessedPublicDataPath,
    Prover.readCommitmentSchemeFromFile o.commitmentSchemeStatePath, Prover.preprocessPrivateData]

def savingSteps : List (Step L Bool) :=
  [Prover.savePreprocessedCommonDataToFile d o.preprocessedCommonDataPath,
    Prover.savePublicPreprocessedDataToFile d o.preprocessedPublicDataPath,
    Prover.saveCommitmentStateToFile d o.commitmentSchemeStatePath]

variable {L}

/-- Some steps and then the generation of a proof, up to and including its verification. -/
def acceptedProof (steps : List (Step L Bool)) (proofFile : Path) (skipVerification : Bool) :
    Step L (Option L.Proof) := do
  if ← Action.allOf steps then Prover.acceptProof proofFile skipVerification else return none

end Chains

variable {t : Session L}

theorem acceptedProof_nil (proofFile : Path) (skip : Bool) :
    acceptedProof [] proofFile skip = (Prover.acceptProof proofFile skip : Step L _) := rfl

theorem acceptedProof_cons (m : Step L Bool) (steps : List (Step L Bool)) (proofFile : Path)
    (skip : Bool) (s : Session L) :
    (acceptedProof (m :: steps) proofFile skip).run s =
      match m.run s with
      | (.error e, t) => (.error e, t)
      | (.ok false, t) => (.ok none, t)
      | (.ok true, t) => (acceptedProof steps proofFile skip).run t := by
  unfold acceptedProof
  rw [Action.run_bind, Action.allOf_cons, Action.run_bind]
  rcases m.run s with ⟨r, t⟩
  rcases r with e | b
  · rfl
  cases b <;> rfl

/-- A chain with `generate_to_file` in it runs into a proof or stops before it publishes one. -/
theorem allOf_generateToFile_run (steps rest : List (Step L Bool)) (d : Disk)
    (proofFile jsonFile : Path) (skip : Bool) (s : Session L) :
    (Action.allOf (steps ++ Prover.generateToFile d proofFile jsonFile skip :: rest)).run s =
      match (acceptedProof steps proofFile skip).run s with
      | (.error e, t) => (.error e, t)
      | (.ok none, t) => (.ok false, t)
      | (.ok (some proof), t) =>
        (Prover.publishProof d proofFile jsonFile proof >>= fun b =>
          if b then Action.allOf rest else pure false).run t := by
  induction steps generalizing s with
  | nil =>
    rw [List.nil_append, Action.allOf_cons, Prover.generateToFile, acceptedProof_nil,
      Action.run_bind, Action.run_bind]
    rcases (Prover.acceptProof proofFile skip).run s with ⟨r, t⟩
    rcases r with e | proof
    · rfl
    cases proof <;> rfl
  | cons m steps ih =>
    rw [List.cons_append, Action.allOf_cons, Action.run_bind, acceptedProof_cons]
    rcases m.run s with ⟨r, t⟩
    rcases r with e | b
    · rfl
    cases b with
    | false => rfl
    | true => exact ih t

theorem stageSteps_all : stageSteps L d o .all = preparation L o ++
    Prover.generateToFile d o.proofFilePath o.jsonFilePath false :: savingSteps L d o := rfl

theorem stageSteps_prove : stageSteps L d o .prove = resumption L o ++
    [Prover.generateToFile d o.proofFilePath o.jsonFilePath true] := rfl

theorem acceptedProof_cons_some_iff {m : Step L Bool} {steps : List (Step L Bool)}
    {proofFile : Path} {skip : Bool} {proof : L.Proof} {s t : Session L} :
    (acceptedProof (m :: steps) proofFile skip).run s = (.ok (some proof), t) ↔
      ∃ u, m.run s = (.ok true, u) ∧
        (acceptedProof steps proofFile skip).run u = (.ok (some proof), t) := by
  rw [acceptedProof_cons]
  rcases m.run s with ⟨r, u⟩
  rcases r with e | b
  · simp
  cases b <;> simp

/-- Stage `all` has an accepted proof exactly when the computation exists and the probe of the
proof path answers yes. -/
theorem acceptedProof_preparation_iff {proof : L.Proof} :
    (acceptedProof (preparation L o) o.proofFilePath false).run (initialSession L o fs) =
        (.ok (some proof), t) ↔
      ∃ (c : Proving L o fs) (fs₁ : FileSystem), c.proof = proof ∧
        (canWriteToFile o.proofFilePath).run fs = (.ok true, fs₁) ∧ t = ⟨c.prover, fs₁⟩ := by
  constructor
  · intro h
    obtain ⟨_, hcircuit, h⟩ := acceptedProof_cons_some_iff.mp h
    obtain ⟨cs, hcs, rfl⟩ := Prover.readMember_true_iff.mp hcircuit
    obtain ⟨_, htable, h⟩ := acceptedProof_cons_some_iff.mp h
    obtain ⟨⟨description, table⟩, hread, rfl⟩ := Prover.readMember_true_iff.mp htable
    obtain ⟨_, hpublic, h⟩ := acceptedProof_cons_some_iff.mp h
    obtain ⟨fresh, data, scheme, hfresh, hdata, rfl⟩ :=
      (Prover.preprocessPublicData_true_iff rfl rfl rfl).mp hpublic
    obtain ⟨_, hprivate, h⟩ := acceptedProof_cons_some_iff.mp h
    obtain ⟨privateData, hpriv, rfl⟩ :=
      (Prover.preprocessPrivateData_true_iff rfl rfl rfl).mp hprivate
    rw [acceptedProof_nil] at h
    obtain ⟨fs₁, used, hprobe, hproved, hverified, rfl⟩ :=
      (Prover.acceptProof_some_iff rfl rfl rfl rfl rfl).mp h
    exact ⟨⟨⟨cs, description, table, fresh, data, scheme, hcs, hread, hfresh, hdata⟩,
      privateData, proof, used, hpriv, hproved, hverified rfl⟩, fs₁, rfl, hprobe, rfl⟩
  · intro h
    obtain ⟨c, fs₁, rfl, hprobe, rfl⟩ := h
    refine acceptedProof_cons_some_iff.mpr
      ⟨_, Prover.readMember_true_iff.mpr ⟨c.circuit, c.circuit_read, rfl⟩, ?_⟩
    refine acceptedProof_cons_some_iff.mpr
      ⟨_, Prover.readMember_true_iff.mpr ⟨(c.description, c.table), c.table_read, rfl⟩, ?_⟩
    refine acceptedProof_cons_some_iff.mpr ⟨_, (Prover.preprocessPublicData_true_iff rfl rfl
      rfl).mpr ⟨c.fresh, c.data, c.scheme, c.fresh_made, c.preprocessed, rfl⟩, ?_⟩
    refine acceptedProof_cons_some_iff.mpr ⟨_, (Prover.preprocessPrivateData_true_iff rfl rfl
      rfl).mpr ⟨c.privateData, c.privately_preprocessed, rfl⟩, ?_⟩
    rw [acceptedProof_nil]
    exact (Prover.acceptProof_some_iff rfl rfl rfl rfl rfl).mpr
      ⟨fs₁, c.usedScheme, hprobe, c.proved, fun _ => c.accepted, rfl⟩

/-- Stage `prove` has a proof exactly when the computation exists and the probe says yes. -/
theorem acceptedProof_resumption_iff {proof : L.Proof} :
    (acceptedProof (resumption L o) o.proofFilePath true).run (initialSession L o fs) =
        (.ok (some proof), t) ↔
      ∃ (c : Resumption L o fs) (fs₁ : FileSystem), c.proof = proof ∧
        (canWriteToFile o.proofFilePath).run fs = (.ok true, fs₁) ∧ t = ⟨c.prover, fs₁⟩ := by
  constructor
  · intro h
    obtain ⟨_, hcircuit, h⟩ := acceptedProof_cons_some_iff.mp h
    obtain ⟨cs, hcs, rfl⟩ := Prover.readMember_true_iff.mp hcircuit
    obtain ⟨_, htable, h⟩ := acceptedProof_cons_some_iff.mp h
    obtain ⟨⟨description, table⟩, hread, rfl⟩ := Prover.readMember_true_iff.mp htable
    obtain ⟨_, hpublic, h⟩ := acceptedProof_cons_some_iff.mp h
    obtain ⟨data, hdata, rfl⟩ := Prover.readMember_true_iff.mp hpublic
    obtain ⟨_, hstate, h⟩ := acceptedProof_cons_some_iff.mp h
    obtain ⟨scheme, hscheme, rfl⟩ := Prover.readMember_true_iff.mp hstate
    obtain ⟨_, hprivate, h⟩ := acceptedProof_cons_some_iff.mp h
    obtain ⟨privateData, hpriv, rfl⟩ :=
      (Prover.preprocessPrivateData_true_iff rfl rfl rfl).mp hprivate
    rw [acceptedProof_nil] at h
    obtain ⟨fs₁, used, hprobe, hproved, _, rfl⟩ :=
      (Prover.acceptProof_some_iff rfl rfl rfl rfl rfl).mp h
    exact ⟨⟨cs, description, table, data, scheme, privateData, proof, used, hcs, hread, hdata,
      hscheme, hpriv, hproved⟩, fs₁, rfl, hprobe, rfl⟩
  · intro h
    obtain ⟨c, fs₁, rfl, hprobe, rfl⟩ := h
    refine acceptedProof_cons_some_iff.mpr
      ⟨_, Prover.readMember_true_iff.mpr ⟨c.circuit, c.circuit_read, rfl⟩, ?_⟩
    refine acceptedProof_cons_some_iff.mpr
      ⟨_, Prover.readMember_true_iff.mpr ⟨(c.description, c.table), c.table_read, rfl⟩, ?_⟩
    refine acceptedProof_cons_some_iff.mpr
      ⟨_, Prover.readMember_true_iff.mpr ⟨c.data, c.data_read, rfl⟩, ?_⟩
    refine acceptedProof_cons_some_iff.mpr
      ⟨_, Prover.readMember_true_iff.mpr ⟨c.scheme, c.scheme_read, rfl⟩, ?_⟩
    refine acceptedProof_cons_some_iff.mpr ⟨_, (Prover.preprocessPrivateData_true_iff rfl rfl
      rfl).mpr ⟨c.privateData, c.privately_preprocessed, rfl⟩, ?_⟩
    rw [acceptedProof_nil]
    exact (Prover.acceptProof_some_iff rfl rfl rfl rfl rfl).mpr
      ⟨fs₁, c.usedScheme, hprobe, c.proved, by simp, rfl⟩

theorem savingSteps_true_iff {p : Prover L} {data : L.PublicPreprocessedData}
    {scheme : L.LpcScheme} (hdata : p.publicPreprocessedData = some data)
    (hscheme : p.lpcScheme = some scheme) :
    (Action.allOf (savingSteps L d o)).run ⟨p, fs⟩ = (.ok true, t) ↔
      ∃ (b : SavedBytes L data scheme) (fs₁ : FileSystem), WritesThrough d fs (b.writes o) fs₁ ∧
        t = ⟨p, fs₁⟩ := by
  have hcommon : ∀ fs, (Prover.deref .publicPreprocessedData
      fun p => p.publicPreprocessedData.map L.commonData).run ⟨p, fs⟩ =
        (.ok (L.commonData data), ⟨p, fs⟩) :=
    fun _ => Prover.run_deref_some (by simp [hdata])
  have hpublic := fun fs : FileSystem =>
    (Prover.run_deref_some hdata : (Prover.deref .publicPreprocessedData _).run ⟨p, fs⟩ = _)
  have hstate := fun fs : FileSystem =>
    (Prover.run_deref_some hscheme : (Prover.deref .lpcScheme _).run ⟨p, fs⟩ = _)
  constructor
  · intro h
    obtain ⟨_, h₁, h⟩ := Action.allOf_cons_true_iff.mp h
    obtain ⟨v₁, fs₁, hv₁, hw₁, rfl⟩ := (Prover.saveObject_true_iff hcommon).mp h₁
    obtain ⟨_, h₂, h⟩ := Action.allOf_cons_true_iff.mp h
    obtain ⟨v₂, fs₂, hv₂, hw₂, rfl⟩ := (Prover.saveObject_true_iff hpublic).mp h₂
    obtain ⟨_, h₃, h⟩ := Action.allOf_cons_true_iff.mp h
    obtain ⟨v₃, fs₃, hv₃, hw₃, rfl⟩ := (Prover.saveObject_true_iff hstate).mp h₃
    exact ⟨⟨v₁, v₂, v₃, hv₁, hv₂, hv₃⟩, fs₃, .cons hw₁ (.cons hw₂ (.cons hw₃ (.nil fs₃))),
      Action.allOf_nil_true_iff.mp h⟩
  · intro h
    obtain ⟨b, fs₁, hw, rfl⟩ := h
    cases hw with
    | cons hw₁ hw =>
    cases hw with
    | cons hw₂ hw =>
    cases hw with
    | cons hw₃ hw =>
    cases hw
    refine Action.allOf_cons_true_iff.mpr ⟨_, (Prover.saveObject_true_iff hcommon).mpr
      ⟨_, _, b.commonData_eq, hw₁, rfl⟩, ?_⟩
    refine Action.allOf_cons_true_iff.mpr ⟨_, (Prover.saveObject_true_iff hpublic).mpr
      ⟨_, _, b.preprocessed_eq, hw₂, rfl⟩, ?_⟩
    refine Action.allOf_cons_true_iff.mpr ⟨_, (Prover.saveObject_true_iff hstate).mpr
      ⟨_, _, b.scheme_eq, hw₃, rfl⟩, ?_⟩
    exact Action.allOf_nil_true_iff.mpr rfl

end ProofProducer
