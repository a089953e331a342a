import ProofProducer.Runs
import ProofProducer.Shared.Typestate

/-!
# Which members a stage finds engaged

Every step has a contract over the optional members and the two parts of the table. All stages
but one are ready chains. In stage `prove` nothing fills `public_inputs_`, and the tail of
`generate_to_file` reads it.
-/

namespace ProofProducer

open Effects Files Files.FileSystem Codecs Typestate

set_option autoImplicit false

variable {L : Crypto3} {d : Disk} {o : ProverOptions} {fs : FileSystem}

inductive Resource where
  | engaged (m : Member)
  | part (p : TablePart)
  deriving DecidableEq, Repr

def Prover.isEngaged (p : Prover L) : Member → Bool
  | .publicPreprocessedData => p.publicPreprocessedData.isSome
  | .commonData => p.commonData.isSome
  | .privatePreprocessedData => p.privatePreprocessedData.isSome
  | .publicInputs => p.publicInputs.isSome
  | .tableDescription => p.tableDescription.isSome
  | .constraintSystem => p.constraintSystem.isSome
  | .assignmentTable => p.assignmentTable.isSome
  | .lpcScheme => p.lpcScheme.isSome

def Prover.hasPart (p : Prover L) : TablePart → Bool
  | .publicPart => p.assignmentTable.any fun slot => !slot.publicMoved
  | .privatePart => p.assignmentTable.any fun slot => !slot.privateMoved

def Holds (s : Session L) : Resource → Prop
  | .engaged m => s.prover.isEngaged m = true
  | .part p => s.prover.hasPart p = true

/-- Reading an empty optional or a part that has been moved out. -/
def MemberFault : Stop → Prop
  | .undefined (.emptyOptional _) => True
  | .undefined (.movedFrom _) => True
  | _ => False

def readContract (gives : List Resource) : Contract Resource := ⟨[], gives, []⟩

def saveContract (m : Member) : Contract Resource := ⟨[.engaged m], [], []⟩

def readTableContract : Contract Resource := readContract
  [.engaged .tableDescription, .engaged .assignmentTable, .part .publicPart, .part .privatePart]

def preprocessPublicContract : Contract Resource where
  needs := [.engaged .constraintSystem, .engaged .tableDescription, .engaged .assignmentTable,
    .part .publicPart]
  gives := [.engaged .publicInputs, .engaged .lpcScheme, .engaged .publicPreprocessedData]
  takes := [.part .publicPart]

def preprocessPrivateContract : Contract Resource where
  needs := [.engaged .constraintSystem, .engaged .tableDescription, .engaged .assignmentTable,
    .part .privatePart]
  gives := [.engaged .privatePreprocessedData]
  takes := [.engaged .assignmentTable, .part .publicPart, .part .privatePart]

/-- What `generate_to_file` reads before the proof is written. -/
def proofNeeds : List Resource :=
  [.engaged .publicPreprocessedData, .engaged .privatePreprocessedData,
    .engaged .tableDescription, .engaged .constraintSystem, .engaged .lpcScheme]

def generateContract : Contract Resource := ⟨.engaged .publicInputs :: proofNeeds, [], []⟩

def verifyContract : Contract Resource where
  needs := [.engaged .constraintSystem, .engaged .commonData, .engaged .tableDescription]
  gives := []
  takes := []

def savingContracts : List (Contract Resource) :=
  [saveContract .publicPreprocessedData, saveContract .publicPreprocessedData,
    saveContract .lpcScheme]

def resumptionContracts : List (Contract Resource) :=
  [readContract [.engaged .constraintSystem], readTableContract,
    readContract [.engaged .publicPreprocessedData], readContract [.engaged .lpcScheme],
    preprocessPrivateContract]

def stageContracts : ProverStage → List (Contract Resource)
  | .all =>
    [readContract [.engaged .constraintSystem], readTableContract, preprocessPublicContract,
      preprocessPrivateContract, generateContract] ++ savingContracts
  | .preprocess =>
    [readContract [.engaged .constraintSystem], readTableContract, saveContract .tableDescription,
      preprocessPublicContract] ++ savingContracts
  | .prove => resumptionContracts ++ [generateContract]
  | .verify =>
    [readContract [.engaged .constraintSystem], readContract [.engaged .commonData],
      readContract [.engaged .tableDescription], verifyContract]
  | .generateAggregatedChallenge => [⟨[], [], []⟩]

/-- By the contracts alone, exactly stage `prove` lacks a member that it reads. -/
theorem ready_stageContracts_iff (stage : ProverStage) :
    ready [] (stageContracts stage) = true ↔ stage ≠ .prove := by
  cases stage <;> decide

abbrev StepMeets (m : Step L Bool) (c : Contract Resource) : Prop := Meets Holds MemberFault m c

theorem not_memberFault_thrown (e : Exception) : ¬ MemberFault (.thrown e) := fun h => h

theorem meets_readMember {M α : Type} (codec : Codec Exception M) (make : M → Except Exception α)
    (emplace : α → Prover L → Prover L) (path : Path) (gives : List Resource)
    (hgives : ∀ a p fs, ∀ r ∈ gives, Holds (⟨emplace a p, fs⟩ : Session L) r)
    (hkeeps : ∀ a p fs r, Holds (⟨p, fs⟩ : Session L) r → Holds (⟨emplace a p, fs⟩ : Session L) r) :
    StepMeets (Prover.readMember codec make emplace path) (readContract gives) := by
  constructor
  · intro s t e _ hrun
    obtain ⟨p, fs⟩ := s
    rw [Prover.readMember_run] at hrun
    split at hrun
    · rw [← Except.error.inj (Prod.mk.inj hrun).1]
      exact not_memberFault_thrown _
    · simp at hrun
    · simp at hrun
  · intro s t _ hrun
    obtain ⟨p, fs⟩ := s
    obtain ⟨a, _, rfl⟩ := Prover.readMember_true_iff.mp hrun
    exact hgives a p fs
  · intro s t _ hrun r _ hr
    obtain ⟨p, fs⟩ := s
    obtain ⟨a, _, rfl⟩ := Prover.readMember_true_iff.mp hrun
    exact hkeeps a p fs r hr

theorem meets_saveObject {M α : Type} (codec : Codec Exception M) (m : Member)
    (get : Prover L → Option α) (fill : α → Except Exception M) (path : Path)
    (hget : ∀ p, p.isEngaged m = (get p).isSome) :
    StepMeets (Prover.saveObject d codec (Prover.deref m get) fill path) (saveContract m) := by
  have hdefined : ∀ p fs, (∀ r ∈ (saveContract m).needs, Holds (⟨p, fs⟩ : Session L) r) →
      ∃ a, ∀ fs, (Prover.deref m get).run ⟨p, fs⟩ = (.ok a, ⟨p, fs⟩) := by
    intro p fs hneeds
    have hm : p.isEngaged m = true := hneeds (.engaged m) List.mem_cons_self
    rw [hget] at hm
    obtain ⟨a, ha⟩ := Option.isSome_iff_exists.mp hm
    exact ⟨a, fun fs => Prover.run_deref_some ha⟩
  constructor
  · intro s t e hneeds hrun
    obtain ⟨p, fs⟩ := s
    obtain ⟨a, ha⟩ := hdefined p fs hneeds
    rw [Prover.saveObject_run (ha fs)] at hrun
    split at hrun
    · rw [← Except.error.inj (Prod.mk.inj hrun).1]
      exact not_memberFault_thrown _
    · simp at hrun
    · simp at hrun
  · intro s t _ _ r hr
    simp [saveContract] at hr
  · intro s t hneeds hrun r _ hr
    obtain ⟨p, fs⟩ := s
    obtain ⟨a, ha⟩ := hdefined p fs hneeds
    obtain ⟨v, fs₁, _, _, rfl⟩ := (Prover.saveObject_true_iff ha).mp hrun
    exact hr

theorem exists_of_engaged {α : Type} {a : Option α} (h : a.isSome = true) : ∃ x, a = some x :=
  Option.isSome_iff_exists.mp h

theorem exists_of_publicPart {p : Prover L} (h : p.hasPart .publicPart = true) :
    ∃ table moved, p.assignmentTable = some ⟨table, false, moved⟩ := by
  unfold Prover.hasPart at h
  rcases hslot : p.assignmentTable with _ | ⟨table, publicMoved, privateMoved⟩
  · simp [hslot] at h
  · obtain rfl : publicMoved = false := by simpa [hslot] using h
    exact ⟨table, privateMoved, rfl⟩

theorem exists_of_privatePart {p : Prover L} (h : p.hasPart .privatePart = true) :
    ∃ table moved, p.assignmentTable = some ⟨table, moved, false⟩ := by
  unfold Prover.hasPart at h
  rcases hslot : p.assignmentTable with _ | ⟨table, publicMoved, privateMoved⟩
  · simp [hslot] at h
  · obtain rfl : privateMoved = false := by simpa [hslot] using h
    exact ⟨table, publicMoved, rfl⟩

theorem not_memberFault_freshScheme {lambda expandFactor : SizeT}
    {description : L.TableDescription} {e : Stop}
    (h : freshScheme L lambda expandFactor description = .error e) : ¬ MemberFault e := by
  unfold freshScheme at h
  split at h
  · rw [← Except.error.inj h]
    exact fun h => h
  · split at h
    · rw [← Except.error.inj h]
      exact not_memberFault_thrown _
    · rename_i params _
      cases hs : L.lpcScheme params with
      | error e' =>
        rw [hs] at h
        rw [← Except.error.inj h]
        exact not_memberFault_thrown _
      | ok scheme => simp [hs, Except.mapError] at h

theorem meets_preprocessPublicData :
    StepMeets (Prover.preprocessPublicData : Step L Bool) preprocessPublicContract := by
  have hdefined : ∀ p fs, (∀ r ∈ preprocessPublicContract.needs, Holds (⟨p, fs⟩ : Session L) r) →
      ∃ cs description table moved, p.constraintSystem = some cs ∧
        p.tableDescription = some description ∧
        p.assignmentTable = some ⟨table, false, moved⟩ := by
    intro p fs hneeds
    obtain ⟨cs, hcs⟩ := exists_of_engaged (hneeds (.engaged .constraintSystem) (by decide))
    obtain ⟨description, hd⟩ := exists_of_engaged (hneeds (.engaged .tableDescription) (by decide))
    obtain ⟨table, moved, ht⟩ := exists_of_publicPart (hneeds (.part .publicPart) (by decide))
    exact ⟨cs, description, table, moved, hcs, hd, ht⟩
  constructor
  · intro s t e hneeds hrun
    obtain ⟨p, fs⟩ := s
    obtain ⟨cs, description, table, moved, hcs, hd, ht⟩ := hdefined p fs hneeds
    rw [Prover.preprocessPublicData_run hcs hd ht] at hrun
    split at hrun
    · rename_i e' hfresh
      rw [← Except.error.inj (Prod.mk.inj hrun).1]
      exact not_memberFault_freshScheme hfresh
    · split at hrun
      · rw [← Except.error.inj (Prod.mk.inj hrun).1]
        exact not_memberFault_thrown _
      · simp at hrun
  · intro s t hneeds hrun r hr
    obtain ⟨p, fs⟩ := s
    obtain ⟨cs, description, table, moved, hcs, hd, ht⟩ := hdefined p fs hneeds
    obtain ⟨_, _, _, _, _, rfl⟩ := (Prover.preprocessPublicData_true_iff hcs hd ht).mp hrun
    simp only [preprocessPublicContract, List.mem_cons, List.not_mem_nil, or_false] at hr
    rcases hr with rfl | rfl | rfl <;> rfl
  · intro s t hneeds hrun r hr hs
    obtain ⟨p, fs⟩ := s
    obtain ⟨cs, description, table, moved, hcs, hd, ht⟩ := hdefined p fs hneeds
    obtain ⟨_, _, _, _, _, rfl⟩ := (Prover.preprocessPublicData_true_iff hcs hd ht).mp hrun
    cases r with
    | engaged m => cases m <;> first | rfl | exact hs
    | part part =>
      cases part with
      | publicPart => exact absurd (by decide) hr
      | privatePart =>
        simp only [Holds, Prover.hasPart, ht] at hs
        exact hs

theorem meets_preprocessPrivateData :
    StepMeets (Prover.preprocessPrivateData : Step L Bool) preprocessPrivateContract := by
  have hdefined : ∀ p fs, (∀ r ∈ preprocessPrivateContract.needs, Holds (⟨p, fs⟩ : Session L) r) →
      ∃ cs description table moved, p.constraintSystem = some cs ∧
        p.tableDescription = some description ∧
        p.assignmentTable = some ⟨table, moved, false⟩ := by
    intro p fs hneeds
    obtain ⟨cs, hcs⟩ := exists_of_engaged (hneeds (.engaged .constraintSystem) (by decide))
    obtain ⟨description, hd⟩ := exists_of_engaged (hneeds (.engaged .tableDescription) (by decide))
    obtain ⟨table, moved, ht⟩ := exists_of_privatePart (hneeds (.part .privatePart) (by decide))
    exact ⟨cs, description, table, moved, hcs, hd, ht⟩
  constructor
  · intro s t e hneeds hrun
    obtain ⟨p, fs⟩ := s
    obtain ⟨cs, description, table, moved, hcs, hd, ht⟩ := hdefined p fs hneeds
    rw [Prover.preprocessPrivateData_run hcs hd ht] at hrun
    split at hrun
    · rw [← Except.error.inj (Prod.mk.inj hrun).1]
      exact not_memberFault_thrown _
    · simp at hrun
  · intro s t hneeds hrun r hr
    obtain ⟨p, fs⟩ := s
    obtain ⟨cs, description, table, moved, hcs, hd, ht⟩ := hdefined p fs hneeds
    obtain ⟨_, _, rfl⟩ := (Prover.preprocessPrivateData_true_iff hcs hd ht).mp hrun
    simp only [preprocessPrivateContract, List.mem_cons, List.not_mem_nil, or_false] at hr
    rw [hr]
    rfl
  · intro s t hneeds hrun r hr hs
    obtain ⟨p, fs⟩ := s
    obtain ⟨cs, description, table, moved, hcs, hd, ht⟩ := hdefined p fs hneeds
    obtain ⟨_, _, rfl⟩ := (Prover.preprocessPrivateData_true_iff hcs hd ht).mp hrun
    cases r with
    | engaged m =>
      cases m with
      | assignmentTable => exact absurd (by decide) hr
      | privatePreprocessedData => rfl
      | _ => exact hs
    | part part => cases part <;> exact absurd (by decide) hr

theorem not_memberFault_mapError {α : Type} {r : Except Exception α} {e : Stop}
    (h : r.mapError Stop.thrown = .error e) : ¬ MemberFault e := by
  cases r with
  | error e' =>
    rw [← Except.error.inj h]
    exact not_memberFault_thrown e'
  | ok a => simp [Except.mapError] at h

/-- The part of `generate_to_file` before publication needs five members, and a proof that
comes out of it has changed the commitment scheme only. -/
theorem acceptProof_safe {p : Prover L} {path : Path} {skip : Bool}
    (hneeds : ∀ r ∈ proofNeeds, Holds (⟨p, fs⟩ : Session L) r) :
    (∀ t e, (Prover.acceptProof path skip).run ⟨p, fs⟩ = (.error e, t) → ¬ MemberFault e) ∧
      ∀ t proof, (Prover.acceptProof path skip).run ⟨p, fs⟩ = (.ok (some proof), t) →
        ∃ scheme fs₁, t = ⟨{ p with lpcScheme := some scheme }, fs₁⟩ := by
  obtain ⟨data, hdata⟩ := exists_of_engaged (hneeds (.engaged .publicPreprocessedData) (by decide))
  obtain ⟨priv, hpriv⟩ := exists_of_engaged (hneeds (.engaged .privatePreprocessedData) (by decide))
  obtain ⟨description, hd⟩ := exists_of_engaged (hneeds (.engaged .tableDescription) (by decide))
  obtain ⟨cs, hcs⟩ := exists_of_engaged (hneeds (.engaged .constraintSystem) (by decide))
  obtain ⟨scheme, hscheme⟩ := exists_of_engaged (hneeds (.engaged .lpcScheme) (by decide))
  constructor
  · intro t e hrun
    rw [Prover.acceptProof_run hdata hpriv hd hcs hscheme] at hrun
    split at hrun
    · rw [← Except.error.inj (Prod.mk.inj hrun).1]
      exact not_memberFault_thrown _
    · simp at hrun
    · split at hrun
      · rw [← Except.error.inj (Prod.mk.inj hrun).1]
        exact not_memberFault_thrown _
      · have haccepted := (Prod.mk.inj hrun).1
        unfold Prover.acceptedUnless at haccepted
        split at haccepted
        · simp at haccepted
        · split at haccepted
          · rw [← Except.error.inj haccepted]
            exact not_memberFault_thrown _
          · simp at haccepted
  · intro t proof hrun
    obtain ⟨fs₁, scheme', _, _, _, rfl⟩ :=
      (Prover.acceptProof_some_iff hdata hpriv hd hcs hscheme).mp hrun
    exact ⟨scheme', fs₁, rfl⟩

/-- Publication reads no member that is missing if the public inputs are there, or if the JSON
file cannot be opened. -/
theorem publishProof_safe {p : Prover L} {proofFile jsonFile : Path} {proof : L.Proof}
    (hd : p.tableDescription.isSome) (hcs : p.constraintSystem.isSome)
    (hscheme : p.lpcScheme.isSome)
    (h : p.publicInputs.isSome ∨ fs.openForWriting jsonFile = none) :
    ∀ t e, (Prover.publishProof d proofFile jsonFile proof).run ⟨p, fs⟩ = (.error e, t) →
      ¬ MemberFault e := by
  obtain ⟨description, hd⟩ := exists_of_engaged hd
  obtain ⟨cs, hcs⟩ := exists_of_engaged hcs
  obtain ⟨scheme, hscheme⟩ := exists_of_engaged hscheme
  intro t e hrun
  rw [Prover.publishProof_run hd hcs hscheme] at hrun
  split at hrun
  · rw [← Except.error.inj (Prod.mk.inj hrun).1]
    exact not_memberFault_thrown _
  · rename_i v _
    split at hrun
    · simp at hrun
    · rename_i l hopen
      split at hrun
      · rename_i hnone
        rcases h with hsome | hclosed
        · simp [hnone] at hsome
        · rw [(Prover.writtenProof_steady d fs proofFile v).openForWriting_eq, hclosed] at hopen
          simp at hopen
      · split at hrun
        · rw [← Except.error.inj (Prod.mk.inj hrun).1]
          exact not_memberFault_thrown _
        · simp at hrun

theorem publishProof_prover {p : Prover L} {proofFile jsonFile : Path} {proof : L.Proof}
    {t : Session L} {res : Bool} (hd : p.tableDescription.isSome)
    (hcs : p.constraintSystem.isSome) (hscheme : p.lpcScheme.isSome)
    (hrun : (Prover.publishProof d proofFile jsonFile proof).run ⟨p, fs⟩ = (.ok res, t)) :
    t.prover = p := by
  obtain ⟨description, hd⟩ := exists_of_engaged hd
  obtain ⟨cs, hcs⟩ := exists_of_engaged hcs
  obtain ⟨scheme, hscheme⟩ := exists_of_engaged hscheme
  rw [Prover.publishProof_run hd hcs hscheme] at hrun
  split at hrun
  · simp at hrun
  · split at hrun
    · rw [← (Prod.mk.inj hrun).2]
    · split at hrun
      · simp at hrun
      · split at hrun
        · simp at hrun
        · rw [← (Prod.mk.inj hrun).2]

theorem meets_generateToFile (proofFile jsonFile : Path) (skip : Bool) :
    StepMeets (Prover.generateToFile d proofFile jsonFile skip : Step L Bool)
      generateContract := by
  have haccept : ∀ p fs, (∀ r ∈ generateContract.needs, Holds (⟨p, fs⟩ : Session L) r) →
      ∀ r ∈ proofNeeds, Holds (⟨p, fs⟩ : Session L) r :=
    fun p fs hneeds r hr => hneeds r (List.mem_cons_of_mem _ hr)
  constructor
  · intro s t e hneeds hrun
    obtain ⟨p, fs⟩ := s
    obtain ⟨hsafe, hproof⟩ := acceptProof_safe (haccept p fs hneeds)
    rcases Action.bind_error_iff.mp hrun with hstop | ⟨proof, u, hu, hnext⟩
    · exact hsafe t e hstop
    · cases proof with
      | none => simp at hnext
      | some proof =>
        obtain ⟨scheme, fs₁, rfl⟩ := hproof u proof hu
        refine publishProof_safe ?_ ?_ rfl (Or.inl ?_) t e hnext
        · exact hneeds (.engaged .tableDescription) (by decide)
        · exact hneeds (.engaged .constraintSystem) (by decide)
        · exact hneeds (.engaged .publicInputs) (by decide)
  · intro s t _ _ r hr
    simp [generateContract] at hr
  · intro s t hneeds hrun r _ hr
    obtain ⟨p, fs⟩ := s
    obtain ⟨_, hproof⟩ := acceptProof_safe (haccept p fs hneeds)
    obtain ⟨proof, u, hu, hnext⟩ := Action.bind_ok_iff.mp hrun
    cases proof with
    | none => simp at hnext
    | some proof =>
      obtain ⟨scheme, fs₁, rfl⟩ := hproof u proof hu
      have hp : t.prover = { p with lpcScheme := some scheme } := by
        refine publishProof_prover ?_ ?_ rfl hnext
        · exact hneeds (.engaged .tableDescription) (by decide)
        · exact hneeds (.engaged .constraintSystem) (by decide)
      unfold Holds at hr ⊢
      rw [hp]
      cases r with
      | engaged m => cases m <;> first | rfl | exact hr
      | part part => exact hr

theorem meets_verifyFromFile (path : Path) :
    StepMeets (Prover.verifyFromFile path : Step L Bool) verifyContract := by
  have hdefined : ∀ p fs, (∀ r ∈ verifyContract.needs, Holds (⟨p, fs⟩ : Session L) r) →
      ∃ common description cs, p.heldCommonData = some common ∧
        p.tableDescription = some description ∧ p.constraintSystem = some cs := by
    intro p fs hneeds
    obtain ⟨cs, hcs⟩ := exists_of_engaged (hneeds (.engaged .constraintSystem) (by decide))
    obtain ⟨common, hc⟩ := exists_of_engaged (hneeds (.engaged .commonData) (by decide))
    obtain ⟨description, hd⟩ := exists_of_engaged (hneeds (.engaged .tableDescription) (by decide))
    cases hdata : p.publicPreprocessedData with
    | none => exact ⟨common, description, cs, by simpa [Prover.heldCommonData, hdata] using hc, hd,
        hcs⟩
    | some data =>
      exact ⟨L.commonData data, description, cs, by simp [Prover.heldCommonData, hdata], hd, hcs⟩
  constructor
  · intro s t e hneeds hrun
    obtain ⟨p, fs⟩ := s
    obtain ⟨common, description, cs, hc, hd, hcs⟩ := hdefined p fs hneeds
    rw [Prover.verifyFromFile_run hc hd hcs] at hrun
    split at hrun
    · rename_i e' hfresh
      rw [← Except.error.inj (Prod.mk.inj hrun).1]
      exact not_memberFault_freshScheme hfresh
    · have hr := (Prod.mk.inj hrun).1
      split at hr
      · rw [← Except.error.inj hr]
        exact not_memberFault_thrown _
      · simp at hr
      · exact not_memberFault_mapError hr
  · intro s t _ _ r hr
    simp [verifyContract] at hr
  · intro s t hneeds hrun r _ hr
    obtain ⟨p, fs⟩ := s
    obtain ⟨common, description, cs, hc, hd, hcs⟩ := hdefined p fs hneeds
    rw [Prover.verifyFromFile_run hc hd hcs] at hrun
    split at hrun
    · simp at hrun
    · rw [← (Prod.mk.inj hrun).2]
      cases r with
      | engaged m => cases m <;> first | rfl | exact hr
      | part part => exact hr

theorem meets_generateAggregatedChallengeToFile (files : List Path) (path : Path) :
    StepMeets (Prover.generateAggregatedChallengeToFile d files path : Step L Bool)
      ⟨[], [], []⟩ := by
  constructor
  · intro s t e _ hrun
    obtain ⟨p, fs⟩ := s
    rw [Prover.generateAggregatedChallengeToFile_run] at hrun
    split at hrun
    · simp at hrun
    · split at hrun
      · rw [← Except.error.inj (Prod.mk.inj hrun).1]
        exact not_memberFault_thrown _
      · simp at hrun
      · split at hrun
        · simp at hrun
        · simp at hrun
  · intro s t _ _ r hr
    simp at hr
  · intro s t _ hrun r _ hr
    obtain ⟨p, fs⟩ := s
    rw [Prover.generateAggregatedChallengeToFile_run] at hrun
    split at hrun
    · simp at hrun
    · split at hrun
      · simp at hrun
      · simp at hrun
      · split at hrun
        · simp at hrun
        · rw [← (Prod.mk.inj hrun).2]
          exact hr

theorem meets_readCircuit (path : Path) :
    StepMeets (Prover.readCircuit path : Step L Bool)
      (readContract [.engaged .constraintSystem]) := by
  apply meets_readMember
  · intro a p fs r hr
    rw [List.mem_singleton.mp hr]
    rfl
  · intro a p fs r hr
    cases r with
    | engaged m => cases m <;> first | rfl | exact hr
    | part part => exact hr

theorem meets_readAssignmentTable (path : Path) :
    StepMeets (Prover.readAssignmentTable path : Step L Bool) readTableContract := by
  apply meets_readMember
  · intro a p fs r hr
    simp only [List.mem_cons, List.not_mem_nil, or_false] at hr
    rcases hr with rfl | rfl | rfl | rfl <;> rfl
  · intro a p fs r hr
    cases r with
    | engaged m => cases m <;> first | rfl | exact hr
    | part part => cases part <;> rfl

theorem meets_readAssignmentDescription (path : Path) :
    StepMeets (Prover.readAssignmentDescription path : Step L Bool)
      (readContract [.engaged .tableDescription]) := by
  apply meets_readMember
  · intro a p fs r hr
    rw [List.mem_singleton.mp hr]
    rfl
  · intro a p fs r hr
    cases r with
    | engaged m => cases m <;> first | rfl | exact hr
    | part part => exact hr

theorem meets_readPreprocessedCommonDataFromFile (path : Path) :
    StepMeets (Prover.readPreprocessedCommonDataFromFile path : Step L Bool)
      (readContract [.engaged .commonData]) := by
  apply meets_readMember
  · intro a p fs r hr
    rw [List.mem_singleton.mp hr]
    rfl
  · intro a p fs r hr
    cases r with
    | engaged m => cases m <;> first | rfl | exact hr
    | part part => exact hr

theorem meets_readPublicPreprocessedDataFromFile (path : Path) :
    StepMeets (Prover.readPublicPreprocessedDataFromFile path : Step L Bool)
      (readContract [.engaged .publicPreprocessedData]) := by
  apply meets_readMember
  · intro a p fs r hr
    rw [List.mem_singleton.mp hr]
    rfl
  · intro a p fs r hr
    cases r with
    | engaged m => cases m <;> first | rfl | exact hr
    | part part => exact hr

theorem meets_readCommitmentSchemeFromFile (path : Path) :
    StepMeets (Prover.readCommitmentSchemeFromFile path : Step L Bool)
      (readContract [.engaged .lpcScheme]) := by
  apply meets_readMember
  · intro a p fs r hr
    rw [List.mem_singleton.mp hr]
    rfl
  · intro a p fs r hr
    cases r with
    | engaged m => cases m <;> first | rfl | exact hr
    | part part => exact hr

theorem savingSteps_meet :
    List.Forall₂ StepMeets (savingSteps L d o) savingContracts := by
  refine .cons ?_ (.cons ?_ (.cons ?_ .nil))
  · exact meets_saveObject _ _ _ _ _ fun p => by simp [Prover.isEngaged]
  · exact meets_saveObject _ _ _ _ _ fun _ => rfl
  · exact meets_saveObject _ _ _ _ _ fun _ => rfl

theorem resumption_meets : List.Forall₂ StepMeets (resumption L o) resumptionContracts :=
  .cons (meets_readCircuit _) (.cons (meets_readAssignmentTable _)
    (.cons (meets_readPublicPreprocessedDataFromFile _)
      (.cons (meets_readCommitmentSchemeFromFile _) (.cons meets_preprocessPrivateData .nil))))

theorem stageSteps_meet (stage : ProverStage) :
    List.Forall₂ StepMeets (stageSteps L d o stage) (stageContracts stage) := by
  cases stage with
  | all =>
    exact .cons (meets_readCircuit _) (.cons (meets_readAssignmentTable _)
      (.cons meets_preprocessPublicData (.cons meets_preprocessPrivateData
        (.cons (meets_generateToFile _ _ _) savingSteps_meet))))
  | preprocess =>
    refine .cons (meets_readCircuit _) (.cons (meets_readAssignmentTable _) (.cons ?_
      (.cons meets_preprocessPublicData savingSteps_meet)))
    exact meets_saveObject _ _ _ _ _ fun _ => rfl
  | prove => exact List.rel_append resumption_meets (.cons (meets_generateToFile _ _ _) .nil)
  | verify =>
    exact .cons (meets_readCircuit _) (.cons (meets_readPreprocessedCommonDataFromFile _)
      (.cons (meets_readAssignmentDescription _) (.cons (meets_verifyFromFile _) .nil)))
  | generateAggregatedChallenge =>
    exact .cons (meets_generateAggregatedChallengeToFile _ _) .nil

theorem allOf_safe {stage : ProverStage} (h : stage ≠ .prove) {s t : Session L} {e : Stop}
    (hrun : (Action.allOf (stageSteps L d o stage)).run s = (.error e, t)) : ¬ MemberFault e :=
  safe_of_ready (stageSteps_meet stage) ((ready_stageContracts_iff stage).mpr h) (by simp) hrun

/-- In stage `prove` the missing member cannot show before there is a proof. -/
theorem acceptedProof_resumption_safe {s t : Session L} {e : Stop} {path : Path} {skip : Bool}
    (hrun : (acceptedProof (resumption L o) path skip).run s = (.error e, t)) :
    ¬ MemberFault e := by
  have hready : ready [] resumptionContracts = true := by decide
  rcases Action.bind_error_iff.mp hrun with hstop | ⟨b, u, hu, hnext⟩
  · exact safe_of_ready resumption_meets hready (by simp) hstop
  · cases b with
    | false => simp at hnext
    | true =>
      have hheld := has_of_ready resumption_meets hready (by simp) hu
      have hneeds : ∀ r ∈ proofNeeds, r ∈ heldAfter [] resumptionContracts := by decide
      exact (acceptProof_safe fun r hr => hheld r (hneeds r hr)).1 t e hnext

/-- The run read neither an empty optional nor a part that had been moved out. -/
def Outcome.MemberSafe : Outcome → Prop
  | .undefined f => ¬ MemberFault (.undefined f)
  | .exit _ => True

theorem memberSafe_ofResult {r : Except Stop Bool} (h : ∀ e, r = .error e → ¬ MemberFault e) :
    (Outcome.ofResult r).MemberSafe := by
  rcases r with e | b
  · cases e with
    | thrown e => trivial
    | undefined f => exact h _ rfl
  · trivial

/-- Stage `prove` gets a proof, and the JSON file can be opened. -/
structure ReachesPublicInputs (L : Crypto3) (o : ProverOptions) (fs : FileSystem) : Prop where
  stage : o.stage = "prove"
  circuit : ∃ cs, L.circuitIn fs o.circuitFilePath = .ok (some cs)
  table : ∃ table, L.tableIn fs o.assignmentTableFilePath = .ok (some table)
  data : ∃ data, L.preprocessedIn fs o.preprocessedPublicDataPath = .ok (some data)
  scheme : ∃ scheme, L.schemeIn fs o.commitmentSchemeStatePath = .ok (some scheme)
  probe : ((canWriteToFile o.proofFilePath).run fs).1 = .ok true
  json : (fs.openForWriting o.jsonFilePath).isSome

theorem ReachesPublicInputs.undefined (hL : L.ReturnsNormally) (h : ReachesPublicInputs L o fs) :
    (runProver L d o fs).1 = .undefined (.emptyOptional .publicInputs) := by
  obtain ⟨cs, hcs⟩ := h.circuit
  obtain ⟨⟨description, table⟩, htable⟩ := h.table
  obtain ⟨data, hdata⟩ := h.data
  obtain ⟨scheme, hscheme⟩ := h.scheme
  obtain ⟨priv, hpriv⟩ :=
    hL.placeholderPrivatePreprocessor cs (L.movePrivateTable table).1 description
  obtain ⟨⟨proof, used⟩, hproved⟩ := hL.placeholderProver data priv description cs scheme
  obtain ⟨m, hfill⟩ := hL.fillPlaceholderProof proof (L.getFriParams used)
  obtain ⟨fs₁, hprobe⟩ := exists_probed h.probe
  have hsteady := canWriteToFile_steady o.proofFilePath fs
  rw [hprobe] at hsteady
  have hstage := stage_mem .prove h.stage
  have hbytes : L.proofBytes proof (L.getFriParams used) =
      .ok (L.placeholderProof.encoding m) := by
    simp only [Crypto3.proofBytes, bytesOf, hfill, Except.map]
  obtain ⟨l, hl⟩ := Option.isSome_iff_exists.mp h.json
  have hopen : (Prover.writtenProof d fs₁ o.proofFilePath
      (L.placeholderProof.encoding m)).2.openForWriting o.jsonFilePath = some l := by
    rw [(Prover.writtenProof_steady d fs₁ _ _).openForWriting_eq, hsteady.openForWriting_eq, hl]
  rw [runProver_of_stage hstage, allOf_prove_run ⟨cs, description, table, data, scheme, priv,
    proof, used, hcs, htable, hdata, hscheme, hpriv, hproved⟩ hprobe]
  simp only [hbytes, hopen, Outcome.ofResult]

theorem runProver_memberSafe_iff (hL : L.ReturnsNormally) (d : Disk) (o : ProverOptions)
    (fs : FileSystem) :
    (runProver L d o fs).1.MemberSafe ↔ ¬ ReachesPublicInputs L o fs := by
  constructor
  · intro hsafe hreach
    rw [hreach.undefined hL] at hsafe
    exact hsafe trivial
  · intro hnot
    by_cases hstage : ∃ stage, (o.stage, stage) ∈ stageMap
    swap
    · rw [runProver_of_no_stage fun stage h => hstage ⟨stage, h⟩]
      trivial
    obtain ⟨stage, hstage⟩ := hstage
    rw [runProver_of_stage hstage]
    apply memberSafe_ofResult
    intro e he
    rcases hrun : (Action.allOf (stageSteps L d o stage)).run (initialSession L o fs) with ⟨r, t⟩
    rw [hrun] at he
    obtain rfl : r = .error e := he
    by_cases hprove : stage = .prove
    swap
    · exact allOf_safe hprove hrun
    subst hprove
    have hname : o.stage = "prove" := by
      simpa [stageMap] using hstage
    rw [stageSteps_prove, allOf_generateToFile_run] at hrun
    rcases ha : (acceptedProof (resumption L o) o.proofFilePath true).run
      (initialSession L o fs) with ⟨r, u⟩
    rw [ha] at hrun
    rcases r with e' | proof
    · rw [← Except.error.inj (Prod.mk.inj hrun).1]
      exact acceptedProof_resumption_safe ha
    cases proof with
    | none => simp at hrun
    | some proof =>
      obtain ⟨c, fs₁, _, hprobe, rfl⟩ := acceptedProof_resumption_iff.mp ha
      rcases Action.bind_error_iff.mp hrun with hpublish | ⟨b, u, _, hrest⟩
      · refine publishProof_safe rfl rfl rfl (Or.inr ?_) _ _ hpublish
        -- were the file open, the run would have all that leads to the missing member
        by_contra hopen
        have hsteady := canWriteToFile_steady o.proofFilePath fs
        rw [hprobe] at hsteady
        rw [hsteady.openForWriting_eq] at hopen
        exact hnot ⟨hname, ⟨_, c.circuit_read⟩, ⟨_, c.table_read⟩, ⟨_, c.data_read⟩,
          ⟨_, c.scheme_read⟩, by rw [hprobe], Option.isSome_iff_ne_none.mpr hopen⟩
      · cases b with
        | true => simp [Action.allOf_nil] at hrest
        | false => simp at hrest

theorem runProver_memberSafe_iff_small :
    (runProver .small .reliable (smallOptions "all") smallFiles).1.MemberSafe ↔
      ¬ ReachesPublicInputs .small (smallOptions "all") smallFiles :=
  runProver_memberSafe_iff Crypto3.small_returnsNormally .reliable (smallOptions "all") smallFiles

/-- Stages `preprocess` and `prove` in one directory, as they are meant to be used. -/
theorem prove_reads_empty_publicInputs :
    ¬ ∀ L : Crypto3, L.ReturnsNormally → ∀ (d : Disk) (o : ProverOptions) (fs : FileSystem),
      (runProver L d o fs).1.MemberSafe := by
  intro h
  have hsafe := h .small Crypto3.small_returnsNormally .reliable (smallOptions "prove")
    (filesAfter "preprocess" smallFiles)
  have hrun : (runProver .small .reliable (smallOptions "prove")
      (filesAfter "preprocess" smallFiles)).1 = .undefined (.emptyOptional .publicInputs) := by
    decide +kernel
  rw [hrun] at hsafe
  exact hsafe trivial

end ProofProducer
