import ProofProducer.ProverSpec

/-!
# What a failed operation leaves in the object

Every method that reads or writes a file decodes before it emplaces, so a failure leaves the
members alone. The exception is `verify_from_file`, which rebuilds the commitment scheme before
it looks at the proof file.
-/

namespace ProofProducer

open Effects Files Codecs

set_option autoImplicit false

inductive Operation where
  | readCircuit (path : Path)
  | readAssignmentTable (path : Path)
  | readAssignmentDescription (path : Path)
  | readPreprocessedCommonDataFromFile (path : Path)
  | readPublicPreprocessedDataFromFile (path : Path)
  | readCommitmentSchemeFromFile (path : Path)
  | savePreprocessedCommonDataToFile (path : Path)
  | savePublicPreprocessedDataToFile (path : Path)
  | saveCommitmentStateToFile (path : Path)
  | saveAssignmentDescription (path : Path)
  | verifyFromFile (proofFile : Path)
  | generateToFile (proofFile jsonFile : Path) (skipVerification : Bool)
  | generateAggregatedChallengeToFile (inputFiles : List Path) (challengeFile : Path)
  deriving DecidableEq, Repr

namespace Operation

def run (L : Crypto3) (d : Disk) : Operation → Step L Bool
  | .readCircuit path => Prover.readCircuit path
  | .readAssignmentTable path => Prover.readAssignmentTable path
  | .readAssignmentDescription path => Prover.readAssignmentDescription path
  | .readPreprocessedCommonDataFromFile path => Prover.readPreprocessedCommonDataFromFile path
  | .readPublicPreprocessedDataFromFile path => Prover.readPublicPreprocessedDataFromFile path
  | .readCommitmentSchemeFromFile path => Prover.readCommitmentSchemeFromFile path
  | .savePreprocessedCommonDataToFile path => Prover.savePreprocessedCommonDataToFile d path
  | .savePublicPreprocessedDataToFile path => Prover.savePublicPreprocessedDataToFile d path
  | .saveCommitmentStateToFile path => Prover.saveCommitmentStateToFile d path
  | .saveAssignmentDescription path => Prover.saveAssignmentDescription d path
  | .verifyFromFile proofFile => Prover.verifyFromFile proofFile
  | .generateToFile proofFile jsonFile skip => Prover.generateToFile d proofFile jsonFile skip
  | .generateAggregatedChallengeToFile inputs challengeFile =>
    Prover.generateAggregatedChallengeToFile d inputs challengeFile

/-- A false of `verify_from_file` is about the file when the file holds no proof, and the
verdict of the verifier otherwise. -/
def FailsOnFile (L : Crypto3) (fs : FileSystem) : Operation → Prop
  | .verifyFromFile proofFile => L.proofIn fs proofFile = .ok none
  | _ => True

end Operation

variable {L : Crypto3} {d : Disk} {p : Prover L} {fs : FileSystem} {s t : Session L}
  {M α β : Type}

/-- However the step ends, the object is what it was. -/
abbrev KeepsProver (m : Step L α) : Prop := ∀ p, Action.Keeps (fun s => s.prover = p) m

theorem KeepsProver.prover_eq {m : Step L α} (h : KeepsProver m) {r : Except Stop α}
    (hrun : m.run s = (r, t)) : t.prover = s.prover := by
  have hkeep := h s.prover s rfl
  rw [hrun] at hkeep
  exact hkeep

theorem keepsProver_bind {m : Step L α} {f : α → Step L β} (hm : KeepsProver m)
    (hf : ∀ a, KeepsProver (f a)) : KeepsProver (m >>= f) :=
  fun p => Action.keeps_bind (hm p) fun a => hf a p

theorem keepsProver_pure (a : α) : KeepsProver (pure a : Step L α) :=
  fun _ => Action.keeps_pure _ a

theorem keepsProver_observe (f : Session L → Except Stop α) :
    KeepsProver (Action.observe f : Step L α) := fun _ => Action.keeps_observe _ _

theorem keepsProver_onFiles (m : Action FileSystem Exception α) :
    KeepsProver (Prover.onFiles m : Step L α) := by
  intro p s hs
  obtain ⟨q, fs⟩ := s
  rw [Prover.run_onFiles]
  exact hs

theorem keepsProver_saveObject (codec : Codec Exception M) (m : Member) (get : Prover L → Option α)
    (fill : α → Except Exception M) (path : Path) :
    KeepsProver (Prover.saveObject d codec (Prover.deref m get) fill path) := by
  apply keepsProver_bind (keepsProver_observe _)
  intro a
  apply keepsProver_bind (keepsProver_observe _)
  intro marshalled
  exact keepsProver_onFiles _

theorem keepsProver_verify (proof : L.Proof) : KeepsProver (Prover.verify proof) := by
  have hrest : ∀ common : L.CommonData, KeepsProver (do
      let description ← Prover.deref .tableDescription Prover.tableDescription
      let cs ← Prover.deref .constraintSystem Prover.constraintSystem
      let scheme ← Prover.deref .lpcScheme Prover.lpcScheme
      (Prover.external (L.placeholderVerifier common proof description cs scheme) :
        Step L Bool)) := by
    intro common
    apply keepsProver_bind (keepsProver_observe _)
    intro description
    apply keepsProver_bind (keepsProver_observe _)
    intro cs
    apply keepsProver_bind (keepsProver_observe _)
    intro scheme
    exact keepsProver_observe _
  unfold Prover.verify
  apply keepsProver_bind (keepsProver_observe _)
  intro p
  cases p.publicPreprocessedData with
  | none => exact keepsProver_bind (keepsProver_observe _) hrest
  | some data => exact keepsProver_bind (keepsProver_pure _) hrest

theorem keepsProver_publishProof (proofFile jsonFile : Path) (proof : L.Proof) :
    KeepsProver (Prover.publishProof d proofFile jsonFile proof) := by
  unfold Prover.publishProof
  apply keepsProver_bind (keepsProver_observe _)
  intro scheme
  apply keepsProver_bind (keepsProver_observe _)
  intro filled
  apply keepsProver_bind (keepsProver_onFiles _)
  intro res
  apply keepsProver_bind (keepsProver_onFiles _)
  intro l
  cases l with
  | none => exact keepsProver_pure res
  | some l =>
    apply keepsProver_bind (keepsProver_observe _)
    intro description
    apply keepsProver_bind (keepsProver_observe _)
    intro inputs
    apply keepsProver_bind (keepsProver_observe _)
    intro cs
    apply keepsProver_bind (keepsProver_observe _)
    intro text
    apply keepsProver_bind (keepsProver_onFiles _)
    intro _
    exact keepsProver_pure res

theorem keepsProver_generateAggregatedChallengeToFile (inputs : List Path) (path : Path) :
    KeepsProver (Prover.generateAggregatedChallengeToFile d inputs path : Step L Bool) := by
  unfold Prover.generateAggregatedChallengeToFile
  intro p
  apply Action.keeps_ite (keepsProver_pure false p)
  refine keepsProver_bind (keepsProver_observe _) (fun readable => ?_) p
  intro p
  apply Action.keeps_ite (keepsProver_pure false p)
  refine keepsProver_bind (keepsProver_observe _) (fun transcript => ?_) p
  cases transcript with
  | none => exact keepsProver_pure false
  | some transcript => exact keepsProver_onFiles _

theorem deref_ok_iff {m : Member} {get : Prover L → Option α} {a : α} :
    (Prover.deref m get).run s = (.ok a, t) ↔ get s.prover = some a ∧ s = t := by
  rw [Prover.run_deref]
  cases get s.prover with
  | none => simp
  | some b => simp

theorem external_ok_iff {r : Except Exception α} {a : α} :
    (Prover.external r : Step L α).run s = (.ok a, t) ↔ r = .ok a ∧ s = t := by
  rw [Prover.run_external]
  cases r with
  | error e => simp [Except.mapError]
  | ok b => simp [Except.mapError]

theorem readMember_failed {codec : Codec Exception M} {make : M → Except Exception α}
    {emplace : α → Prover L → Prover L} {path : Path}
    (h : (Prover.readMember codec make emplace path).run s = (.ok false, t)) :
    t.prover = s.prover := by
  obtain ⟨p, fs⟩ := s
  rw [Prover.readMember_run] at h
  split at h
  · simp at h
  · rw [← (Prod.mk.inj h).2]
  · simp at h

/-- The prover stores the scheme it got back, which is the one it was given. -/
theorem acceptProof_keeps (hkeeps : L.ProverKeepsScheme) {proofFile : Path} {skip : Bool}
    {r : Option L.Proof} (h : (Prover.acceptProof proofFile skip).run s = (.ok r, t)) :
    t.prover = s.prover := by
  unfold Prover.acceptProof at h
  obtain ⟨probed, s₀, hprobe, h⟩ := Action.bind_ok_iff.mp h
  have hprover := (keepsProver_onFiles _).prover_eq hprobe
  rw [← hprover]
  cases probed with
  | false => exact (keepsProver_pure (L := L) (none : Option L.Proof)).prover_eq h
  | true =>
    simp only [Bool.not_true, Bool.false_eq_true, if_false] at h
    obtain ⟨publicData, s₁, hpublic, h⟩ := Action.bind_ok_iff.mp h
    obtain ⟨privateData, s₂, hprivate, h⟩ := Action.bind_ok_iff.mp h
    obtain ⟨description, s₃, hdescription, h⟩ := Action.bind_ok_iff.mp h
    obtain ⟨cs, s₄, hcs, h⟩ := Action.bind_ok_iff.mp h
    obtain ⟨scheme, s₅, hscheme, h⟩ := Action.bind_ok_iff.mp h
    obtain ⟨⟨proof, scheme'⟩, s₆, hprove, h⟩ := Action.bind_ok_iff.mp h
    obtain ⟨_, rfl⟩ := deref_ok_iff.mp hpublic
    obtain ⟨_, rfl⟩ := deref_ok_iff.mp hprivate
    obtain ⟨_, rfl⟩ := deref_ok_iff.mp hdescription
    obtain ⟨_, rfl⟩ := deref_ok_iff.mp hcs
    obtain ⟨hheld, rfl⟩ := deref_ok_iff.mp hscheme
    obtain ⟨hproved, rfl⟩ := external_ok_iff.mp hprove
    have hsame : { s₀.prover with lpcScheme := some scheme' } = s₀.prover := by
      have hscheme' : scheme' = scheme := hkeeps hproved
      rw [hscheme', ← hheld]
    have hupdate := Prover.run_update (fun p => { p with lpcScheme := some scheme' }) s₀
    rw [hsame] at hupdate
    rw [Action.run_bind_ok hupdate] at h
    cases skip with
    | true => exact (keepsProver_pure (some proof)).prover_eq h
    | false =>
      refine KeepsProver.prover_eq (keepsProver_bind (keepsProver_verify proof) ?_) h
      intro accepted
      cases accepted with
      | true => exact keepsProver_pure (some proof)
      | false => exact keepsProver_pure none

theorem generateToFile_keeps (hkeeps : L.ProverKeepsScheme) {proofFile jsonFile : Path}
    {skip : Bool} {r : Bool}
    (h : (Prover.generateToFile d proofFile jsonFile skip).run s = (.ok r, t)) :
    t.prover = s.prover := by
  unfold Prover.generateToFile at h
  obtain ⟨proof, s₁, haccept, h⟩ := Action.bind_ok_iff.mp h
  rw [← acceptProof_keeps hkeeps haccept]
  cases proof with
  | none => exact (keepsProver_pure false).prover_eq h
  | some proof => exact (keepsProver_publishProof _ _ proof).prover_eq h

/-- A proof file without a proof in it ends `verify_from_file` after the scheme was replaced. -/
theorem verifyFromFile_without_proof {proofFile : Path}
    (hnone : L.proofIn fs proofFile = .ok none) {description : L.TableDescription}
    (hdescription : p.tableDescription = some description) :
    (Prover.verifyFromFile proofFile).run ⟨p, fs⟩ =
      match freshScheme L p.lambda p.expandFactor description with
      | .error e =>
        (.error e, ⟨{ p with
          lpcScheme := schemeLeft L p.lambda p.expandFactor description p.lpcScheme }, fs⟩)
      | .ok scheme => (.ok false, ⟨{ p with lpcScheme := some scheme }, fs⟩) := by
  unfold Prover.verifyFromFile
  rw [Action.run_bind, Prover.createLpcScheme_run hdescription]
  cases freshScheme L p.lambda p.expandFactor description with
  | error e => rfl
  | ok scheme =>
    dsimp only
    rw [Action.run_bind, Prover.run_reads]
    unfold Crypto3.proofIn objectIn at hnone
    rcases hd : decodeMarshallingFromFile L.placeholderProof fs proofFile true with e | m
    · simp [hd] at hnone
    cases m with
    | none => rfl
    | some m =>
      rw [hd] at hnone
      cases hm : L.makePlaceholderProof m <;> simp [hm, Except.map] at hnone

theorem verifyFromFile_without_description {proofFile : Path} (h : p.tableDescription = none) :
    ((Prover.verifyFromFile proofFile).run ⟨p, fs⟩).1 =
      .error (.undefined (.emptyOptional .tableDescription)) := by
  unfold Prover.verifyFromFile Prover.createLpcScheme
  rw [Action.run_bind, Action.run_bind, Prover.run_deref, h]

/-- The scheme that `create_lpc_scheme` would make is the one the object holds already. -/
def SchemeUpToDate (p : Prover L) : Prop :=
  ∀ description scheme, p.tableDescription = some description →
    freshScheme L p.lambda p.expandFactor description = .ok scheme → p.lpcScheme = some scheme

theorem verifyFromFile_failed_keeps_iff {proofFile : Path}
    (hnone : L.proofIn fs proofFile = .ok none) :
    (∀ t, (Prover.verifyFromFile proofFile).run ⟨p, fs⟩ = (.ok false, t) → t.prover = p) ↔
      SchemeUpToDate p := by
  unfold SchemeUpToDate
  cases hdescription : p.tableDescription with
  | none =>
    have hstop : ((Prover.verifyFromFile proofFile).run ⟨p, fs⟩).1 =
        .error (.undefined (.emptyOptional .tableDescription)) :=
      verifyFromFile_without_description hdescription
    constructor
    · intro _ description scheme h
      simp at h
    · intro _ t hrun
      simp [hrun] at hstop
  | some description =>
    have hrun := verifyFromFile_without_proof hnone hdescription
    rw [hrun]
    cases hfresh : freshScheme L p.lambda p.expandFactor description with
    | error e =>
      constructor
      · intro _ description' scheme h hok
        rw [← Option.some.inj h, hfresh] at hok
        simp at hok
      · intro _ t h
        simp at h
    | ok scheme =>
      constructor
      · intro h description' scheme' hd hok
        rw [← Option.some.inj hd, hfresh] at hok
        have hsame := h _ rfl
        rw [← Except.ok.inj hok, ← hsame]
      · intro h t ht
        have hheld := h description scheme rfl hfresh
        rw [← (Prod.mk.inj ht).2, ← hheld]

/-- Every other operation keeps the object, whatever makes it return false. -/
theorem failed_keeps_of_not_verify (hkeeps : L.ProverKeepsScheme) {op : Operation}
    (hop : ∀ proofFile, op ≠ .verifyFromFile proofFile)
    (h : (op.run L d).run s = (.ok false, t)) : t.prover = s.prover := by
  cases op with
  | readCircuit path => exact readMember_failed h
  | readAssignmentTable path => exact readMember_failed h
  | readAssignmentDescription path => exact readMember_failed h
  | readPreprocessedCommonDataFromFile path => exact readMember_failed h
  | readPublicPreprocessedDataFromFile path => exact readMember_failed h
  | readCommitmentSchemeFromFile path => exact readMember_failed h
  | savePreprocessedCommonDataToFile path =>
    exact (keepsProver_saveObject _ _ _ _ path).prover_eq h
  | savePublicPreprocessedDataToFile path =>
    exact (keepsProver_saveObject _ _ _ _ path).prover_eq h
  | saveCommitmentStateToFile path => exact (keepsProver_saveObject _ _ _ _ path).prover_eq h
  | saveAssignmentDescription path => exact (keepsProver_saveObject _ _ _ _ path).prover_eq h
  | verifyFromFile proofFile => exact (hop proofFile rfl).elim
  | generateToFile proofFile jsonFile skip => exact generateToFile_keeps hkeeps h
  | generateAggregatedChallengeToFile inputs path =>
    exact (keepsProver_generateAggregatedChallengeToFile inputs path).prover_eq h

/-- A failure on a file keeps all members unless it is `verify_from_file` that fails and the
scheme it had rebuilt by then differs from the one it found. -/
theorem failed_operation_keeps_prover_iff (hkeeps : L.ProverKeepsScheme) (d : Disk)
    (op : Operation) (p : Prover L) (fs : FileSystem) :
    (∀ t, (op.run L d).run ⟨p, fs⟩ = (.ok false, t) → op.FailsOnFile L fs → t.prover = p) ↔
      ∀ proofFile, op = .verifyFromFile proofFile → L.proofIn fs proofFile = .ok none →
        SchemeUpToDate p := by
  by_cases hop : ∃ proofFile, op = .verifyFromFile proofFile
  · obtain ⟨proofFile, rfl⟩ := hop
    constructor
    · intro h proofFile' he hnone
      have hsame : proofFile = proofFile' := by simpa using he
      rw [← hsame] at hnone
      apply (verifyFromFile_failed_keeps_iff hnone).mp
      intro t hrun
      exact h t hrun hnone
    · intro h t hrun hnone
      exact (verifyFromFile_failed_keeps_iff hnone).mpr (h proofFile rfl hnone) t hrun
  · constructor
    · intro _ proofFile he
      exact (hop ⟨proofFile, he⟩).elim
    · intro _ t hrun _
      apply failed_keeps_of_not_verify hkeeps _ hrun
      intro proofFile he
      exact hop ⟨proofFile, he⟩

/-- An object with all of its members, whose scheme is not the one made for its table. -/
def engagedProver : Prover Crypto3.small where
  expandFactor := 2
  maxQuotientChunks := 0
  lambda := 9
  grind := 69
  publicPreprocessedData := some (1 : UInt8)
  commonData := some (1 : UInt8)
  privatePreprocessedData := some (2 : UInt8)
  publicInputs := some (3 : UInt8)
  tableDescription := some (4 : UInt8)
  constraintSystem := some (5 : UInt8)
  assignmentTable := some ⟨((4, 6) : UInt8 × UInt8), false, false⟩
  lpcScheme := some (7 : UInt8)

theorem failed_operation_keeps_prover_iff_engaged :
    (∀ t, (Operation.run .small .reliable (.verifyFromFile ['p'])).run ⟨engagedProver, .empty⟩ =
        (.ok false, t) →
      Operation.FailsOnFile .small .empty (.verifyFromFile ['p']) → t.prover = engagedProver) ↔
      ∀ proofFile, Operation.verifyFromFile ['p'] = .verifyFromFile proofFile →
        Crypto3.small.proofIn .empty proofFile = .ok none → SchemeUpToDate engagedProver :=
  failed_operation_keeps_prover_iff Crypto3.small_proverKeepsScheme _ _ _ _

/-- A proof file that does not exist costs the object its scheme. -/
theorem missing_proof_replaces_scheme :
    ¬ ∀ (op : Operation) (t : Session .small),
      (op.run .small .reliable).run ⟨engagedProver, .empty⟩ = (.ok false, t) →
      op.FailsOnFile .small .empty → t.prover = engagedProver := by
  intro h
  have hmissing : Crypto3.small.proofIn .empty ['p'] = .ok none := rfl
  have hkept : SchemeUpToDate engagedProver := by
    apply (verifyFromFile_failed_keeps_iff hmissing).mp
    intro t hrun
    exact h (.verifyFromFile ['p']) t hrun hmissing
  have hfresh : freshScheme Crypto3.small 9 2 (4 : UInt8) = .ok (14 : UInt8) := rfl
  have hheld : some (7 : UInt8) = some (14 : UInt8) := hkept (4 : UInt8) (14 : UInt8) rfl hfresh
  exact absurd hheld (by decide)

end ProofProducer
