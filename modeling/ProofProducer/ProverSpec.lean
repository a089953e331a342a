import ProofProducer.Artifacts
import ProofProducer.Prover

/-!
# What the methods of `Prover` do

One equation for each method, under the assumption that the members it reads are engaged. The
result is a case distinction over what the files hold and what the library answers.
-/

namespace ProofProducer

open Effects Files Files.FileSystem Codecs

set_option autoImplicit false

theorem encodeMarshallingToFile_run {M : Type} (d : Disk) (codec : Codec Exception M) (path : Path)
    (m : M) (hex : Bool) (fs : FileSystem) :
    (encodeMarshallingToFile d codec path m hex).run fs =
      match codec.encoding m with
      | none => (.ok false, fs)
      | some v =>
        (.ok (written d fs path (if hex then hexText v else v)).1,
          (written d fs path (if hex then hexText v else v)).2) := by
  unfold encodeMarshallingToFile
  cases codec.encoding m with
  | none => rfl
  | some v =>
    cases hex with
    | true => exact writeVectorToHexFile_run_eq d v path fs
    | false => exact writeVectorToFile_run_eq d v path fs

/-- The scheme that `create_lpc_scheme` makes for a table of this description. -/
def freshScheme (L : Crypto3) (lambda expandFactor : SizeT) (description : L.TableDescription) :
    Except Stop L.LpcScheme :=
  match Prover.ceilLog2 (L.rowsAmount description) with
  | none => .error (.undefined .conversionOutOfRange)
  | some tableRowsLog =>
    match L.friParams 1 (UInt64.ofNat tableRowsLog) lambda expandFactor with
    | .error e => .error (.thrown e)
    | .ok params => (L.lpcScheme params).mapError Stop.thrown

/-- The scheme that `create_lpc_scheme` leaves where it makes none: the parameters are made before
the old scheme is destroyed. -/
def schemeLeft (L : Crypto3) (lambda expandFactor : SizeT) (description : L.TableDescription)
    (held : Option L.LpcScheme) : Option L.LpcScheme :=
  match Prover.ceilLog2 (L.rowsAmount description) with
  | none => held
  | some tableRowsLog =>
    match L.friParams 1 (UInt64.ofNat tableRowsLog) lambda expandFactor with
    | .error _ => held
    | .ok _ => none

/-- The common data `verify` takes: the preprocessed data have precedence. -/
def Prover.heldCommonData {L : Crypto3} (p : Prover L) : Option L.CommonData :=
  (p.publicPreprocessedData.map L.commonData).or p.commonData

namespace Prover

variable {L : Crypto3} {α M : Type} {p : Prover L} {fs : FileSystem}

theorem run_reads (f : FileSystem → Except Exception α) (s : Session L) :
    (reads f).run s = ((f s.files).mapError Stop.thrown, s) := rfl

theorem run_external (r : Except Exception α) (s : Session L) :
    (external r : Step L α).run s = (r.mapError Stop.thrown, s) := rfl

theorem run_self (s : Session L) : self.run s = (.ok s.prover, s) := rfl

theorem run_update (f : Prover L → Prover L) (s : Session L) :
    (update f).run s = (.ok (), ⟨f s.prover, s.files⟩) := rfl

theorem run_deref (m : Member) (get : Prover L → Option α) (s : Session L) :
    (deref m get).run s =
      (match get s.prover with
        | some a => .ok a
        | none => .error (.undefined (.emptyOptional m)), s) := rfl

theorem run_deref_some {m : Member} {get : Prover L → Option α} {a : α} (h : get p = some a) :
    (deref m get).run ⟨p, fs⟩ = (.ok a, ⟨p, fs⟩) := by
  rw [run_deref, h]

theorem run_ofPart_present (part : TablePart) (a : α) (s : Session L) :
    (ofPart part false a : Step L α).run s = (.ok a, s) := rfl

theorem run_onFiles (m : Action FileSystem Exception α) (p : Prover L) (fs : FileSystem) :
    (onFiles m).run ⟨p, fs⟩ = ((m.run fs).1.mapError Stop.thrown, ⟨p, (m.run fs).2⟩) := by
  unfold onFiles
  rw [Action.run_focus]
  rcases m.run fs with ⟨r, fs'⟩
  cases r <;> rfl

theorem readMember_run (codec : Codec Exception M) (make : M → Except Exception α)
    (emplace : α → Prover L → Prover L) (path : Path) (p : Prover L) (fs : FileSystem) :
    (readMember codec make emplace path).run ⟨p, fs⟩ =
      match objectIn codec make fs path false with
      | .error e => (.error (.thrown e), ⟨p, fs⟩)
      | .ok none => (.ok false, ⟨p, fs⟩)
      | .ok (some a) => (.ok true, ⟨emplace a p, fs⟩) := by
  unfold readMember objectIn
  rw [Action.run_bind, run_reads]
  rcases decodeMarshallingFromFile codec fs path false with e | m
  · rfl
  cases m with
  | none => rfl
  | some m =>
    simp only [Except.mapError]
    rw [Action.run_bind, run_external]
    cases make m <;> rfl

theorem saveObject_run {d : Disk} {codec : Codec Exception M} {object : Step L α}
    {fill : α → Except Exception M} {path : Path} {a : α}
    (h : object.run ⟨p, fs⟩ = (.ok a, ⟨p, fs⟩)) :
    (saveObject d codec object fill path).run ⟨p, fs⟩ =
      match bytesOf codec fill a with
      | .error e => (.error (.thrown e), ⟨p, fs⟩)
      | .ok none => (.ok false, ⟨p, fs⟩)
      | .ok (some v) => (.ok (written d fs path v).1, ⟨p, (written d fs path v).2⟩) := by
  unfold saveObject bytesOf
  rw [Action.run_bind_ok h, Action.run_bind, run_external]
  cases fill a with
  | error e => rfl
  | ok m =>
    simp only [Except.mapError, Except.map]
    rw [run_onFiles, encodeMarshallingToFile_run]
    cases codec.encoding m <;> rfl

theorem createLpcScheme_run {description : L.TableDescription}
    (hdescription : p.tableDescription = some description) :
    createLpcScheme.run ⟨p, fs⟩ =
      match freshScheme L p.lambda p.expandFactor description with
      | .error e =>
        (.error e, ⟨{ p with
          lpcScheme := schemeLeft L p.lambda p.expandFactor description p.lpcScheme }, fs⟩)
      | .ok scheme => (.ok (), ⟨{ p with lpcScheme := some scheme }, fs⟩) := by
  unfold createLpcScheme freshScheme schemeLeft
  rw [Action.run_bind_ok (run_deref_some hdescription)]
  cases ceilLog2 (L.rowsAmount description) with
  | none => rfl
  | some n =>
    dsimp only
    rw [Action.run_bind_ok (run_self _), Action.run_bind, run_external]
    cases L.friParams 1 (UInt64.ofNat n) p.lambda p.expandFactor with
    | error e => rfl
    | ok params =>
      simp only [Except.mapError]
      unfold emplaceLpcScheme
      rw [Action.run_bind_ok (run_update _ _), Action.run_bind, run_external]
      cases L.lpcScheme params <;> rfl

theorem movePublicTable_run {table : L.AssignmentTable} {moved : Bool}
    (htable : p.assignmentTable = some ⟨table, false, moved⟩) :
    movePublicTable.run ⟨p, fs⟩ =
      (.ok (L.movePublicTable table).1,
        ⟨{ p with assignmentTable := some ⟨(L.movePublicTable table).2, true, moved⟩ }, fs⟩) := by
  unfold movePublicTable derefTable
  rw [Action.run_bind_ok (run_deref_some htable)]
  rfl

theorem movePrivateTable_run {table : L.AssignmentTable} {moved : Bool}
    (htable : p.assignmentTable = some ⟨table, moved, false⟩) :
    movePrivateTable.run ⟨p, fs⟩ =
      (.ok (L.movePrivateTable table).1,
        ⟨{ p with assignmentTable := some ⟨(L.movePrivateTable table).2, moved, true⟩ }, fs⟩) := by
  unfold movePrivateTable derefTable
  rw [Action.run_bind_ok (run_deref_some htable)]
  rfl

theorem preprocessPublicData_run {cs : L.ConstraintSystem} {description : L.TableDescription}
    {table : L.AssignmentTable} {moved : Bool}
    (hcs : p.constraintSystem = some cs) (hdescription : p.tableDescription = some description)
    (htable : p.assignmentTable = some ⟨table, false, moved⟩) :
    preprocessPublicData.run ⟨p, fs⟩ =
      match freshScheme L p.lambda p.expandFactor description with
      | .error e =>
        (.error e, ⟨{ p with
          publicInputs := some (L.publicInputs table)
          lpcScheme := schemeLeft L p.lambda p.expandFactor description p.lpcScheme }, fs⟩)
      | .ok scheme =>
        match L.placeholderPublicPreprocessor cs (L.movePublicTable table).1 description scheme
          p.maxQuotientChunks with
        | .error e =>
          (.error (.thrown e), ⟨{ p with
            publicInputs := some (L.publicInputs table)
            lpcScheme := some scheme
            assignmentTable := some ⟨(L.movePublicTable table).2, true, moved⟩ }, fs⟩)
        | .ok (data, scheme') =>
          (.ok true, ⟨{ p with
            publicInputs := some (L.publicInputs table)
            lpcScheme := some scheme'
            assignmentTable := some ⟨(L.movePublicTable table).2, true, moved⟩
            publicPreprocessedData := some data }, fs⟩) := by
  have hscheme : createLpcScheme.run ⟨{ p with publicInputs := some (L.publicInputs table) }, fs⟩ =
      match freshScheme L p.lambda p.expandFactor description with
      | .error e =>
        (.error e, ⟨{ p with
          publicInputs := some (L.publicInputs table)
          lpcScheme := schemeLeft L p.lambda p.expandFactor description p.lpcScheme }, fs⟩)
      | .ok scheme => (.ok (), ⟨{ p with
          publicInputs := some (L.publicInputs table), lpcScheme := some scheme }, fs⟩) := by
    apply createLpcScheme_run
    exact hdescription
  unfold preprocessPublicData derefTable
  rw [Action.run_bind_ok (run_deref_some htable)]
  dsimp only
  rw [Action.run_bind_ok (run_ofPart_present _ _ _), Action.run_bind_ok (run_update _ _),
    Action.run_bind, hscheme]
  cases freshScheme L p.lambda p.expandFactor description with
  | error e => rfl
  | ok scheme =>
    have hmove : movePublicTable.run ⟨{ p with
          publicInputs := some (L.publicInputs table), lpcScheme := some scheme }, fs⟩ =
        (.ok (L.movePublicTable table).1, ⟨{ p with
          publicInputs := some (L.publicInputs table)
          lpcScheme := some scheme
          assignmentTable := some ⟨(L.movePublicTable table).2, true, moved⟩ }, fs⟩) := by
      apply movePublicTable_run
      exact htable
    dsimp only
    rw [Action.run_bind_ok (by apply run_deref_some; exact hcs), Action.run_bind_ok hmove,
      Action.run_bind_ok (by apply run_deref_some; exact hdescription),
      Action.run_bind_ok (by apply run_deref_some; rfl), Action.run_bind_ok (run_self _),
      Action.run_bind, run_external]
    cases L.placeholderPublicPreprocessor cs (L.movePublicTable table).1 description scheme
      p.maxQuotientChunks <;> rfl

theorem preprocessPrivateData_run {cs : L.ConstraintSystem} {description : L.TableDescription}
    {table : L.AssignmentTable} {moved : Bool}
    (hcs : p.constraintSystem = some cs) (hdescription : p.tableDescription = some description)
    (htable : p.assignmentTable = some ⟨table, moved, false⟩) :
    preprocessPrivateData.run ⟨p, fs⟩ =
      match L.placeholderPrivatePreprocessor cs (L.movePrivateTable table).1 description with
      | .error e =>
        (.error (.thrown e),
          ⟨{ p with assignmentTable := some ⟨(L.movePrivateTable table).2, moved, true⟩ }, fs⟩)
      | .ok data =>
        (.ok true,
          ⟨{ p with privatePreprocessedData := some data, assignmentTable := none }, fs⟩) := by
  unfold preprocessPrivateData
  rw [Action.run_bind_ok (run_deref_some hcs), Action.run_bind_ok (movePrivateTable_run htable),
    Action.run_bind_ok (by apply run_deref_some; exact hdescription), Action.run_bind,
    run_external]
  cases L.placeholderPrivatePreprocessor cs (L.movePrivateTable table).1 description <;> rfl

/-- The common data are read like a member. -/
theorem verify_eq (proof : L.Proof) : verify proof = (do
    let common ← deref .commonData heldCommonData
    let description ← deref .tableDescription tableDescription
    let cs ← deref .constraintSystem constraintSystem
    let scheme ← deref .lpcScheme lpcScheme
    external (L.placeholderVerifier common proof description cs scheme)) := by
  funext s
  obtain ⟨p, fs⟩ := s
  unfold verify
  show (self >>= _).run _ = (deref .commonData heldCommonData >>= _).run _
  rw [Action.run_bind_ok (run_self _), Action.run_bind, run_deref, heldCommonData]
  dsimp only
  cases p.publicPreprocessedData with
  | some data => rfl
  | none =>
    rw [Action.run_bind, run_deref]
    cases p.commonData <;> rfl

theorem verify_run {common : L.CommonData} {description : L.TableDescription}
    {cs : L.ConstraintSystem} {scheme : L.LpcScheme} (hcommon : p.heldCommonData = some common)
    (hdescription : p.tableDescription = some description)
    (hcs : p.constraintSystem = some cs) (hscheme : p.lpcScheme = some scheme)
    (proof : L.Proof) :
    (verify proof).run ⟨p, fs⟩ =
      ((L.placeholderVerifier common proof description cs scheme).mapError Stop.thrown,
        ⟨p, fs⟩) := by
  rw [verify_eq, Action.run_bind_ok (run_deref_some hcommon),
    Action.run_bind_ok (run_deref_some hdescription), Action.run_bind_ok (run_deref_some hcs),
    Action.run_bind_ok (run_deref_some hscheme), run_external]

theorem verifyFromFile_run {common : L.CommonData} {description : L.TableDescription}
    {cs : L.ConstraintSystem} (hcommon : p.heldCommonData = some common)
    (hdescription : p.tableDescription = some description)
    (hcs : p.constraintSystem = some cs) (path : Path) :
    (verifyFromFile path).run ⟨p, fs⟩ =
      match freshScheme L p.lambda p.expandFactor description with
      | .error e =>
        (.error e, ⟨{ p with
          lpcScheme := schemeLeft L p.lambda p.expandFactor description p.lpcScheme }, fs⟩)
      | .ok scheme =>
        (match L.proofIn fs path with
          | .error e => .error (.thrown e)
          | .ok none => .ok false
          | .ok (some proof) =>
            (L.placeholderVerifier common proof description cs scheme).mapError Stop.thrown,
          ⟨{ p with lpcScheme := some scheme }, fs⟩) := by
  unfold verifyFromFile
  rw [Action.run_bind, createLpcScheme_run hdescription]
  cases freshScheme L p.lambda p.expandFactor description with
  | error e => rfl
  | ok scheme =>
    dsimp only
    rw [Action.run_bind, run_reads]
    unfold Crypto3.proofIn objectIn
    rcases decodeMarshallingFromFile L.placeholderProof fs path true with e | m
    · rfl
    cases m with
    | none => rfl
    | some m =>
      simp only [Except.mapError]
      rw [Action.run_bind, run_external]
      cases L.makePlaceholderProof m with
      | error e => rfl
      | ok proof =>
        apply verify_run
        · exact hcommon
        · exact hdescription
        · exact hcs
        · rfl

/-- The proof, if it need not be verified or the verifier says yes. -/
def acceptedUnless (skip : Bool) (verdict : Except Exception Bool) (proof : L.Proof) :
    Except Stop (Option L.Proof) :=
  if skip then .ok (some proof) else
    match verdict with
    | .error e => .error (.thrown e)
    | .ok accepted => .ok (if accepted then some proof else none)

theorem acceptedUnless_some_iff {skip : Bool} {verdict : Except Exception Bool}
    {proof proof' : L.Proof} :
    acceptedUnless skip verdict proof = .ok (some proof') ↔
      proof = proof' ∧ (skip = false → verdict = .ok true) := by
  unfold acceptedUnless
  cases skip with
  | true => simp
  | false =>
    rcases verdict with e | accepted
    · simp
    · cases accepted <;> simp

theorem acceptProof_run {data : L.PublicPreprocessedData}
    {privateData : L.PrivatePreprocessedData} {description : L.TableDescription}
    {cs : L.ConstraintSystem} {scheme : L.LpcScheme}
    (hdata : p.publicPreprocessedData = some data)
    (hprivate : p.privatePreprocessedData = some privateData)
    (hdescription : p.tableDescription = some description)
    (hcs : p.constraintSystem = some cs) (hscheme : p.lpcScheme = some scheme)
    (path : Path) (skip : Bool) :
    (acceptProof path skip).run ⟨p, fs⟩ =
      match (canWriteToFile path).run fs with
      | (.error e, fs') => (.error (.thrown e), ⟨p, fs'⟩)
      | (.ok false, fs') => (.ok none, ⟨p, fs'⟩)
      | (.ok true, fs') =>
        match L.placeholderProver data privateData description cs scheme with
        | .error e => (.error (.thrown e), ⟨p, fs'⟩)
        | .ok (proof, scheme') =>
          (acceptedUnless skip
              (L.placeholderVerifier (L.commonData data) proof description cs scheme') proof,
            ⟨{ p with lpcScheme := some scheme' }, fs'⟩) := by
  unfold acceptProof
  rw [Action.run_bind, run_onFiles]
  rcases (canWriteToFile path).run fs with ⟨r, fs'⟩
  rcases r with e | b
  · rfl
  cases b with
  | false => rfl
  | true =>
    simp only [Except.mapError, Bool.not_true, Bool.false_eq_true, if_false]
    rw [Action.run_bind_ok (run_deref_some hdata), Action.run_bind_ok (run_deref_some hprivate),
      Action.run_bind_ok (run_deref_some hdescription), Action.run_bind_ok (run_deref_some hcs),
      Action.run_bind_ok (run_deref_some hscheme), Action.run_bind, run_external]
    rcases L.placeholderProver data privateData description cs scheme with e | ⟨proof, scheme'⟩
    · rfl
    simp only [Except.mapError]
    rw [Action.run_bind_ok (run_update _ _)]
    cases skip with
    | true => rfl
    | false =>
      have hheld : Prover.heldCommonData { p with lpcScheme := some scheme' } =
          some (L.commonData data) := by
        simp [heldCommonData, hdata]
      simp only [Bool.false_eq_true, if_false]
      rw [Action.run_bind, verify_run hheld hdescription hcs rfl proof]
      rcases L.placeholderVerifier (L.commonData data) proof description cs scheme' with e | b
      · rfl
      cases b <;> rfl

/-- What `encode_marshalling_to_file` makes of a proof that has been filled. -/
def writtenProof (d : Disk) (fs : FileSystem) (path : Path) : Option Bytes → Bool × FileSystem
  | none => (false, fs)
  | some v => written d fs path (hexText v)

theorem writtenProof_steady (d : Disk) (fs : FileSystem) (path : Path) (v : Option Bytes) :
    Steady fs (writtenProof d fs path v).2 := by
  cases v with
  | none => exact .refl fs
  | some v => exact written_steady d fs path (hexText v)

theorem publishProof_run {description : L.TableDescription} {cs : L.ConstraintSystem}
    {scheme : L.LpcScheme} (hdescription : p.tableDescription = some description)
    (hcs : p.constraintSystem = some cs) (hscheme : p.lpcScheme = some scheme)
    (d : Disk) (proofFile jsonFile : Path) (proof : L.Proof) :
    (publishProof d proofFile jsonFile proof).run ⟨p, fs⟩ =
      match L.proofBytes proof (L.getFriParams scheme) with
      | .error e => (.error (.thrown e), ⟨p, fs⟩)
      | .ok v =>
        match (writtenProof d fs proofFile v).2.openForWriting jsonFile with
        | none => (.ok (writtenProof d fs proofFile v).1, ⟨p, (writtenProof d fs proofFile v).2⟩)
        | some l =>
          match p.publicInputs with
          | none =>
            (.error (.undefined (.emptyOptional .publicInputs)),
              ⟨p, (writtenProof d fs proofFile v).2.store l []⟩)
          | some inputs =>
            match L.generateInput description inputs proof (L.publicInputSizes cs) with
            | .error e =>
              (.error (.thrown e), ⟨p, (writtenProof d fs proofFile v).2.store l []⟩)
            | .ok text =>
              (.ok (writtenProof d fs proofFile v).1,
                ⟨p, (written d (writtenProof d fs proofFile v).2 jsonFile text).2⟩) := by
  unfold publishProof Crypto3.proofBytes bytesOf
  rw [Action.run_bind_ok (run_deref_some hscheme), Action.run_bind, run_external]
  beta_reduce
  cases L.fillPlaceholderProof proof (L.getFriParams scheme) with
  | error e => rfl
  | ok m =>
    simp only [Except.mapError, Except.map]
    have hproof : (encodeMarshallingToFile d L.placeholderProof proofFile m true).run fs =
        (.ok (writtenProof d fs proofFile (L.placeholderProof.encoding m)).1,
          (writtenProof d fs proofFile (L.placeholderProof.encoding m)).2) := by
      rw [encodeMarshallingToFile_run]
      cases L.placeholderProof.encoding m <;> rfl
    rw [Action.run_bind, run_onFiles, hproof]
    rcases writtenProof d fs proofFile (L.placeholderProof.encoding m) with ⟨res, fs'⟩
    simp only [Except.mapError]
    rw [Action.run_bind, run_onFiles, openOutputFile_run]
    cases ho : fs'.openForWriting jsonFile with
    | none => rfl
    | some l =>
      simp only [Except.mapError]
      rw [Action.run_bind_ok (run_deref_some hdescription), Action.run_bind, run_deref]
      cases p.publicInputs with
      | none => rfl
      | some inputs =>
        dsimp only
        rw [Action.run_bind_ok (run_deref_some hcs), Action.run_bind, run_external]
        cases L.generateInput description inputs proof (L.publicInputSizes cs) with
        | error e => rfl
        | ok text =>
          simp only [Except.mapError]
          rw [Action.run_bind, run_onFiles, written_of_some ho,
            ← delivered_store d fs' jsonFile l text []]
          rfl

theorem generateAggregatedChallengeToFile_run (d : Disk) (files : List Path) (path : Path)
    (p : Prover L) (fs : FileSystem) :
    (generateAggregatedChallengeToFile d files path).run ⟨p, fs⟩ =
      if files = [] ∨ files.all (canReadFromFile fs) = false then (.ok false, ⟨p, fs⟩) else
        match absorbChallenges L fs files L.transcript with
        | .error e => (.error (.thrown e), ⟨p, fs⟩)
        | .ok none => (.ok false, ⟨p, fs⟩)
        | .ok (some transcript) =>
          match L.fieldElement.encoding (L.fieldElementOf (L.challenge transcript)) with
          | none => (.ok false, ⟨p, fs⟩)
          | some v => (.ok (written d fs path v).1, ⟨p, (written d fs path v).2⟩) := by
  unfold generateAggregatedChallengeToFile
  by_cases hempty : files = []
  · simp [hempty]
  rw [if_neg hempty, Action.run_bind, run_reads]
  cases hread : files.all (canReadFromFile fs) with
  | false => simp [Except.mapError]
  | true =>
    simp only [hempty, Except.mapError, Bool.not_true, Bool.false_eq_true, if_false]
    rw [Action.run_bind, run_reads]
    rcases absorbChallenges L fs files L.transcript with e | transcript
    · rfl
    cases transcript with
    | none => rfl
    | some transcript =>
      simp only [Except.mapError]
      rw [run_onFiles, encodeMarshallingToFile_run]
      cases L.fieldElement.encoding (L.fieldElementOf (L.challenge transcript)) <;> rfl

end Prover
end ProofProducer
