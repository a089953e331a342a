import ProofProducer.Shared.Relational
import ProofProducer.Publication

/-!
# The witness stays out of the preprocessed artifacts

Two runs on tables that differ in their private columns only go alike. Stage `preprocess` never
looks at the private columns; stage `all` does, but not for what it saves after the proof.
-/

namespace ProofProducer

open Effects Files Files.FileSystem Codecs Relational

set_option autoImplicit false

variable {L : Crypto3} {d : Disk} {o : ProverOptions} {a b fs fs₁ fs₂ : FileSystem}
  {table p : Path}

/-- `b` is `a` with another content in the file at the path. -/
def DifferOnlyIn (p : Path) (a b : FileSystem) : Prop :=
  ∃ l c c' w, a.fileLocation p = some l ∧ a.node l = some (.file c w) ∧
    b = { a with node := fun k => if k = l then some (.file c' w) else a.node k }

/-- What has become of two copies of `fs`: every path leads to the same in both, except to the
table file as long as none of the listed writes has replaced it. -/
structure AgreeBeyond (fs : FileSystem) (table : Path) (ws : List Path) (a b : FileSystem) :
    Prop where
  left : Steady fs a
  right : Steady fs b
  lookup : ∀ q, (¬ fs.SameFile q table ∨ ∃ p ∈ ws, fs.SameFile q p) → b.lookup q = a.lookup q

theorem DifferOnlyIn.agreeBeyond (h : DifferOnlyIn table a b) : AgreeBeyond a table [] a b := by
  obtain ⟨l, c, c', w, hl, hn, rfl⟩ := h
  have hfile : ∀ w, a.node l ≠ some (.directory w) := by
    intro w' hw
    simp [hn] at hw
  have hs : Steady a { a with node := fun k => if k = l then some (.file c' w) else a.node k } := by
    refine steady_of_update rfl (fun k hk => by simp [hk]) hfile (by simp) ?_
    simp [accepts, hn]
  refine ⟨.refl a, hs, fun q hq => ?_⟩
  rcases hq with hq | ⟨p, hp, _⟩
  · refine lookup_update_of_ne hs (fun k hk => by simp [hk]) hfile ?_
    exact fun hql => hq ⟨l, hql, hl⟩
  · simp at hp

namespace AgreeBeyond
variable {ws : List Path} {v : Bytes}

theorem steady (h : AgreeBeyond fs table ws a b) : Steady a b := h.left.symm.trans h.right

theorem forget (h : AgreeBeyond fs table ws a b) : AgreeBeyond fs table [] a b :=
  ⟨h.left, h.right, fun q hq => h.lookup q (hq.imp id (by simp))⟩

theorem lookup_of_mem (h : AgreeBeyond fs table ws a b) (hp : p ∈ ws) :
    b.lookup p = a.lookup p := by
  refine h.lookup p ?_
  by_cases hsame : fs.SameFile p table
  · obtain ⟨l, hl, _⟩ := hsame
    exact Or.inr ⟨p, hp, l, hl, hl⟩
  · exact Or.inl hsame

theorem write (h : AgreeBeyond fs table ws a b) (d : Disk) (p : Path) (v : Bytes) :
    AgreeBeyond fs table ws (written d a p v).2 (written d b p v).2 :=
  ⟨h.left.trans (written_steady d a p v), h.right.trans (written_steady d b p v),
    fun q hq => lookup_written_congr h.steady (Or.inr (h.lookup q hq))⟩

/-- A write that succeeds makes the file it names the same. -/
theorem write_true (h : AgreeBeyond fs table ws a b) (hyes : (written d a p v).1 = true) :
    AgreeBeyond fs table (p :: ws) (written d a p v).2 (written d b p v).2 := by
  refine ⟨(h.write d p v).left, (h.write d p v).right, fun q hq => ?_⟩
  obtain ⟨l, ho, _⟩ := openForWriting_of_written (Prod.ext hyes rfl : written d a p v = (true, _))
  by_cases hp : fs.SameFile q p
  · exact lookup_written_congr h.steady
      (Or.inl ⟨(h.left.sameFile_iff q p).mpr hp, by rw [ho]; rfl⟩)
  · refine lookup_written_congr h.steady (Or.inr (h.lookup q ?_))
    simpa [hp] using hq

end AgreeBeyond

/-- Two provers over two file systems. -/
def At (p₁ p₂ : Prover L) (fs₁ fs₂ : FileSystem) (s t : Session L) : Prop :=
  s = ⟨p₁, fs₁⟩ ∧ t = ⟨p₂, fs₂⟩

/-- Two provers over file systems that agree. -/
def Over (fs : FileSystem) (table : Path) (ws : List Path) (p₁ p₂ : Prover L)
    (s t : Session L) : Prop :=
  ∃ fs₁ fs₂, At p₁ p₂ fs₁ fs₂ s t ∧ AgreeBeyond fs table ws fs₁ fs₂

def FilesAgree (L : Crypto3) (fs : FileSystem) (table : Path) (s t : Session L) : Prop :=
  AgreeBeyond fs table [] s.files t.files

section Steps
variable {M α : Type} {p₁ p₂ : Prover L} {codec : Codec Exception M} {ws : List Path}

/-- A file that is the same in both file systems. -/
theorem couples_readMember {make : M → Except Exception α} {emplace : α → Prover L → Prover L}
    {path : Path} (hfiles : AgreeBeyond fs table [] fs₁ fs₂) (hpath : ¬ fs.SameFile path table) :
    Couples (FilesAgree L fs table) (At p₁ p₂ fs₁ fs₂)
      (fun s t => ∃ a, At (emplace a p₁) (emplace a p₂) fs₁ fs₂ s t)
      (Prover.readMember codec make emplace path) := by
  intro s t hst
  obtain ⟨rfl, rfl⟩ := hst
  have hsame : objectIn codec make fs₂ path false = objectIn codec make fs₁ path false :=
    objectIn_congr (hfiles.lookup path (Or.inl hpath))
  rw [Prover.readMember_run, Prover.readMember_run, hsame]
  rcases objectIn codec make fs₁ path false with e | read
  · exact ⟨_, _, _, rfl, rfl, hfiles, by simp⟩
  cases read with
  | none => exact ⟨_, _, _, rfl, rfl, hfiles, by simp⟩
  | some read => exact ⟨_, _, _, rfl, rfl, hfiles, fun _ => ⟨read, rfl, rfl⟩⟩

/-- A file that decodes in both, to objects of its own in each. -/
theorem couples_readMember_some {make : M → Except Exception α}
    {emplace : α → Prover L → Prover L} {path : Path} {a₁ a₂ : α}
    (hfiles : AgreeBeyond fs table [] fs₁ fs₂)
    (h₁ : objectIn codec make fs₁ path false = .ok (some a₁))
    (h₂ : objectIn codec make fs₂ path false = .ok (some a₂)) :
    Couples (FilesAgree L fs table) (At p₁ p₂ fs₁ fs₂) (At (emplace a₁ p₁) (emplace a₂ p₂) fs₁ fs₂)
      (Prover.readMember codec make emplace path) := by
  intro s t hst
  obtain ⟨rfl, rfl⟩ := hst
  rw [Prover.readMember_run, Prover.readMember_run, h₁, h₂]
  exact ⟨_, _, _, rfl, rfl, hfiles, fun _ => ⟨rfl, rfl⟩⟩

/-- Saving an object that both provers hold. -/
theorem couples_saveObject {object : Step L α} {fill : α → Except Exception M} {path : Path}
    {a : α} (h₁ : ∀ fs, object.run ⟨p₁, fs⟩ = (.ok a, ⟨p₁, fs⟩))
    (h₂ : ∀ fs, object.run ⟨p₂, fs⟩ = (.ok a, ⟨p₂, fs⟩)) :
    Couples (FilesAgree L fs table) (Over fs table ws p₁ p₂) (Over fs table (path :: ws) p₁ p₂)
      (Prover.saveObject d codec object fill path) := by
  intro s t hst
  obtain ⟨fs₁, fs₂, ⟨rfl, rfl⟩, hfiles⟩ := hst
  rw [Prover.saveObject_run (h₁ fs₁), Prover.saveObject_run (h₂ fs₂)]
  rcases bytesOf codec fill a with e | v
  · exact ⟨_, _, _, rfl, rfl, hfiles.forget, by simp⟩
  cases v with
  | none => exact ⟨_, _, _, rfl, rfl, hfiles.forget, by simp⟩
  | some v =>
    have hanswer := written_answer_congr (d := d) (p := path) (v := v) hfiles.steady
    dsimp only
    rw [hanswer]
    refine ⟨_, _, _, rfl, rfl, (hfiles.write d path v).forget, fun hr => ?_⟩
    exact ⟨_, _, ⟨rfl, rfl⟩, hfiles.write_true (Except.ok.inj hr)⟩

/-- The prover that has preprocessed the public part of its table. -/
def preprocessedProver (p : Prover L) (table : L.AssignmentTable) (data : L.PublicPreprocessedData)
    (scheme : L.LpcScheme) : Prover L :=
  { p with
    publicInputs := some (L.publicInputs table)
    lpcScheme := some scheme
    assignmentTable := some ⟨(L.movePublicTable table).2, true, false⟩
    publicPreprocessedData := some data }

/-- Only the public part of the table has a say in what the public preprocessor computes. -/
theorem couples_preprocessPublicData {cs : L.ConstraintSystem} {description : L.TableDescription}
    {table₁ table₂ : L.AssignmentTable}
    (hpublic : (L.movePublicTable table₂).1 = (L.movePublicTable table₁).1) :
    Couples (FilesAgree L fs table)
      (Over fs table ws (loadedProver L o cs description table₁)
        (loadedProver L o cs description table₂))
      (fun s t => ∃ r : L.PublicPreprocessedData × L.LpcScheme, Over fs table ws
        (preprocessedProver (loadedProver L o cs description table₁) table₁ r.1 r.2)
        (preprocessedProver (loadedProver L o cs description table₂) table₂ r.1 r.2) s t)
      Prover.preprocessPublicData := by
  intro s t hst
  obtain ⟨fs₁, fs₂, ⟨rfl, rfl⟩, hfiles⟩ := hst
  rw [Prover.preprocessPublicData_run rfl rfl rfl, Prover.preprocessPublicData_run rfl rfl rfl,
    hpublic]
  dsimp only [loadedProver, Prover.new]
  rcases freshScheme L o.lambda o.expandFactor description with e | fresh
  · exact ⟨_, _, _, rfl, rfl, hfiles.forget, by simp⟩
  dsimp only
  rcases L.placeholderPublicPreprocessor cs (L.movePublicTable table₁).1 description fresh
    o.maxQuotientChunks with e | r
  · exact ⟨_, _, _, rfl, rfl, hfiles.forget, by simp⟩
  · exact ⟨_, _, _, rfl, rfl, hfiles.forget, fun _ => ⟨r, _, _, ⟨rfl, rfl⟩, hfiles⟩⟩

end Steps

section Runs
variable {description : L.TableDescription} {table₁ table₂ : L.AssignmentTable}

/-- The saving steps after the table has been read never see its private part. -/
theorem couples_saving {cs : L.ConstraintSystem}
    (hpublic : (L.movePublicTable table₂).1 = (L.movePublicTable table₁).1) :
    Couples (FilesAgree L fs table)
      (Over fs table [] (loadedProver L o cs description table₁)
        (loadedProver L o cs description table₂))
      (fun s t => ∃ p₁ p₂, Over fs table (stageOutputs o .preprocess).reverse p₁ p₂ s t)
      (Action.allOf ((stageSteps L d o .preprocess).drop 2)) := by
  have hheld : ∀ {member : Member} {β : Type} {get : Prover L → Option β} {p : Prover L} {x : β},
      get p = some x → ∀ fs, (Prover.deref member get).run ⟨p, fs⟩ = (.ok x, ⟨p, fs⟩) :=
    fun h _ => Prover.run_deref_some h
  refine couples_allOf_cons (couples_saveObject (hheld rfl) (hheld rfl)) ?_
  refine couples_allOf_cons (couples_preprocessPublicData hpublic) (couples_exists fun r => ?_)
  refine couples_allOf_cons (couples_saveObject (hheld rfl) (hheld rfl)) ?_
  refine couples_allOf_cons (couples_saveObject (hheld rfl) (hheld rfl)) ?_
  refine couples_allOf_cons (couples_saveObject (hheld rfl) (hheld rfl)) ?_
  refine Couples.weaken (couples_allOf_nil ?_) (fun s t h => h) (fun s t h => ⟨_, _, h⟩)
  intro s t hst
  obtain ⟨_, _, ⟨rfl, rfl⟩, h⟩ := hst
  exact h.forget

theorem couples_preprocess (hfiles : AgreeBeyond fs₁ o.assignmentTableFilePath [] fs₁ fs₂)
    (hcircuit : ¬ fs₁.SameFile o.circuitFilePath o.assignmentTableFilePath)
    (htable₁ : L.tableIn fs₁ o.assignmentTableFilePath = .ok (some (description, table₁)))
    (htable₂ : L.tableIn fs₂ o.assignmentTableFilePath = .ok (some (description, table₂)))
    (hpublic : (L.movePublicTable table₂).1 = (L.movePublicTable table₁).1) :
    Couples (FilesAgree L fs₁ o.assignmentTableFilePath)
      (fun s t => s = initialSession L o fs₁ ∧ t = initialSession L o fs₂)
      (fun s t => ∃ p₁ p₂, Over fs₁ o.assignmentTableFilePath (stageOutputs o .preprocess).reverse
        p₁ p₂ s t)
      (Action.allOf (stageSteps L d o .preprocess)) := by
  refine couples_allOf_cons (couples_readMember hfiles hcircuit) (couples_exists fun cs => ?_)
  refine couples_allOf_cons (couples_readMember_some hfiles htable₁ htable₂) ?_
  exact (couples_saving hpublic).weaken (fun s t hst => ⟨fs₁, fs₂, hst, hfiles⟩) fun s t h => h

/-- Two accepted computations on tables with the same public part save the same. -/
theorem AllRun.writes_eq {fs₁' fs₂' : FileSystem} (r₁ : AllRun L d o fs₁ fs₁')
    (r₂ : AllRun L d o fs₂ fs₂') (hkeep : L.ProverKeepsScheme)
    (hcircuit : L.circuitIn fs₂ o.circuitFilePath = L.circuitIn fs₁ o.circuitFilePath)
    (htable₁ : L.tableIn fs₁ o.assignmentTableFilePath = .ok (some (description, table₁)))
    (htable₂ : L.tableIn fs₂ o.assignmentTableFilePath = .ok (some (description, table₂)))
    (hpublic : (L.movePublicTable table₂).1 = (L.movePublicTable table₁).1) :
    r₁.saved.writes o = r₂.saved.writes o := by
  have hcs : r₂.circuit = r₁.circuit := by
    simpa [r₁.circuit_read, r₂.circuit_read] using hcircuit
  have ht₁ : r₁.description = description ∧ r₁.table = table₁ := by
    simpa [r₁.table_read] using htable₁
  have ht₂ : r₂.description = description ∧ r₂.table = table₂ := by
    simpa [r₂.table_read] using htable₂
  have hfresh : r₂.fresh = r₁.fresh := by
    have h := r₂.fresh_made
    rw [ht₂.1, ← ht₁.1, r₁.fresh_made] at h
    exact (Except.ok.inj h).symm
  have hdata : (r₂.data, r₂.scheme) = (r₁.data, r₁.scheme) := by
    have h := r₂.preprocessed
    rw [hcs, ht₂.1, ht₂.2, hpublic, hfresh, ← ht₁.1, ← ht₁.2, r₁.preprocessed] at h
    exact (Except.ok.inj h).symm
  obtain ⟨hdata, hscheme⟩ := Prod.mk.inj hdata
  have hused : r₂.usedScheme = r₁.usedScheme := by
    have h₁ : r₁.usedScheme = r₁.scheme := hkeep r₁.proved
    have h₂ : r₂.usedScheme = r₂.scheme := hkeep r₂.proved
    rw [h₁, h₂, hscheme]
  exact (r₂.saved.writes_eq r₁.saved hdata hused).symm

theorem AllRun.lookup_eq_of_differ {fs₁' fs₂' : FileSystem} (r₁ : AllRun L d o fs₁ fs₁')
    (r₂ : AllRun L d o fs₂ fs₂') (hs : Steady fs₁ fs₂)
    (hwrites : r₁.saved.writes o = r₂.saved.writes o) :
    ∀ w ∈ r₁.saved.writes o, fs₂'.lookup w.1 = fs₁'.lookup w.1 := by
  intro w hw
  have hsaved := r₂.all_saved
  rw [← hwrites] at hsaved
  refine r₁.all_saved.lookup_congr hsaved
    (r₁.steady_jsonTried.symm.trans (hs.trans r₂.steady_jsonTried)) (Or.inl ⟨w, hw, ?_⟩)
  obtain ⟨l, ho, _⟩ := r₁.saved_writable w hw
  have hl := (openForWriting_eq_some_iff.mp ho).1
  exact (r₁.steady_jsonTried.sameFile_iff _ _).mpr ⟨l, hl, hl⟩

/-- Runs on tables that differ in their private columns only have the same exit code and leave the
same artifacts. A file that is itself the table file is the same once it has been written. -/
theorem runProver_witness_independent (hkeep : L.ProverKeepsScheme) (d : Disk)
    (hdiffer : DifferOnlyIn o.assignmentTableFilePath fs₁ fs₂)
    (hcircuit : ¬ fs₁.SameFile o.circuitFilePath o.assignmentTableFilePath)
    (htable₁ : L.tableIn fs₁ o.assignmentTableFilePath = .ok (some (description, table₁)))
    (htable₂ : L.tableIn fs₂ o.assignmentTableFilePath = .ok (some (description, table₂)))
    (hpublic : (L.movePublicTable table₂).1 = (L.movePublicTable table₁).1) :
    (o.stage = "preprocess" →
      (runProver L d o fs₂).1 = (runProver L d o fs₁).1 ∧
        ∀ p ∈ stageOutputs o .preprocess,
          (runProver L d o fs₁).1 = .exit 0 ∨ ¬ fs₁.SameFile p o.assignmentTableFilePath →
          (runProver L d o fs₂).2.lookup p = (runProver L d o fs₁).2.lookup p) ∧
      (o.stage = "all" → ∀ fs₁' fs₂', runProver L d o fs₁ = (.exit 0, fs₁') →
        runProver L d o fs₂ = (.exit 0, fs₂') →
        ∀ p ∈ [o.preprocessedCommonDataPath, o.preprocessedPublicDataPath,
          o.commitmentSchemeStatePath], fs₂'.lookup p = fs₁'.lookup p) := by
  have hfiles := hdiffer.agreeBeyond
  constructor
  · intro h
    have hstage := stage_mem .preprocess h
    obtain ⟨r, s, t, hrun₁, hrun₂, hF, hyes⟩ :=
      couples_preprocess (d := d) hfiles hcircuit htable₁ htable₂ hpublic _ _ ⟨rfl, rfl⟩
    rw [runProver_of_stage hstage, runProver_of_stage hstage, hrun₁, hrun₂]
    refine ⟨rfl, fun p hp hcase => ?_⟩
    rcases hcase with hexit | hne
    · obtain ⟨_, _, _, _, ⟨rfl, rfl⟩, hagree⟩ := hyes (Outcome.ofResult_exit_zero_iff.mp hexit)
      exact hagree.lookup_of_mem (List.mem_reverse.mpr hp)
    · exact hF.lookup p (Or.inl hne)
  · intro h fs₁' fs₂' hrun₁ hrun₂ p hp
    obtain ⟨r₁⟩ := (runProver_all_exit_zero_iff h).mp hrun₁
    obtain ⟨r₂⟩ := (runProver_all_exit_zero_iff h).mp hrun₂
    have hsame : L.circuitIn fs₂ o.circuitFilePath = L.circuitIn fs₁ o.circuitFilePath :=
      objectIn_congr (hfiles.lookup _ (Or.inl hcircuit))
    have hwrites := r₁.writes_eq r₂ hkeep hsame htable₁ htable₂ hpublic
    have hpaths : p ∈ (r₁.saved.writes o).map Prod.fst := hp
    obtain ⟨w, hw, rfl⟩ := List.mem_map.mp hpaths
    exact r₁.lookup_eq_of_differ r₂ hfiles.right hwrites w hw

/-- The small directory with another private column. -/
def otherWitnessFiles : FileSystem := smallFiles.store [['t']] [2, 4]

/-- Two runs of stage `preprocess` and two of stage `all`. -/
theorem runProver_witness_independent_small :
    ((runProver .small .reliable (smallOptions "preprocess") otherWitnessFiles).1 =
        (runProver .small .reliable (smallOptions "preprocess") smallFiles).1 ∧
      ∀ p ∈ stageOutputs (smallOptions "preprocess") .preprocess,
        (runProver .small .reliable (smallOptions "preprocess") smallFiles).1 = .exit 0 ∨
          ¬ smallFiles.SameFile p ['t'] →
        (runProver .small .reliable (smallOptions "preprocess") otherWitnessFiles).2.lookup p =
          (runProver .small .reliable (smallOptions "preprocess") smallFiles).2.lookup p) ∧
      ∀ p ∈ [['m'], ['r'], ['s']],
        (filesAfter "all" otherWitnessFiles).lookup p = (filesAfter "all" smallFiles).lookup p := by
  have hdiffer : ∀ stage, DifferOnlyIn (smallOptions stage).assignmentTableFilePath smallFiles
      otherWitnessFiles :=
    fun _ => ⟨[['t']], [2, 3], [2, 4], true, rfl, rfl, rfl⟩
  have hcircuit : ∀ stage, ¬ smallFiles.SameFile (smallOptions stage).circuitFilePath
      (smallOptions stage).assignmentTableFilePath := by
    intro stage
    show ¬ smallFiles.SameFile ['c'] ['t']
    decide +kernel
  have hread : Crypto3.small.tableIn smallFiles ['t'] =
      .ok (some ((2 : UInt8), ((2 : UInt8), (3 : UInt8)))) := rfl
  have hread' : Crypto3.small.tableIn otherWitnessFiles ['t'] =
      .ok (some ((2 : UInt8), ((2 : UInt8), (4 : UInt8)))) := rfl
  have hrun : runProver .small .reliable (smallOptions "all") smallFiles =
      (.exit 0, filesAfter "all" smallFiles) := runProver_small (by decide +kernel)
  have hrun' : runProver .small .reliable (smallOptions "all") otherWitnessFiles =
      (.exit 0, filesAfter "all" otherWitnessFiles) := runProver_small (by decide +kernel)
  constructor
  · exact (runProver_witness_independent Crypto3.small_proverKeepsScheme .reliable
      (hdiffer "preprocess") (hcircuit _) hread hread' rfl).1 rfl
  · exact (runProver_witness_independent Crypto3.small_proverKeepsScheme .reliable
      (hdiffer "all") (hcircuit _) hread hread' rfl).2 rfl _ _ hrun hrun'

end Runs

/-- The common data are to go where the table is, and the description cannot be written. -/
def overwritingOptions : ProverOptions :=
  { smallOptions "preprocess" with
    preprocessedCommonDataPath := ['t']
    assignmentDescriptionFilePath := ['x', '/', 'd'] }

/-- A library whose circuits are sums of two bytes. -/
def Crypto3.smallSum : Crypto3 :=
  { Crypto3.small with
    ConstraintMarshalling := UInt8 × UInt8
    plonkConstraintSystem := (Codec.byte Exception).pair (.byte Exception)
    makePlonkConstraintSystem := fun m => .ok (m.1 + m.2 : UInt8) }

/-- An output that is the table file keeps the witness when the run fails before writing it, and
a circuit that is read from the table file takes the witness along. -/
theorem table_file_reveals_witness :
    (¬ ∀ (L : Crypto3) (d : Disk) (o : ProverOptions) (fs₁ fs₂ : FileSystem)
      (description : L.TableDescription) (table₁ table₂ : L.AssignmentTable),
      L.ProverKeepsScheme → o.stage = "preprocess" →
      DifferOnlyIn o.assignmentTableFilePath fs₁ fs₂ →
      ¬ fs₁.SameFile o.circuitFilePath o.assignmentTableFilePath →
      L.tableIn fs₁ o.assignmentTableFilePath = .ok (some (description, table₁)) →
      L.tableIn fs₂ o.assignmentTableFilePath = .ok (some (description, table₂)) →
      (L.movePublicTable table₂).1 = (L.movePublicTable table₁).1 →
      ∀ p ∈ stageOutputs o .preprocess,
        (runProver L d o fs₂).2.lookup p = (runProver L d o fs₁).2.lookup p) ∧
    ¬ ∀ (L : Crypto3) (d : Disk) (o : ProverOptions) (fs₁ fs₂ : FileSystem)
      (description : L.TableDescription) (table₁ table₂ : L.AssignmentTable),
      L.ProverKeepsScheme → o.stage = "preprocess" →
      DifferOnlyIn o.assignmentTableFilePath fs₁ fs₂ →
      L.tableIn fs₁ o.assignmentTableFilePath = .ok (some (description, table₁)) →
      L.tableIn fs₂ o.assignmentTableFilePath = .ok (some (description, table₂)) →
      (L.movePublicTable table₂).1 = (L.movePublicTable table₁).1 →
      (runProver L d o fs₁).1 = .exit 0 → (runProver L d o fs₂).1 = .exit 0 →
      ∀ p ∈ stageOutputs o .preprocess,
        (runProver L d o fs₂).2.lookup p = (runProver L d o fs₁).2.lookup p := by
  have hdiffer : DifferOnlyIn ['t'] smallFiles otherWitnessFiles :=
    ⟨[['t']], [2, 3], [2, 4], true, rfl, rfl, rfl⟩
  constructor
  · intro h
    have hleft : (runProver .small .reliable overwritingOptions otherWitnessFiles).2.lookup ['t'] ≠
        (runProver .small .reliable overwritingOptions smallFiles).2.lookup ['t'] := by
      decide +kernel
    exact hleft (h .small .reliable overwritingOptions smallFiles otherWitnessFiles (2 : UInt8)
      ((2 : UInt8), (3 : UInt8)) ((2 : UInt8), (4 : UInt8)) Crypto3.small_proverKeepsScheme rfl
      hdiffer (by decide +kernel) rfl rfl rfl ['t'] (by decide +kernel))
  · intro h
    have hkeep : Crypto3.smallSum.ProverKeepsScheme := by
      intro pub priv d cs s r hr
      rw [← Except.ok.inj hr]
    have hleft : (runProver .smallSum .reliable
          { smallOptions "preprocess" with circuitFilePath := ['t'] } otherWitnessFiles).2.lookup
            ['m'] ≠
        (runProver .smallSum .reliable
          { smallOptions "preprocess" with circuitFilePath := ['t'] } smallFiles).2.lookup
            ['m'] := by
      decide +kernel
    exact hleft (h .smallSum .reliable { smallOptions "preprocess" with circuitFilePath := ['t'] }
      smallFiles otherWitnessFiles (2 : UInt8) ((2 : UInt8), (3 : UInt8))
      ((2 : UInt8), (4 : UInt8)) hkeep rfl hdiffer rfl rfl rfl (by decide +kernel)
      (by decide +kernel) ['m'] (by decide +kernel))

end ProofProducer
