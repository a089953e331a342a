import ProofProducer.Lifecycle
import Mathlib.Data.List.DropRight

/-!
# What can happen to an object

The histories of an object begin with its constructor; each call returns or throws, and only
undefined behaviour ends one. Which members are there together, which members a method can find
missing and what is left of a table that has been used follow from the scripts.
-/

namespace ProofProducer

open Effects Files Codecs Scripts

set_option autoImplicit false

variable {L : Crypto3} {d : Disk} {s t : Session L} {v : Evaluation}

abbrev Event (L : Crypto3) := Call L × Except Stop Bool

/-- A history from one state of the object and the files to another. -/
abbrev History (d : Disk) : Session L → List (Event L) → Session L → Prop :=
  Trace (Call.run d) CameBack

/-- A call and the evaluation of its arguments. -/
structure Invocation (L : Crypto3) where
  evaluation : Evaluation
  call : Call L

def Invocation.run (d : Disk) (i : Invocation L) : Step L Bool := i.evaluation.run d i.call

abbrev OpenEvent (L : Crypto3) := Invocation L × Except Stop Bool

/-- A history whose calls evaluate their arguments in any order and may go on with parts of the
table that have been moved out. -/
abbrev OpenHistory (d : Disk) : Session L → List (OpenEvent L) → Session L → Prop :=
  Trace (Invocation.run d) CameBack

/-- A history stays what it is under every evaluation. -/
theorem openHistory_of_history {es : List (Event L)} (h : History d s es t) (v : Evaluation) :
    OpenHistory d s (es.map fun e => (⟨v, e.1⟩, e.2)) t :=
  h.map fun c s hs => agrees_call c s hs

/-- A new object, with any files around it. -/
def Fresh (s : Session L) : Prop := ∃ lambda expandFactor maxQChunks grind,
  s.prover = Prover.new L lambda expandFactor maxQChunks grind

theorem Fresh.held {s : Session L} (h : Fresh s) (r : Resource) : s.prover.held r = false := by
  obtain ⟨lambda, expandFactor, maxQChunks, grind, hnew⟩ := h
  rw [hnew]
  rcases r with m | part
  · cases m <;> rfl
  · cases part <;> rfl

def dependencies : List (Resource × Resource) :=
  [(.engaged .assignmentTable, .engaged .tableDescription),
    (.engaged .publicInputs, .engaged .tableDescription),
    (.engaged .privatePreprocessedData, .engaged .constraintSystem),
    (.engaged .privatePreprocessedData, .engaged .tableDescription),
    (.part .publicPart, .engaged .assignmentTable),
    (.part .privatePart, .engaged .assignmentTable)]

theorem sound_script (c : Call L) : sound dependencies [] c.script = true := by
  cases c with
  | operation op =>
    cases op with
    | generateToFile proofFile jsonFile skip => cases skip <;> rfl
    | _ => rfl
  | _ => rfl

theorem Fresh.closed (h : Fresh s) : Closed dependencies s.prover.held := by
  intro i _ hi
  simp [h.held] at hi

theorem openHistory_closed {es : List (OpenEvent L)} (hs : Fresh s) (h : OpenHistory d s es t) :
    Closed dependencies t.prover.held :=
  h.closed (fun i => follows_call i.call) (fun i => sound_script i.call) hs.closed

/-- The members of an object that has a history. -/
structure Prover.Coherent (p : Prover L) : Prop where
  table : p.assignmentTable.isSome → p.tableDescription.isSome
  publicInputs : p.publicInputs.isSome → p.tableDescription.isSome
  privateData : p.privatePreprocessedData.isSome →
    p.constraintSystem.isSome ∧ p.tableDescription.isSome

theorem history_coherent {es : List (Event L)} (hs : Fresh s) (h : History d s es t) :
    t.prover.Coherent := by
  have hclosed := openHistory_closed hs (openHistory_of_history h (.first .common))
  refine ⟨fun ht => ?_, fun hi => ?_, fun hp => ⟨?_, ?_⟩⟩
  · exact hclosed (.engaged .assignmentTable, .engaged .tableDescription) (by decide) ht
  · exact hclosed (.engaged .publicInputs, .engaged .tableDescription) (by decide) hi
  · exact hclosed (.engaged .privatePreprocessedData, .engaged .constraintSystem) (by decide) hp
  · exact hclosed (.engaged .privatePreprocessedData, .engaged .tableDescription) (by decide) hp

/-- The methods, without their arguments. -/
inductive Method where
  | readCircuit
  | readAssignmentTable
  | readAssignmentDescription
  | readPreprocessedCommonDataFromFile
  | readPublicPreprocessedDataFromFile
  | readCommitmentSchemeFromFile
  | savePreprocessedCommonDataToFile
  | savePublicPreprocessedDataToFile
  | saveCommitmentStateToFile
  | saveAssignmentDescription
  | createLpcScheme
  | preprocessPublicData
  | preprocessPrivateData
  | verify
  | verifyFromFile
  | generateToFile
  | generateAggregatedChallengeToFile
  deriving DecidableEq, Repr

def Call.method : Call L → Method
  | .operation (.readCircuit _) => .readCircuit
  | .operation (.readAssignmentTable _) => .readAssignmentTable
  | .operation (.readAssignmentDescription _) => .readAssignmentDescription
  | .operation (.readPreprocessedCommonDataFromFile _) => .readPreprocessedCommonDataFromFile
  | .operation (.readPublicPreprocessedDataFromFile _) => .readPublicPreprocessedDataFromFile
  | .operation (.readCommitmentSchemeFromFile _) => .readCommitmentSchemeFromFile
  | .operation (.savePreprocessedCommonDataToFile _) => .savePreprocessedCommonDataToFile
  | .operation (.savePublicPreprocessedDataToFile _) => .savePublicPreprocessedDataToFile
  | .operation (.saveCommitmentStateToFile _) => .saveCommitmentStateToFile
  | .operation (.saveAssignmentDescription _) => .saveAssignmentDescription
  | .operation (.verifyFromFile _) => .verifyFromFile
  | .operation (.generateToFile _ _ _) => .generateToFile
  | .operation (.generateAggregatedChallengeToFile _ _) => .generateAggregatedChallengeToFile
  | .createLpcScheme => .createLpcScheme
  | .preprocessPublicData => .preprocessPublicData
  | .preprocessPrivateData => .preprocessPrivateData
  | .verify _ => .verify

def Method.missing : Method → List Member
  | .savePreprocessedCommonDataToFile => [.publicPreprocessedData]
  | .savePublicPreprocessedDataToFile => [.publicPreprocessedData]
  | .saveCommitmentStateToFile => [.lpcScheme]
  | .saveAssignmentDescription => [.tableDescription]
  | .createLpcScheme => [.tableDescription]
  | .preprocessPublicData => [.assignmentTable, .constraintSystem]
  | .preprocessPrivateData => [.constraintSystem, .assignmentTable, .tableDescription]
  | .verify => [.commonData, .tableDescription, .constraintSystem, .lpcScheme]
  | .verifyFromFile => [.tableDescription, .commonData, .constraintSystem]
  | .generateToFile =>
    [.publicPreprocessedData, .privatePreprocessedData, .tableDescription, .constraintSystem,
      .lpcScheme, .publicInputs]
  | _ => []

theorem mayLack_script {c : Call L} {r : Resource} (h : r ∈ mayLack dependencies [] c.script) :
    r ∈ c.method.missing.map .engaged := by
  have hsubset : mayLack dependencies [] c.script ⊆ c.method.missing.map .engaged := by
    cases c with
    | operation op =>
      cases op with
      | generateToFile proofFile jsonFile skip =>
        cases skip <;> (simp only [Call.script, Operation.script, Call.method]; decide)
      | _ => simp only [Call.script, Operation.script, Call.method]; decide
    | _ => simp only [Call.script, Call.method]; decide
  exact hsubset h

/-- The member that a call found missing. -/
def missed (result : Except Stop Bool) : Option Member :=
  match result with
  | .error (.undefined (.emptyOptional m)) => some m
  | _ => none

theorem error_of_missed {result : Except Stop Bool} {m : Member} (h : missed result = some m) :
    result = .error (.undefined (.emptyOptional m)) := by
  unfold missed at h
  split at h
  · rw [Option.some.inj h]
  · simp at h

theorem missing_of_missed {es : List (OpenEvent L)} (hs : Fresh s) (h : OpenHistory d s es t)
    {i : Invocation L} {m : Member} (hmissed : missed ((i.run d).run t).1 = some m) :
    m ∈ i.call.method.missing := by
  have hmember := mayLack_script (h.lacks_mem (fun i => follows_call i.call)
    (fun i => sound_script i.call) hs.closed (error_of_missed hmissed) rfl)
  obtain ⟨m', hm', heq⟩ := List.mem_map.mp hmember
  rw [← Resource.engaged.inj heq]
  exact hm'

/-- Some new object, after some history, ends in undefined behaviour in the method for lack of
the member, with the arguments of each call in some order. -/
def CanMiss (method : Method) (m : Member) : Prop :=
  ∃ (L : Crypto3) (d : Disk) (s t : Session L) (es : List (OpenEvent L)) (i : Invocation L),
    Fresh s ∧ OpenHistory d s es t ∧ i.call.method = method ∧ missed ((i.run d).run t).1 = some m

/-- The small library, with a preprocessor that refuses the private table 0. -/
def Crypto3.picky : Crypto3 := { Crypto3.small with
  placeholderPrivatePreprocessor := fun _ (t : UInt8) _ =>
    if t = 0 then .error ⟨"empty table"⟩ else .ok t }

/-- A directory in which the stages `all` and `preprocess` have run, with a second table in it. -/
def workedFiles : FileSystem :=
  (filesAfter "preprocess" (filesAfter "all" smallFiles)).store [['u']] [2, 0]

/-- A new object in that directory. -/
def pickySession : Session .picky := ⟨Prover.new .picky 9 2 0 69, workedFiles⟩

theorem fresh_pickySession : Fresh pickySession := ⟨9, 2, 0, 69, rfl⟩

/-- What the last call finds missing after the others. -/
def missedAfter (history : List (Call .picky)) (i : Invocation .picky) : Option Member :=
  (play (Call.run .reliable) CameBack history pickySession).bind
    fun r => missed ((i.run .reliable).run r.2).1

/-- For each member that a method can miss, in order, a history, the argument that is evaluated
first, and a call that misses the member then. -/
def Method.histories (method : Method) : List (List (Call .picky) × Argument × Call .picky) :=
  let circuit : Call .picky := .operation (.readCircuit ['c'])
  let table : Call .picky := .operation (.readAssignmentTable ['t'])
  let description : Call .picky := .operation (.readAssignmentDescription ['d'])
  let publicData : Call .picky := .operation (.readPublicPreprocessedDataFromFile ['r'])
  let verify : Call .picky := .verify (1 : UInt8)
  let verifyFile : Call .picky := .operation (.verifyFromFile ['p'])
  let generate : Call .picky := .operation (.generateToFile ['x'] ['y'] true)
  match method with
  | .savePreprocessedCommonDataToFile =>
    [([], .common, .operation (.savePreprocessedCommonDataToFile ['x']))]
  | .savePublicPreprocessedDataToFile =>
    [([], .common, .operation (.savePublicPreprocessedDataToFile ['x']))]
  | .saveCommitmentStateToFile =>
    [([], .common, .operation (.saveCommitmentStateToFile ['x']))]
  | .saveAssignmentDescription =>
    [([], .common, .operation (.saveAssignmentDescription ['x']))]
  | .createLpcScheme => [([], .common, .createLpcScheme)]
  | .preprocessPublicData =>
    [([], .common, .preprocessPublicData), ([table], .common, .preprocessPublicData)]
  | .preprocessPrivateData =>
    [([], .member .constraintSystem, .preprocessPrivateData),
      ([], .move .privatePart, .preprocessPrivateData),
      ([], .member .tableDescription, .preprocessPrivateData)]
  | .verify =>
    [([], .common, verify), ([], .member .tableDescription, verify),
      ([], .member .constraintSystem, verify), ([], .member .lpcScheme, verify)]
  | .verifyFromFile =>
    [([], .common, verifyFile), ([description], .common, verifyFile),
      ([description], .member .constraintSystem, verifyFile)]
  | .generateToFile =>
    [([], .member .publicPreprocessedData, generate),
      ([], .member .privatePreprocessedData, generate),
      ([], .member .tableDescription, generate), ([], .member .constraintSystem, generate),
      ([], .member .lpcScheme, generate),
      ([publicData, circuit, table, .preprocessPrivateData, .createLpcScheme], .common, generate)]
  | _ => []

theorem histories_miss (method : Method) :
    method.histories.map (fun h => (h.2.2.method, missedAfter h.1 ⟨.first h.2.1, h.2.2⟩)) =
      method.missing.map fun m => (method, some m) := by
  cases method <;> decide +kernel

theorem canMiss_of_mem {method : Method} {m : Member} (h : m ∈ method.missing) :
    CanMiss method m := by
  have hmem := List.mem_map_of_mem (f := fun m => (method, some m)) h
  rw [← histories_miss] at hmem
  obtain ⟨⟨history, a, c⟩, _, hpair⟩ := List.mem_map.mp hmem
  obtain ⟨hmethod, hmissed⟩ := Prod.mk.inj hpair
  obtain ⟨⟨rs, t⟩, hplay, hmissed⟩ := Option.bind_eq_some_iff.mp hmissed
  exact ⟨.picky, .reliable, _, t, _, ⟨.first a, c⟩, fresh_pickySession,
    openHistory_of_history (trace_of_play hplay) (.first .common), hmethod, hmissed⟩

/-- What the methods can find missing, over all histories of all objects and all orders of
arguments. -/
theorem canMiss_iff (method : Method) (m : Member) :
    CanMiss method m ↔ m ∈ method.missing := by
  constructor
  · rintro ⟨L, d, s, t, es, i, hs, hes, rfl, hmissed⟩
    exact missing_of_missed hs hes hmissed
  · exact canMiss_of_mem

/-- The call that uses up a part of the table. -/
def TablePart.consumer (L : Crypto3) : TablePart → Call L
  | .publicPart => .preprocessPublicData
  | .privatePart => .preprocessPrivateData

def isTableRead : OpenEvent L → Bool
  | (⟨_, .operation (.readAssignmentTable _)⟩, .ok true) => true
  | _ => false

/-- What has happened since a table was last read. -/
def sinceTable (es : List (OpenEvent L)) : List (OpenEvent L) :=
  es.rtakeWhile fun e => !isTableRead e

/-- `preprocess_public_data` has returned true, or `preprocess_private_data` has come back. -/
def Used : TablePart → List (OpenEvent L) → Prop
  | .publicPart, es => ∃ v, (⟨v, .preprocessPublicData⟩, .ok true) ∈ sinceTable es
  | .privatePart, es => ∃ v r, (⟨v, .preprocessPrivateData⟩, r) ∈ sinceTable es

/-- `preprocess_private_data` has returned true. -/
def Dropped (es : List (OpenEvent L)) : Prop :=
  ∃ v, (⟨v, .preprocessPrivateData⟩, .ok true) ∈ sinceTable es

theorem sinceTable_read {es : List (OpenEvent L)} {e : OpenEvent L} (he : isTableRead e = true) :
    sinceTable (es ++ [e]) = [] := by
  simp [sinceTable, he]

theorem sinceTable_snoc {es : List (OpenEvent L)} {e : OpenEvent L} (he : isTableRead e = false) :
    sinceTable (es ++ [e]) = sinceTable es ++ [e] := by
  simp [sinceTable, he]

theorem grants_table {c : Call L} (hc : ∀ path, c ≠ .operation (.readAssignmentTable path)) :
    ∀ r ∈ [Resource.engaged .assignmentTable, .part .publicPart, .part .privatePart],
      c.script.any (Atom.grants r) = false := by
  cases c with
  | operation op =>
    cases op with
    | readAssignmentTable path => exact (hc path rfl).elim
    | generateToFile proofFile jsonFile skip =>
      cases skip <;> (simp only [Call.script, Operation.script]; decide)
    | _ => simp only [Call.script, Operation.script]; decide
  | _ => simp only [Call.script]; decide

/-- Only a table that is read brings a table or a part of one. -/
theorem held_before_call {c : Call L} {r : Except Stop Bool}
    (hrun : (v.run d c).run s = (r, t)) (hread : isTableRead (⟨v, c⟩, r) = false) {x : Resource}
    (hx : x ∈ [Resource.engaged .assignmentTable, .part .publicPart, .part .privatePart])
    (ht : t.prover.held x = true) : s.prover.held x = true := by
  by_cases hc : ∃ path, c = .operation (.readAssignmentTable path)
  · obtain ⟨path, rfl⟩ := hc
    obtain ⟨p, fs⟩ := s
    have hstep : (Prover.readAssignmentTable path).run (⟨p, fs⟩ : Session L) = (r, t) := hrun
    unfold Prover.readAssignmentTable at hstep
    rw [Prover.readMember_run] at hstep
    split at hstep
    · rw [← (Prod.mk.inj hstep).2] at ht
      exact ht
    · rw [← (Prod.mk.inj hstep).2] at ht
      exact ht
    · rw [← (Prod.mk.inj hstep).1] at hread
      simp [isTableRead] at hread
  · obtain ⟨rest, hbegins, _⟩ := follows_call (d := d) (v := v) c s trivial
    rw [hrun] at hbegins
    exact hbegins.held_before (grants_table (fun path h => hc ⟨path, h⟩) x hx) ht

/-- No call takes the constraint system or the description away, and only
`preprocess_private_data` takes the table. -/
theorem held_after_call {c : Call L} {r : Except Stop Bool} (hrun : (v.run d c).run s = (r, t))
    {m : Member} (hm : m = .constraintSystem ∨ m = .tableDescription ∨
      m = .assignmentTable ∧ c ≠ .preprocessPrivateData)
    (hs : s.prover.held (.engaged m) = true) : t.prover.held (.engaged m) = true := by
  have hremoves : c.script.any (Atom.removes (.engaged m)) = false := by
    rcases hm with rfl | rfl | ⟨rfl, hc⟩
    all_goals cases c with
      | operation op =>
        cases op with
        | generateToFile proofFile jsonFile skip => cases skip <;> rfl
        | _ => rfl
      | preprocessPrivateData => first | rfl | exact (hc rfl).elim
      | _ => rfl
  obtain ⟨rest, hbegins, _⟩ := follows_call (d := d) (v := v) c s trivial
  rw [hrun] at hbegins
  exact hbegins.held_after hremoves hs

theorem preprocessPublicData_uses
    (hrun : (v.preprocessPublicData : Step L Bool).run s = (.ok true, t)) :
    t.prover.held (.part .publicPart) = false ∧
      t.prover.held (.engaged .assignmentTable) = true := by
  obtain ⟨rest, hbegins, hok, _⟩ := follows_preprocessPublicData (v := v) s trivial
  rw [hrun] at hbegins hok
  rw [hok true rfl trivial] at hbegins
  have hend := hbegins.eq_afterAll
  have hmet : s.prover.held (.engaged .assignmentTable) = true := by
    simpa [Atom.met, needs, asks, Argument.need, Need.met] using hbegins.first_met.1
  dsimp only at hend
  rw [hend]
  simp [afterAll, preprocessPublicScript, schemeScript, moveScript, needs, asks, gives,
    Atom.after, hmet]

theorem movePrivateTable_bind {f : L.PrivateTable → Step L Bool} {p : Prover L} {fs : FileSystem}
    {slot : TableSlot L} (hslot : p.assignmentTable = some slot)
    (h : CameBack ((v.movePrivateTable >>= f).run ⟨p, fs⟩).1) :
    (v.movePrivateTable >>= f).run ⟨p, fs⟩ =
      (f (L.movePrivateTable slot.table).1).run ⟨{ p with
        assignmentTable := some ⟨(L.movePrivateTable slot.table).2, slot.publicMoved, true⟩ },
        fs⟩ := by
  unfold Evaluation.movePrivateTable Prover.derefTable at h ⊢
  rw [Action.bind_assoc, Action.run_bind_ok (Prover.run_deref_some hslot), Action.bind_assoc] at h ⊢
  unfold Evaluation.ofPart Prover.ofPart at h ⊢
  split at h
  · exact h.elim
  · rename_i hmoved
    rw [if_neg hmoved]
    rfl

/-- Whatever comes of it, `preprocess_private_data` has moved the private part out. The table is
dropped if it returns true. -/
theorem preprocessPrivateData_uses {r : Except Stop Bool}
    (hrun : (v.preprocessPrivateData : Step L Bool).run s = (r, t)) (hr : CameBack r) :
    t.prover.held (.engaged .constraintSystem) = true ∧
      t.prover.held (.engaged .tableDescription) = true ∧
      t.prover.held (.part .privatePart) = false ∧
      t.prover.held (.engaged .assignmentTable) = decide (r ≠ .ok true) := by
  obtain ⟨p, fs⟩ := s
  have hback : CameBack ((v.preprocessPrivateData : Step L Bool).run ⟨p, fs⟩).1 := by
    rw [hrun]
    exact hr
  obtain ⟨hfound, hbody⟩ := cameBack_evaluate hback
  have hbegin : (v.preprocessPrivateData : Step L Bool).run ⟨p, fs⟩ = _ := hbody
  rw [hbegin] at hrun hback
  have hengaged : p.isEngaged .constraintSystem = true ∧ p.isEngaged .assignmentTable = true ∧
      p.isEngaged .tableDescription = true := by
    simpa [Argument.need, Need.met, Prover.held] using hfound
  obtain ⟨cs, hcs⟩ := exists_of_engaged hengaged.1
  obtain ⟨slot, hslot⟩ := exists_of_engaged hengaged.2.1
  obtain ⟨description, hd⟩ := exists_of_engaged hengaged.2.2
  rw [Action.run_bind_ok (Prover.run_deref_some hcs)] at hrun hback
  rw [movePrivateTable_bind hslot hback,
    Action.run_bind_ok (by apply Prover.run_deref_some; exact hd), Action.run_bind,
    Prover.run_external] at hrun
  rcases hdata : L.placeholderPrivatePreprocessor cs (L.movePrivateTable slot.table).1 description
    with e | data
  · simp only [hdata, Except.mapError] at hrun
    obtain ⟨rfl, rfl⟩ := Prod.mk.inj hrun
    simp [Prover.held, Prover.isEngaged, Prover.hasPart, hcs, hd]
  · simp only [hdata, Except.mapError] at hrun
    obtain ⟨rfl, rfl⟩ := Prod.mk.inj hrun
    simp [Prover.held, Prover.isEngaged, Prover.hasPart, hcs, hd]

/-- What the use of a table leaves behind until another one is read. -/
structure TableUse (es : List (OpenEvent L)) (s : Session L) : Prop where
  spent : ∀ part, Used part es → s.prover.held (.part part) = false
  described : Used .privatePart es → s.prover.held (.engaged .constraintSystem) = true ∧
    s.prover.held (.engaged .tableDescription) = true
  dropped : Dropped es → s.prover.held (.engaged .assignmentTable) = false
  kept : ∀ part, Used part es → ¬ Dropped es → s.prover.held (.engaged .assignmentTable) = true

theorem tableUse_nil {es : List (OpenEvent L)} (h : sinceTable es = []) : TableUse es s := by
  have hunused : ∀ part, ¬ Used part es := by
    rintro (_ | _) <;> simp [Used, h]
  have hheld : ¬ Dropped es := by simp [Dropped, h]
  exact ⟨fun part hu => (hunused part hu).elim, fun hu => (hunused _ hu).elim,
    fun hd => (hheld hd).elim, fun part hu => (hunused part hu).elim⟩

/-- The last event, or one before it. -/
theorem used_snoc {es : List (OpenEvent L)} {e : OpenEvent L} (he : isTableRead e = false)
    {part : TablePart} : Used part (es ++ [e]) ↔
      Used part es ∨ e.1.call = part.consumer L ∧ (part = .publicPart → e.2 = .ok true) := by
  obtain ⟨⟨v, c⟩, r⟩ := e
  cases part with
  | publicPart =>
    simp only [Used, sinceTable_snoc he, List.mem_append, List.mem_singleton, TablePart.consumer]
    constructor
    · rintro ⟨v', h | h⟩
      · exact Or.inl ⟨v', h⟩
      · obtain ⟨hi, rfl⟩ := Prod.mk.inj h
        obtain ⟨_, rfl⟩ := Invocation.mk.inj hi
        exact Or.inr ⟨rfl, fun _ => rfl⟩
    · rintro (⟨v', h⟩ | ⟨rfl, hr⟩)
      · exact ⟨v', Or.inl h⟩
      · obtain rfl : r = .ok true := hr trivial
        exact ⟨v, Or.inr rfl⟩
  | privatePart =>
    simp only [Used, sinceTable_snoc he, List.mem_append, List.mem_singleton, TablePart.consumer]
    constructor
    · rintro ⟨v', r', h | h⟩
      · exact Or.inl ⟨v', r', h⟩
      · obtain ⟨hi, rfl⟩ := Prod.mk.inj h
        obtain ⟨_, rfl⟩ := Invocation.mk.inj hi
        exact Or.inr ⟨rfl, by simp⟩
    · rintro (⟨v', r', h⟩ | ⟨rfl, _⟩)
      · exact ⟨v', r', Or.inl h⟩
      · exact ⟨v, r, Or.inr rfl⟩

theorem dropped_snoc {es : List (OpenEvent L)} {e : OpenEvent L} (he : isTableRead e = false) :
    Dropped (es ++ [e]) ↔
      Dropped es ∨ e.1.call = .preprocessPrivateData ∧ e.2 = .ok true := by
  obtain ⟨⟨v, c⟩, r⟩ := e
  simp only [Dropped, sinceTable_snoc he, List.mem_append, List.mem_singleton]
  constructor
  · rintro ⟨v', h | h⟩
    · exact Or.inl ⟨v', h⟩
    · obtain ⟨hi, rfl⟩ := Prod.mk.inj h
      obtain ⟨_, rfl⟩ := Invocation.mk.inj hi
      exact Or.inr ⟨rfl, rfl⟩
  · rintro (⟨v', h⟩ | ⟨rfl, rfl⟩)
    · exact ⟨v', Or.inl h⟩
    · exact ⟨v, Or.inr rfl⟩

theorem tableUse_step {es : List (OpenEvent L)} {i : Invocation L} {r : Except Stop Bool}
    (h : TableUse es s) (hrun : (i.run d).run s = (r, t)) (hr : CameBack r) :
    TableUse (es ++ [(i, r)]) t := by
  obtain ⟨v, c⟩ := i
  cases he : isTableRead ((⟨v, c⟩, r) : OpenEvent L) with
  | true => exact tableUse_nil (sinceTable_read he)
  | false =>
    have hbefore : ∀ x ∈ [Resource.engaged .assignmentTable, .part .publicPart, .part .privatePart],
        s.prover.held x = false → t.prover.held x = false := by
      intro x hx hs
      rw [Bool.eq_false_iff] at hs ⊢
      exact fun ht => hs (held_before_call hrun he hx ht)
    refine ⟨fun part hu => ?_, fun hu => ?_, fun hd => ?_, fun part hu hd => ?_⟩
    · rcases (used_snoc he).mp hu with hu | ⟨hc, hr'⟩
      · exact hbefore _ (by cases part <;> simp) (h.spent part hu)
      · cases part with
        | publicPart =>
          obtain rfl : c = .preprocessPublicData := hc
          obtain rfl : r = .ok true := hr' rfl
          exact (preprocessPublicData_uses hrun).1
        | privatePart =>
          obtain rfl : c = .preprocessPrivateData := hc
          exact (preprocessPrivateData_uses hrun hr).2.2.1
    · rcases (used_snoc he).mp hu with hu | ⟨hc, _⟩
      · obtain ⟨hcs, hd⟩ := h.described hu
        exact ⟨held_after_call hrun (.inl rfl) hcs, held_after_call hrun (.inr (.inl rfl)) hd⟩
      · obtain rfl : c = .preprocessPrivateData := hc
        obtain ⟨hcs, hd, _⟩ := preprocessPrivateData_uses hrun hr
        exact ⟨hcs, hd⟩
    · rcases (dropped_snoc he).mp hd with hd | ⟨hc, hr'⟩
      · exact hbefore _ (by simp) (h.dropped hd)
      · obtain rfl : c = .preprocessPrivateData := hc
        obtain rfl : r = .ok true := hr'
        simpa using (preprocessPrivateData_uses hrun hr).2.2.2
    · rw [dropped_snoc he, not_or, not_and] at hd
      by_cases hc : c = .preprocessPrivateData
      · subst hc
        rw [(preprocessPrivateData_uses hrun hr).2.2.2]
        exact decide_eq_true (hd.2 rfl)
      · rcases (used_snoc he).mp hu with hu | ⟨hc', hr'⟩
        · exact held_after_call hrun (.inr (.inr ⟨rfl, hc⟩)) (h.kept part hu hd.1)
        · cases part with
          | publicPart =>
            obtain rfl : c = .preprocessPublicData := hc'
            obtain rfl : r = .ok true := hr' rfl
            exact (preprocessPublicData_uses hrun).2
          | privatePart => exact (hc hc').elim

theorem tableUse_of_history {es : List (OpenEvent L)} (h : OpenHistory d s es t) :
    TableUse es t :=
  h.history (tableUse_nil rfl) fun _ _ _ _ _ hpast hrun hr => tableUse_step hpast hrun hr

/-- What a watched look finds at a part that is not there. -/
def partFault (s : Session L) (part : TablePart) : Fault :=
  if s.prover.held (.engaged .assignmentTable) then .movedFrom part
  else .emptyOptional .assignmentTable

theorem lookAt_missingPart (hv : v.watched = true) {part : TablePart}
    (hpart : s.prover.held (.part part) = false) :
    ((v.lookAt (.move part) : Step L Unit).run s).1 = .error (.undefined (partFault s part)) := by
  unfold Evaluation.lookAt Prover.derefTable partFault
  rw [Action.run_bind, Prover.run_deref]
  cases hslot : s.prover.assignmentTable with
  | none => simp [Prover.held, Prover.isEngaged, hslot]
  | some slot =>
    have hmoved : slot.isMoved part = true := by
      cases part <;> simpa [Prover.held, Prover.hasPart, TableSlot.isMoved, hslot] using hpart
    simp [Prover.held, Prover.isEngaged, hslot, Evaluation.ofPart, Prover.ofPart, hv, hmoved]

/-- The only argument that is missing is met in any order. -/
theorem lookAtAll_missing {arguments : List Argument} {a : Argument} {e : Stop}
    (ha : a ∈ arguments) (he : ((v.lookAt a : Step L Unit).run s).1 = .error e)
    (hothers : ∀ b ∈ arguments, b ≠ a → v.Finds s b) :
    ((v.lookAtAll arguments : Step L Unit).run s).1 = .error e := by
  induction arguments with
  | nil => simp at ha
  | cons b arguments ih =>
    rw [Evaluation.lookAtAll, Action.run_bind]
    by_cases hb : b = a
    · subst hb
      rcases hrun : (v.lookAt b : Step L Unit).run s with ⟨r, t⟩
      rw [hrun] at he
      obtain rfl : r = .error e := he
      rfl
    · have hfound : (v.lookAt b : Step L Unit).run s = (.ok (), s) :=
        hothers b List.mem_cons_self hb
      rw [hfound]
      refine ih ((List.mem_cons.mp ha).resolve_left fun h => hb h.symm) fun c hc => ?_
      exact hothers c (List.mem_cons_of_mem b hc)

theorem preprocessPublicData_missing (hv : v.watched = true)
    (hpart : s.prover.held (.part .publicPart) = false) :
    ((v.preprocessPublicData : Step L Bool).run s).1 =
      .error (.undefined (partFault s .publicPart)) := by
  unfold Evaluation.preprocessPublicData Prover.derefTable partFault
  rw [Action.run_bind, Prover.run_deref]
  cases hslot : s.prover.assignmentTable with
  | none => simp [Prover.held, Prover.isEngaged, hslot]
  | some slot =>
    have hmoved : slot.publicMoved = true := by
      simpa [Prover.held, Prover.hasPart, hslot] using hpart
    simp [Prover.held, Prover.isEngaged, hslot, Evaluation.ofPart, Prover.ofPart, hv, hmoved,
      Action.run_bind]

theorem preprocessPrivateData_missing (hv : v.watched = true)
    (hpart : s.prover.held (.part .privatePart) = false)
    (hcs : s.prover.held (.engaged .constraintSystem) = true)
    (hd : s.prover.held (.engaged .tableDescription) = true) :
    ((v.preprocessPrivateData : Step L Bool).run s).1 =
      .error (.undefined (partFault s .privatePart)) := by
  have hlook : ((v.evaluate [.member .constraintSystem, .move .privatePart,
      .member .tableDescription] : Step L Unit).run s).1 =
      .error (.undefined (partFault s .privatePart)) := by
    have hperm := v.perm [.member .constraintSystem, .move .privatePart, .member .tableDescription]
    refine lookAtAll_missing (hperm.mem_iff.mpr (by simp)) (lookAt_missingPart hv hpart) ?_
    intro b hb hne
    have hmem := hperm.mem_iff.mp hb
    simp only [List.mem_cons, List.not_mem_nil, or_false] at hmem
    rcases hmem with rfl | rfl | rfl
    · exact Evaluation.finds_member hcs
    · exact (hne rfl).elim
    · exact Evaluation.finds_member hd
  unfold Evaluation.preprocessPrivateData
  rw [Action.run_bind]
  rcases hrun : (v.evaluate [.member .constraintSystem, .move .privatePart,
    .member .tableDescription] : Step L Unit).run s with ⟨r, u⟩
  rw [hrun] at hlook
  obtain rfl : r = _ := hlook
  rfl

/-- A part that has been used is used again only after another table has been read: a call that
stops at moved-out parts stops there, or at the table that `preprocess_private_data` has dropped. -/
theorem preprocessed_again (part : TablePart) {es : List (OpenEvent L)}
    (h : OpenHistory d s es t) (hused : Used part es ∨ Dropped es) (hv : v.watched = true) :
    ((v.run d (part.consumer L)).run t).1 = .error (.undefined (.movedFrom part)) ∧ ¬ Dropped es ∨
      ((v.run d (part.consumer L)).run t).1 =
        .error (.undefined (.emptyOptional .assignmentTable)) ∧ Dropped es := by
  have huse := tableUse_of_history h
  have hpart : t.prover.held (.part part) = false := by
    rcases hused with hused | hdropped
    · exact huse.spent part hused
    · have hnone := huse.dropped hdropped
      cases part <;> simp_all [Prover.held, Prover.isEngaged, Prover.hasPart]
  have hstop : ((v.run d (part.consumer L)).run t).1 = .error (.undefined (partFault t part)) := by
    cases part with
    | publicPart => exact preprocessPublicData_missing hv hpart
    | privatePart =>
      have hprivate : Used .privatePart es := by
        rcases hused with hused | ⟨v', hdropped⟩
        · exact hused
        · exact ⟨v', .ok true, hdropped⟩
      obtain ⟨hcs, hd⟩ := huse.described hprivate
      exact preprocessPrivateData_missing hv hpart hcs hd
  rw [hstop]
  by_cases hdropped : Dropped es
  · refine Or.inr ⟨?_, hdropped⟩
    simp [partFault, huse.dropped hdropped]
  · refine Or.inl ⟨?_, hdropped⟩
    simp [partFault, huse.kept part (hused.resolve_right hdropped) hdropped]

/-- Reading a circuit and a table, then both preprocessings. -/
theorem history_picky : ∃ t : Session .picky, History .reliable pickySession
    [(.operation (.readCircuit ['c']), .ok true),
      (.operation (.readAssignmentTable ['t']), .ok true),
      (.preprocessPublicData, .ok true), (.preprocessPrivateData, .ok true)] t := by
  have hplay : (play (Call.run .reliable) CameBack
      [.operation (.readCircuit ['c']), .operation (.readAssignmentTable ['t']),
        .preprocessPublicData, .preprocessPrivateData] pickySession).map Prod.fst =
      some [.ok true, .ok true, .ok true, .ok true] := by decide +kernel
  obtain ⟨⟨rs, t⟩, hplay, rfl⟩ := Option.map_eq_some_iff.mp hplay
  exact ⟨t, trace_of_play hplay⟩

theorem history_coherent_picky : ∃ (es : List (Event .picky)) (t : Session .picky),
    History .reliable pickySession es t ∧ t.prover.Coherent := by
  obtain ⟨t, h⟩ := history_picky
  exact ⟨_, t, h, history_coherent fresh_pickySession h⟩

/-- A session that goes on where the watched one stops: the second preprocessing works with what
the first has left of the table. -/
def unwatched : Evaluation := { Evaluation.first .common with watched := false }

def watching : Evaluation := .first .common

theorem preprocessed_again_picky : ∃ (es : List (OpenEvent .picky)) (t : Session .picky),
    OpenHistory .reliable pickySession es t ∧
      (⟨unwatched, .preprocessPublicData⟩, .ok true) ∈ sinceTable es ∧
      (((watching.run .reliable (TablePart.publicPart.consumer .picky)).run t).1 =
          .error (.undefined (.movedFrom .publicPart)) ∧ ¬ Dropped es ∨
        ((watching.run .reliable (TablePart.publicPart.consumer .picky)).run t).1 =
          .error (.undefined (.emptyOptional .assignmentTable)) ∧ Dropped es) := by
  let calls : List (Invocation .picky) :=
    [⟨unwatched, .operation (.readCircuit ['c'])⟩,
      ⟨unwatched, .operation (.readAssignmentTable ['t'])⟩,
      ⟨unwatched, .preprocessPublicData⟩, ⟨unwatched, .preprocessPublicData⟩]
  have hplay : (play (Invocation.run .reliable) CameBack calls pickySession).map Prod.fst =
      some [.ok true, .ok true, .ok true, .ok true] := by decide +kernel
  obtain ⟨⟨rs, t⟩, hplay, rfl⟩ := Option.map_eq_some_iff.mp hplay
  have hmem : ((⟨unwatched, .preprocessPublicData⟩, .ok true) : OpenEvent .picky) ∈
      sinceTable (calls.zip [.ok true, .ok true, .ok true, .ok true]) := by
    simp [calls, sinceTable, List.rtakeWhile, isTableRead]
  refine ⟨_, t, trace_of_play hplay, hmem, ?_⟩
  exact preprocessed_again .publicPart (trace_of_play hplay) (.inl ⟨unwatched, hmem⟩) rfl

end ProofProducer
