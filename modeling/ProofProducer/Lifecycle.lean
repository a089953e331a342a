import ProofProducer.Shared.Scripts
import ProofProducer.Evaluation
import ProofProducer.FailedOperations

/-!
# One object, any sequence of calls

A caller may call the methods of `Prover` in any order, any number of times, and go on after a
false or an exception. Under every evaluation a method follows a script over the optional members
and the parts of the table; what the scripts allow is what can happen to an object.
-/

namespace ProofProducer

open Effects Files Codecs Scripts

set_option autoImplicit false

variable {L : Crypto3} {d : Disk} {α β M : Type} {s t : Session L} {v : Evaluation}

inductive Call (L : Crypto3) where
  | operation (op : Operation)
  | createLpcScheme
  | preprocessPublicData
  | preprocessPrivateData
  | verify (proof : L.Proof)

def Call.run (d : Disk) : Call L → Step L Bool
  | .operation op => op.run L d
  | .createLpcScheme => do
    Prover.createLpcScheme
    return true
  | .preprocessPublicData => Prover.preprocessPublicData
  | .preprocessPrivateData => Prover.preprocessPrivateData
  | .verify proof => Prover.verify proof

/-- The call with its arguments in any order. -/
def Evaluation.run (v : Evaluation) (d : Disk) : Call L → Step L Bool
  | .operation (.verifyFromFile proofFile) => v.verifyFromFile proofFile
  | .operation (.generateToFile proofFile jsonFile skip) =>
    v.generateToFile d proofFile jsonFile skip
  | .operation op => op.run L d
  | .createLpcScheme => do
    Prover.createLpcScheme
    return true
  | .preprocessPublicData => v.preprocessPublicData
  | .preprocessPrivateData => v.preprocessPrivateData
  | .verify proof => v.verify proof

/-- A call that comes back does the same under every evaluation. -/
theorem agrees_call (c : Call L) : Agrees (c.run d) (v.run d c) := by
  cases c with
  | createLpcScheme => exact .refl _
  | preprocessPublicData => exact Evaluation.agrees_preprocessPublicData
  | preprocessPrivateData => exact Evaluation.agrees_preprocessPrivateData
  | verify proof => exact Evaluation.agrees_verify proof
  | operation op =>
    cases op with
    | verifyFromFile proofFile => exact Evaluation.agrees_verifyFromFile proofFile
    | generateToFile proofFile jsonFile skip =>
      exact Evaluation.agrees_generateToFile proofFile jsonFile skip
    | _ => exact .refl _

def Member.Value (L : Crypto3) : Member → Type
  | .publicPreprocessedData => L.PublicPreprocessedData
  | .commonData => L.CommonData
  | .privatePreprocessedData => L.PrivatePreprocessedData
  | .publicInputs => L.PublicInputs
  | .tableDescription => L.TableDescription
  | .constraintSystem => L.ConstraintSystem
  | .assignmentTable => TableSlot L
  | .lpcScheme => L.LpcScheme

namespace Prover

def get (p : Prover L) : (m : Member) → Option (m.Value L)
  | .publicPreprocessedData => p.publicPreprocessedData
  | .commonData => p.commonData
  | .privatePreprocessedData => p.privatePreprocessedData
  | .publicInputs => p.publicInputs
  | .tableDescription => p.tableDescription
  | .constraintSystem => p.constraintSystem
  | .assignmentTable => p.assignmentTable
  | .lpcScheme => p.lpcScheme

def emplace (p : Prover L) : (m : Member) → m.Value L → Prover L
  | .publicPreprocessedData, v => { p with publicPreprocessedData := some v }
  | .commonData, v => { p with commonData := some v }
  | .privatePreprocessedData, v => { p with privatePreprocessedData := some v }
  | .publicInputs, v => { p with publicInputs := some v }
  | .tableDescription, v => { p with tableDescription := some v }
  | .constraintSystem, v => { p with constraintSystem := some v }
  | .assignmentTable, v => { p with assignmentTable := some v }
  | .lpcScheme, v => { p with lpcScheme := some v }

end Prover

def Prover.held (p : Prover L) : Held Resource
  | .engaged m => p.isEngaged m
  | .part part => p.hasPart part

/-- The member that a fault reports as missing. -/
def Stop.lacks : Stop → Option Resource
  | .undefined (.emptyOptional m) => some (.engaged m)
  | _ => none

def Argument.need : Argument → Need Resource
  | .member m => ⟨.engaged m, []⟩
  | .common => ⟨.engaged .commonData, [.engaged .publicPreprocessedData]⟩
  | .move _ => ⟨.engaged .assignmentTable, []⟩

/-- What a call asks for before it takes its arguments. -/
def asks (arguments : List Argument) : Atom Resource := .needs (arguments.map Argument.need)

def needs (m : Member) : Atom Resource := asks [.member m]

def gives (m : Member) : Atom Resource := .update [.engaged m] []

def readTableScript : List (Atom Resource) :=
  [.update [.engaged .tableDescription, .engaged .assignmentTable, .part .publicPart,
    .part .privatePart] []]

def schemeScript : List (Atom Resource) :=
  [needs .tableDescription, .update [] [.engaged .lpcScheme], gives .lpcScheme]

def moveScript (part : TablePart) : List (Atom Resource) :=
  [needs .assignmentTable, .update [] [.part part]]

def preprocessPublicScript : List (Atom Resource) :=
  [needs .assignmentTable, gives .publicInputs] ++ schemeScript ++
    [asks [.member .constraintSystem, .move .publicPart, .member .tableDescription,
      .member .lpcScheme], needs .constraintSystem] ++ moveScript .publicPart ++
    [needs .tableDescription, needs .lpcScheme,
      .update [.engaged .lpcScheme, .engaged .publicPreprocessedData] []]

def preprocessPrivateScript : List (Atom Resource) :=
  [asks [.member .constraintSystem, .move .privatePart, .member .tableDescription],
    needs .constraintSystem] ++ moveScript .privatePart ++ [needs .tableDescription,
    .update [.engaged .privatePreprocessedData]
      [.engaged .assignmentTable, .part .publicPart, .part .privatePart]]

def verifyScript : List (Atom Resource) :=
  [asks [.common, .member .tableDescription, .member .constraintSystem, .member .lpcScheme],
    asks [.common], needs .tableDescription, needs .constraintSystem, needs .lpcScheme]

def acceptScript (skipVerification : Bool) : List (Atom Resource) :=
  [asks [.member .publicPreprocessedData, .member .privatePreprocessedData,
      .member .tableDescription, .member .constraintSystem, .member .lpcScheme],
    needs .publicPreprocessedData, needs .privatePreprocessedData, needs .tableDescription,
    needs .constraintSystem, needs .lpcScheme, gives .lpcScheme] ++
      if skipVerification then [] else verifyScript

def publishScript : List (Atom Resource) :=
  [needs .lpcScheme,
    asks [.member .tableDescription, .member .publicInputs, .member .constraintSystem],
    needs .tableDescription, needs .publicInputs, needs .constraintSystem]

def Operation.script : Operation → List (Atom Resource)
  | .readCircuit _ => [gives .constraintSystem]
  | .readAssignmentTable _ => readTableScript
  | .readAssignmentDescription _ => [gives .tableDescription]
  | .readPreprocessedCommonDataFromFile _ => [gives .commonData]
  | .readPublicPreprocessedDataFromFile _ => [gives .publicPreprocessedData]
  | .readCommitmentSchemeFromFile _ => [gives .lpcScheme]
  | .savePreprocessedCommonDataToFile _ => [needs .publicPreprocessedData]
  | .savePublicPreprocessedDataToFile _ => [needs .publicPreprocessedData]
  | .saveCommitmentStateToFile _ => [needs .lpcScheme]
  | .saveAssignmentDescription _ => [needs .tableDescription]
  | .verifyFromFile _ => schemeScript ++ verifyScript
  | .generateToFile _ _ skip => acceptScript skip ++ publishScript
  | .generateAggregatedChallengeToFile _ _ => []

def Call.script : Call L → List (Atom Resource)
  | .operation op => op.script
  | .createLpcScheme => schemeScript
  | .preprocessPublicData => preprocessPublicScript
  | .preprocessPrivateData => preprocessPrivateScript
  | .verify _ => verifyScript

abbrev Follows (P : Session L → Prop) (done : α → Prop) (script : List (Atom Resource))
    (m : Step L α) : Prop :=
  Obeys (fun s : Session L => s.prover.held) Stop.lacks P done script m

abbrev Anywhere (_ : Session L) : Prop := True

variable {P : Session L → Prop} {done : α → Prop}

theorem mapError_error {r : Except Exception α} {e : Stop}
    (h : r.mapError Stop.thrown = .error e) : Stop.lacks e = none := by
  cases r with
  | error e' =>
    rw [← Except.error.inj h]
    rfl
  | ok a => simp [Except.mapError] at h

theorem follows_external (r : Except Exception α) :
    Follows P done [] (Prover.external r : Step L α) :=
  obeys_silent (fun _ _ => rfl) fun _ _ _ he => mapError_error he

theorem follows_reads (f : FileSystem → Except Exception α) :
    Follows P done [] (Prover.reads f : Step L α) :=
  obeys_silent (fun _ _ => rfl) fun _ _ _ he => mapError_error he

theorem follows_onFiles (m : Action FileSystem Exception α) :
    Follows P done [] (Prover.onFiles m : Step L α) := by
  refine obeys_silent (fun s _ => ?_) fun s e _ he => ?_
  · exact congrArg Prover.held (keepsProver_onFiles m s.prover s rfl)
  · obtain ⟨p, fs⟩ := s
    rw [Prover.run_onFiles] at he
    exact mapError_error he

theorem follows_self {done : Prover L → Prop} :
    Follows P done [] (Prover.self : Step L (Prover L)) :=
  obeys_silent (fun _ _ => rfl) fun s e _ he => by simp [Prover.run_self] at he

/-- What a look at one argument or at several says about them. -/
structure Looks (m : Step L α) (arguments : List Argument) (s : Session L) : Prop where
  state : (m.run s).2 = s
  faulty : ∀ e, (m.run s).1 = .error e → ∃ f, e = .undefined f
  found : ∀ {x}, (m.run s).1 = .ok x → ∀ a ∈ arguments, a.need.met s.prover.held = true
  missing : ∀ e r, (m.run s).1 = .error e → Stop.lacks e = some r →
    ∃ a ∈ arguments, a.need.resource = r ∧ a.need.met s.prover.held = false

theorem follows_looks {m : Step L α} {arguments : List Argument}
    (hlooks : ∀ s, Looks m arguments s) : Follows P done [asks arguments] m := by
  refine obeys_needs (fun s _ => by rw [(hlooks s).state]) (fun s x _ hok n hn => ?_)
    fun s e r _ he hr => ?_
  · obtain ⟨a, ha, rfl⟩ := List.mem_map.mp hn
    exact (hlooks s).found hok a ha
  · obtain ⟨a, ha, hmissing⟩ := (hlooks s).missing e r he hr
    exact ⟨a.need, List.mem_map_of_mem ha, hmissing⟩

theorem met_common (p : Prover L) :
    Argument.common.need.met p.held = p.heldCommonData.isSome := by
  cases hdata : p.publicPreprocessedData <;> cases hcommon : p.commonData <;>
    simp [Argument.need, Need.met, Prover.held, Prover.isEngaged, Prover.heldCommonData, hdata,
      hcommon]

/-- Reading a member, or what is held in its place. -/
theorem looks_deref {m : Member} {get : Prover L → Option α} {a : Argument}
    (hresource : a.need.resource = .engaged m)
    (hget : ∀ p : Prover L, a.need.met p.held = (get p).isSome) (s : Session L) :
    Looks (Prover.deref m get) [a] s := by
  have hrun := Prover.run_deref m get s
  cases hg : get s.prover with
  | none =>
    have hmet : a.need.met s.prover.held = false := by rw [hget, hg]; rfl
    rw [hg] at hrun
    refine ⟨rfl, fun e he => ?_, by simp [hrun],
      fun e r he hr => ⟨a, List.mem_singleton_self a, ?_, hmet⟩⟩
    all_goals rw [hrun] at he
    · exact ⟨_, (Except.error.inj he).symm⟩
    · rw [← Except.error.inj he] at hr
      rw [hresource, ← Option.some.inj hr]
  | some x =>
    have hmet : a.need.met s.prover.held = true := by rw [hget, hg]; rfl
    rw [hg] at hrun
    refine ⟨rfl, by simp [hrun], fun _ b hb => ?_, by simp [hrun]⟩
    rw [List.mem_singleton.mp hb]
    exact hmet

theorem follows_deref {m : Member} {get : Prover L → Option α}
    (hget : ∀ p, p.isEngaged m = (get p).isSome) :
    Follows P done [needs m] (Prover.deref m get) :=
  follows_looks  <| looks_deref rfl fun p => by
    simp [Argument.need, Need.met, Prover.held, hget]

theorem follows_update {f : Prover L → Prover L} {given taken : List Resource}
    {done : Unit → Prop}
    (hf : ∀ s, P s → (f s.prover).held = (Atom.update given taken).after s.prover.held) :
    Follows P done [.update given taken] (Prover.update f) :=
  obeys_update hf

/-- An object that gains some resources and is otherwise the same. -/
theorem held_given {p q : Prover L} {given : List Resource}
    (hgiven : ∀ r ∈ given, q.held r = true) (hkept : ∀ r, r ∉ given → q.held r = p.held r) :
    q.held = (Atom.update given []).after p.held := by
  funext r
  by_cases hr : r ∈ given
  · simp [Atom.after, hr, hgiven r hr]
  · simp [Atom.after, hr, hkept r hr]

theorem isEngaged_emplace (p : Prover L) {m : Member} (x : m.Value L) (m' : Member) :
    (p.emplace m x).isEngaged m' = (decide (m' = m) || p.isEngaged m') := by
  cases m <;> cases m' <;> rfl

/-- A table comes with its parts, any other member with nothing else. -/
theorem held_emplace {m : Member} (hm : m ≠ .assignmentTable) (p : Prover L) (x : m.Value L) :
    (p.emplace m x).held = (Atom.update [.engaged m] []).after p.held := by
  funext r
  rcases r with m' | part
  · simp [Prover.held, Atom.after, isEngaged_emplace]
  · cases m with
    | assignmentTable => exact (hm rfl).elim
    | _ => simp [Prover.held, Prover.hasPart, Prover.emplace, Atom.after]

theorem follows_readMember {codec : Codec Exception M} {make : M → Except Exception α}
    {emplace : α → Prover L → Prover L} {path : Path} {given : List Resource}
    (hheld : ∀ a p, (emplace a p).held = (Atom.update given []).after p.held) :
    Follows Anywhere (· = true) [.update given []]
      (Prover.readMember codec make emplace path) := by
  unfold Prover.readMember
  refine obeys_quiet (follows_reads _) fun m => ?_
  cases m with
  | none => exact obeys_early (by simp)
  | some m =>
    refine obeys_quiet (follows_external _) fun a => ?_
    exact obeys_cons (follows_update fun s _ => hheld a s.prover) fun _ => obeys_pure true

theorem follows_readOne {codec : Codec Exception M} {m : Member}
    {make : M → Except Exception (m.Value L)} {emplace : m.Value L → Prover L → Prover L}
    {path : Path} (hm : m ≠ .assignmentTable) (hemplace : ∀ x p, emplace x p = p.emplace m x) :
    Follows Anywhere (· = true) [gives m] (Prover.readMember codec make emplace path) := by
  refine follows_readMember fun x p => ?_
  rw [hemplace]
  exact held_emplace hm p x

theorem follows_readAssignmentTable (path : Path) :
    Follows Anywhere (· = true) readTableScript
      (Prover.readAssignmentTable path : Step L Bool) := by
  refine follows_readMember fun a p => held_given (fun r hr => ?_) fun r hr => ?_
  · simp only [List.mem_cons, List.not_mem_nil, or_false] at hr
    rcases hr with rfl | rfl | rfl | rfl <;> rfl
  · rcases r with m | part
    · cases m <;> simp_all [Prover.held, Prover.isEngaged]
    · cases part <;> simp at hr

theorem follows_saveObject {codec : Codec Exception M} {m : Member} {get : Prover L → Option α}
    {fill : α → Except Exception M} {path : Path} {done : Bool → Prop}
    (hget : ∀ p, p.isEngaged m = (get p).isSome) :
    Follows P done [needs m] (Prover.saveObject d codec (Prover.deref m get) fill path) := by
  unfold Prover.saveObject
  refine obeys_cons (follows_deref hget) fun a => ?_
  exact obeys_quiet (follows_external _) fun v => follows_onFiles _

theorem held_scheme (p : Prover L) (scheme : L.LpcScheme) :
    ({ p with lpcScheme := some scheme } : Prover L).held =
      (Atom.update [.engaged .lpcScheme] []).after p.held :=
  held_emplace (m := .lpcScheme) nofun p scheme

theorem held_noScheme (p : Prover L) :
    ({ p with lpcScheme := none } : Prover L).held =
      (Atom.update [] [.engaged .lpcScheme]).after p.held := by
  funext r
  rcases r with m | part
  · cases m <;> simp [Prover.held, Prover.isEngaged, Atom.after]
  · simp [Prover.held, Prover.hasPart, Atom.after]

theorem follows_createLpcScheme {done : Unit → Prop} :
    Follows P done schemeScript (Prover.createLpcScheme : Step L Unit) := by
  unfold Prover.createLpcScheme
  refine obeys_cons (follows_deref fun _ => rfl) fun description => ?_
  cases Prover.ceilLog2 (L.rowsAmount description) with
  | none => exact obeys_stop rfl
  | some n =>
    refine obeys_quiet follows_self fun p => ?_
    refine obeys_quiet (follows_external _) fun params => ?_
    refine obeys_cons (follows_update fun s _ => held_noScheme s.prover) fun _ => ?_
    refine obeys_quiet (follows_external _) fun scheme => ?_
    exact follows_update fun s _ => held_scheme s.prover scheme

/-- What comes after the table has been looked at. -/
theorem follows_withTable {f : TableSlot L → Step L α} {script : List (Atom Resource)}
    (hf : ∀ slot, Follows (fun s => s.prover.assignmentTable = some slot) done script (f slot)) :
    Follows P done (needs .assignmentTable :: script) (Prover.derefTable >>= f) := by
  refine obeys_bind_of (A := [needs .assignmentTable])
    (Q := fun slot s => s.prover.assignmentTable = some slot)
    (follows_deref fun _ => rfl) (fun s slot _ h _ => ?_) (fun slot _ => hf slot)
    fun _ h => (h trivial).elim
  unfold Prover.derefTable at h ⊢
  rw [Prover.run_deref] at h ⊢
  cases hslot : s.prover.assignmentTable with
  | none => simp [hslot] at h
  | some slot' => simpa [hslot] using h

theorem run_ofPart_state (part : TablePart) (moved : Bool) (a : α) (s : Session L) :
    ((v.ofPart part moved a : Step L α).run s).2 = s := by
  unfold Evaluation.ofPart Prover.ofPart
  split <;> rfl

theorem error_ofPart {part : TablePart} {moved : Bool} {a : α} {e : Stop}
    (h : ((v.ofPart part moved a : Step L α).run s).1 = .error e) :
    e = .undefined (.movedFrom part) := by
  unfold Evaluation.ofPart Prover.ofPart at h
  split at h
  · exact (Except.error.inj h).symm
  · simp at h

theorem follows_ofPart (part : TablePart) (moved : Bool) (a : α) :
    Follows P done [] (v.ofPart part moved a : Step L α) :=
  obeys_silent (fun s _ => by rw [run_ofPart_state]) fun _ _ _ he => by rw [error_ofPart he]; rfl

/-- What comes after a part has been read. -/
theorem follows_withPart {part : TablePart} {moved : Bool} {a : β} {f : β → Step L α}
    {script : List (Atom Resource)} (hf : ∀ a, Follows P done script (f a)) :
    Follows P done script (v.ofPart part moved a >>= f) := by
  refine obeys_bind_of (A := []) (Q := fun _ s => P s) (follows_ofPart part moved a)
    (fun s b hs _ _ => ?_) (fun a _ => hf a) fun _ h => (h trivial).elim
  rw [run_ofPart_state]
  exact hs

theorem looks_lookAt (a : Argument) (s : Session L) : Looks (v.lookAt a) [a] s := by
  cases a with
  | member m =>
    unfold Evaluation.lookAt
    refine looks_deref (a := .member m) rfl (fun p => ?_) s
    cases h : p.isEngaged m <;> simp [Argument.need, Need.met, Prover.held, h]
  | common =>
    unfold Evaluation.lookAt
    refine looks_deref (a := .common) rfl (fun p => ?_) s
    rw [met_common, Option.isSome_map]
  | move part =>
    have htable : (Prover.derefTable : Step L (TableSlot L)).run s = _ := Prover.run_deref _ _ s
    cases hslot : s.prover.assignmentTable with
    | none =>
      have hrun : (v.lookAt (.move part)).run s =
          (.error (.undefined (.emptyOptional .assignmentTable)), s) := by
        unfold Evaluation.lookAt
        rw [Action.run_bind, htable, hslot]
      refine ⟨by rw [hrun], fun e he => ?_, by simp [hrun],
        fun e r he hr => ⟨_, List.mem_singleton_self _, ?_⟩⟩
      · rw [hrun] at he
        exact ⟨_, (Except.error.inj he).symm⟩
      rw [hrun] at he
      rw [← Except.error.inj he] at hr
      rw [← Option.some.inj hr]
      exact ⟨rfl, by simp [Argument.need, Need.met, Prover.held, Prover.isEngaged, hslot]⟩
    | some slot =>
      have hrun : (v.lookAt (.move part)).run s =
          (v.ofPart part (slot.isMoved part) ()).run s := by
        unfold Evaluation.lookAt
        rw [Action.run_bind, htable, hslot]
      refine ⟨by rw [hrun, run_ofPart_state], fun e he => ?_, fun _ b hb => ?_,
        fun e r he hr => ?_⟩
      · rw [hrun] at he
        exact ⟨_, error_ofPart he⟩
      · rw [List.mem_singleton.mp hb]
        simp [Argument.need, Need.met, Prover.held, Prover.isEngaged, hslot]
      · rw [hrun] at he
        rw [error_ofPart he] at hr
        simp [Stop.lacks] at hr

theorem looks_lookAtAll (arguments : List Argument) (s : Session L) :
    Looks (v.lookAtAll arguments) arguments s := by
  induction arguments with
  | nil =>
    refine ⟨rfl, fun e he => ?_, by simp, fun e r he => ?_⟩
    all_goals simp [Evaluation.lookAtAll] at he
  | cons a arguments ih =>
    have ha := looks_lookAt (v := v) a s
    rcases hrun : (v.lookAt a : Step L Unit).run s with ⟨r, t⟩
    obtain rfl : t = s := by rw [← ha.state, hrun]
    cases r with
    | error e =>
      have hall : (v.lookAtAll (a :: arguments)).run t = (.error e, t) := by
        rw [Evaluation.lookAtAll, Action.run_bind, hrun]
      refine ⟨by rw [hall], fun e' he => ?_, by simp [hall], fun e' r he hr => ?_⟩
      all_goals rw [hall, ← hrun] at he
      · exact ha.faulty e' he
      obtain ⟨b, hb, hmissing⟩ := ha.missing e' r he hr
      exact ⟨b, List.mem_cons.mpr (.inl (List.mem_singleton.mp hb)), hmissing⟩
    | ok u =>
      have hall : (v.lookAtAll (a :: arguments)).run t = (v.lookAtAll arguments).run t := by
        rw [Evaluation.lookAtAll, Action.run_bind_ok hrun]
      refine ⟨by rw [hall, ih.state], fun e he => ih.faulty e (by rw [← hall]; exact he),
        fun hok b hb => ?_, fun e r he hr => ?_⟩
      · rcases List.mem_cons.mp hb with rfl | hb
        · exact ha.found (by rw [hrun]) b (List.mem_singleton_self b)
        · exact ih.found (by rw [← hall]; exact hok) b hb
      · obtain ⟨b, hb, hmissing⟩ := ih.missing e r (by rw [← hall]; exact he) hr
        exact ⟨b, List.mem_cons_of_mem a hb, hmissing⟩

theorem looks_evaluate (arguments : List Argument) (s : Session L) :
    Looks (v.evaluate arguments) arguments s := by
  have hlooks : Looks (v.evaluate arguments) (v.arrange arguments) s :=
    looks_lookAtAll (v.arrange arguments) s
  refine ⟨hlooks.state, hlooks.faulty, fun hok a ha => ?_, fun e r he hr => ?_⟩
  · exact hlooks.found hok a ((v.perm arguments).mem_iff.mpr ha)
  · obtain ⟨a, ha, hmissing⟩ := hlooks.missing e r he hr
    exact ⟨a, (v.perm arguments).mem_iff.mp ha, hmissing⟩

theorem follows_evaluate {done : Unit → Prop} (arguments : List Argument) :
    Follows P done [asks arguments] (v.evaluate arguments : Step L Unit) :=
  follows_looks (looks_evaluate arguments)

/-- A call that comes back has found its arguments. -/
theorem cameBack_evaluate {arguments : List Argument} {m : Step L α}
    (h : CameBack ((v.evaluate arguments >>= fun _ => m).run s).1) :
    (∀ a ∈ arguments, a.need.met s.prover.held = true) ∧
      (v.evaluate arguments >>= fun _ => m).run s = m.run s := by
  have hlooks := looks_evaluate (v := v) arguments s
  rw [Action.run_bind] at h ⊢
  rcases hrun : (v.evaluate arguments : Step L Unit).run s with ⟨r, t⟩
  obtain rfl : t = s := by rw [← hlooks.state, hrun]
  rw [hrun] at h
  cases r with
  | error e =>
    obtain ⟨f, rfl⟩ := hlooks.faulty e (by rw [hrun])
    exact h.elim
  | ok u => exact ⟨hlooks.found (by rw [hrun]), rfl⟩

/-- What comes after the arguments have been looked at. -/
theorem follows_arguments {arguments : List Argument} {m : Step L α}
    {script : List (Atom Resource)} (hm : Follows Anywhere done script m) :
    Follows P done (asks arguments :: script) (v.evaluate arguments >>= fun _ => m) :=
  obeys_cons (follows_evaluate arguments) fun _ => hm

theorem held_slot {p : Prover L} {slot : TableSlot L} {table : L.AssignmentTable}
    {part : TablePart} {publicMoved privateMoved : Bool} (hslot : p.assignmentTable = some slot)
    (hpublic : publicMoved = (slot.publicMoved || part == .publicPart))
    (hprivate : privateMoved = (slot.privateMoved || part == .privatePart)) :
    ({ p with assignmentTable := some ⟨table, publicMoved, privateMoved⟩ } : Prover L).held =
      (Atom.update [] [.part part]).after p.held := by
  funext r
  rcases r with m | other
  · cases m <;> simp [Prover.held, Prover.isEngaged, Atom.after, hslot]
  · rw [hpublic, hprivate]
    cases other <;> cases part <;>
      simp [Prover.held, Prover.hasPart, Atom.after, hslot]

theorem follows_movePublicTable {done : L.PublicTable → Prop} :
    Follows P done (moveScript .publicPart) (v.movePublicTable : Step L L.PublicTable) := by
  unfold Evaluation.movePublicTable
  refine follows_withTable fun slot => ?_
  refine follows_withPart fun a => ?_
  refine obeys_cons (follows_update fun s hs => ?_) fun _ => obeys_pure _
  exact held_slot hs (by simp) (by simp)

theorem follows_movePrivateTable {done : L.PrivateTable → Prop} :
    Follows P done (moveScript .privatePart) (v.movePrivateTable : Step L L.PrivateTable) := by
  unfold Evaluation.movePrivateTable
  refine follows_withTable fun slot => ?_
  refine follows_withPart fun a => ?_
  refine obeys_cons (follows_update fun s hs => ?_) fun _ => obeys_pure _
  exact held_slot hs (by simp) (by simp)

theorem held_publicInputs (p : Prover L) (inputs : L.PublicInputs) :
    ({ p with publicInputs := some inputs } : Prover L).held =
      (Atom.update [.engaged .publicInputs] []).after p.held :=
  held_emplace (m := .publicInputs) nofun p inputs

theorem held_publicData (p : Prover L) (scheme : L.LpcScheme) (data : L.PublicPreprocessedData) :
    ({ p with lpcScheme := some scheme, publicPreprocessedData := some data } : Prover L).held =
      (Atom.update [.engaged .lpcScheme, .engaged .publicPreprocessedData] []).after p.held := by
  apply held_given
  · intro r hr
    simp only [List.mem_cons, List.not_mem_nil, or_false] at hr
    rcases hr with rfl | rfl <;> rfl
  · intro r hr
    rcases r with m | part
    · cases m <;> first | rfl | simp at hr
    · rfl

theorem held_privateData (p : Prover L) (data : L.PrivatePreprocessedData) :
    ({ p with privatePreprocessedData := some data, assignmentTable := none } : Prover L).held =
      (Atom.update [.engaged .privatePreprocessedData]
        [.engaged .assignmentTable, .part .publicPart, .part .privatePart]).after p.held := by
  funext r
  rcases r with m | part
  · cases m <;> simp [Prover.held, Prover.isEngaged, Atom.after]
  · cases part <;> simp [Prover.held, Prover.hasPart, Atom.after]

theorem follows_preprocessPublicData :
    Follows Anywhere (fun _ => True) preprocessPublicScript
      (v.preprocessPublicData : Step L Bool) := by
  unfold Evaluation.preprocessPublicData
  refine follows_withTable fun slot => ?_
  refine follows_withPart fun inputs => ?_
  refine obeys_cons (follows_update fun s _ => held_publicInputs s.prover inputs) fun _ => ?_
  refine obeys_bind (A := schemeScript) follows_createLpcScheme fun _ => ?_
  refine follows_arguments ?_
  refine obeys_cons (follows_deref fun _ => rfl) fun cs => ?_
  refine obeys_bind (A := moveScript .publicPart) follows_movePublicTable fun publicTable => ?_
  refine obeys_cons (follows_deref fun _ => rfl) fun description => ?_
  refine obeys_cons (follows_deref fun _ => rfl) fun scheme => ?_
  refine obeys_quiet follows_self fun p => ?_
  refine obeys_quiet (follows_external _) fun r => ?_
  refine obeys_cons (follows_update fun s _ => ?_) fun _ => obeys_pure true
  exact held_publicData s.prover r.2 r.1

theorem follows_preprocessPrivateData :
    Follows Anywhere (fun _ => True) preprocessPrivateScript
      (v.preprocessPrivateData : Step L Bool) := by
  unfold Evaluation.preprocessPrivateData
  refine follows_arguments ?_
  refine obeys_cons (follows_deref fun _ => rfl) fun cs => ?_
  refine obeys_bind (A := moveScript .privatePart) follows_movePrivateTable fun privateTable => ?_
  refine obeys_cons (follows_deref fun _ => rfl) fun description => ?_
  refine obeys_quiet (follows_external _) fun data => ?_
  refine obeys_cons (follows_update fun s _ => ?_) fun _ => obeys_pure true
  exact held_privateData s.prover data

theorem follows_verify {done : Bool → Prop} (proof : L.Proof) :
    Follows Anywhere done verifyScript (v.verify proof) := by
  unfold Evaluation.verify
  rw [Prover.verify_eq]
  refine follows_arguments ?_
  refine obeys_cons (follows_looks (looks_deref (a := .common) rfl met_common)) fun common => ?_
  refine obeys_cons (follows_deref fun _ => rfl) fun description => ?_
  refine obeys_cons (follows_deref fun _ => rfl) fun cs => ?_
  exact obeys_cons (follows_deref fun _ => rfl) fun scheme => follows_external _

theorem follows_verifyFromFile (path : Path) :
    Follows Anywhere (· = true) (schemeScript ++ verifyScript)
      (v.verifyFromFile path : Step L Bool) := by
  unfold Evaluation.verifyFromFile
  refine obeys_bind follows_createLpcScheme fun _ => ?_
  refine obeys_quiet (follows_reads _) fun m => ?_
  cases m with
  | none => exact obeys_early (by simp)
  | some m => exact obeys_quiet (follows_external _) fun proof => follows_verify proof

theorem follows_acceptProof (path : Path) (skip : Bool) :
    Follows Anywhere (fun r => r.isSome = true) (acceptScript skip)
      (v.acceptProof path skip : Step L (Option L.Proof)) := by
  unfold Evaluation.acceptProof
  refine obeys_quiet (follows_onFiles _) fun writable => ?_
  cases writable with
  | false => exact obeys_early (by simp)
  | true =>
    simp only [Bool.not_true, Bool.false_eq_true, if_false]
    refine follows_arguments ?_
    refine obeys_cons (follows_deref fun _ => rfl) fun publicData => ?_
    refine obeys_cons (follows_deref fun _ => rfl) fun privateData => ?_
    refine obeys_cons (follows_deref fun _ => rfl) fun description => ?_
    refine obeys_cons (follows_deref fun _ => rfl) fun cs => ?_
    refine obeys_cons (follows_deref fun _ => rfl) fun scheme => ?_
    refine obeys_quiet (follows_external _) fun r => ?_
    refine obeys_cons (follows_update fun s _ => held_scheme s.prover r.2) fun _ => ?_
    cases skip with
    | true => exact obeys_pure (some r.1)
    | false =>
      refine obeys_bind (A := verifyScript) (B := []) (follows_verify r.1) fun accepted => ?_
      cases accepted with
      | true => exact obeys_pure (some r.1)
      | false => exact obeys_pure none

theorem follows_publishProof (proofFile jsonFile : Path) (proof : L.Proof) :
    Follows Anywhere (fun _ => False) publishScript
      (v.publishProof d proofFile jsonFile proof) := by
  unfold Evaluation.publishProof
  refine obeys_cons (follows_deref fun _ => rfl) fun scheme => ?_
  refine obeys_quiet (follows_external _) fun filled => ?_
  refine obeys_quiet (follows_onFiles _) fun res => ?_
  refine obeys_quiet (follows_onFiles _) fun l => ?_
  cases l with
  | none => exact obeys_early not_false
  | some l =>
    refine follows_arguments ?_
    refine obeys_cons (follows_deref fun _ => rfl) fun description => ?_
    refine obeys_cons (follows_deref fun _ => rfl) fun inputs => ?_
    refine obeys_cons (follows_deref fun _ => rfl) fun cs => ?_
    refine obeys_quiet (follows_external _) fun text => ?_
    exact obeys_quiet (follows_onFiles _) fun _ => obeys_pure res

theorem follows_generateToFile (proofFile jsonFile : Path) (skip : Bool) :
    Follows Anywhere (fun _ => False) (acceptScript skip ++ publishScript)
      (v.generateToFile d proofFile jsonFile skip : Step L Bool) := by
  unfold Evaluation.generateToFile
  refine obeys_bind_of (Q := fun _ _ => True) (follows_acceptProof proofFile skip)
    (fun _ _ _ _ _ => trivial) (fun r hr => ?_) fun r hr => ?_
  · obtain ⟨proof, rfl⟩ := Option.isSome_iff_exists.mp hr
    exact follows_publishProof proofFile jsonFile proof
  · cases r with
    | none => exact ⟨false, rfl, not_false⟩
    | some proof => exact (hr rfl).elim

theorem follows_generateAggregatedChallengeToFile (inputs : List Path) (path : Path)
    {done : Bool → Prop} :
    Follows Anywhere done []
      (Prover.generateAggregatedChallengeToFile d inputs path : Step L Bool) := by
  unfold Prover.generateAggregatedChallengeToFile
  split
  · exact obeys_pure false
  · refine obeys_quiet (follows_reads _) fun readable => ?_
    split
    · exact obeys_pure false
    · refine obeys_quiet (follows_reads _) fun transcript => ?_
      cases transcript with
      | none => exact obeys_pure false
      | some transcript => exact follows_onFiles _

theorem follows_operation (op : Operation) :
    Follows Anywhere (fun _ => False) op.script (v.run d (.operation op) : Step L Bool) := by
  have hreads : ∀ {script : List (Atom Resource)} {m : Step L Bool},
      Follows Anywhere (· = true) script m → Follows Anywhere (fun _ => False) script m :=
    fun h => h.weaken (fun _ h => h) fun _ h => h.elim
  cases op with
  | readCircuit path =>
    exact hreads (follows_readOne (m := .constraintSystem) nofun fun _ _ => rfl)
  | readAssignmentTable path => exact hreads (follows_readAssignmentTable path)
  | readAssignmentDescription path =>
    exact hreads (follows_readOne (m := .tableDescription) nofun fun _ _ => rfl)
  | readPreprocessedCommonDataFromFile path =>
    exact hreads (follows_readOne (m := .commonData) nofun fun _ _ => rfl)
  | readPublicPreprocessedDataFromFile path =>
    exact hreads (follows_readOne (m := .publicPreprocessedData) nofun fun _ _ => rfl)
  | readCommitmentSchemeFromFile path =>
    exact hreads (follows_readOne (m := .lpcScheme) nofun fun _ _ => rfl)
  | savePreprocessedCommonDataToFile path =>
    exact follows_saveObject fun p => by simp [Prover.isEngaged]
  | savePublicPreprocessedDataToFile path => exact follows_saveObject fun _ => rfl
  | saveCommitmentStateToFile path => exact follows_saveObject fun _ => rfl
  | saveAssignmentDescription path => exact follows_saveObject fun _ => rfl
  | verifyFromFile path => exact hreads (follows_verifyFromFile path)
  | generateToFile proofFile jsonFile skip => exact follows_generateToFile proofFile jsonFile skip
  | generateAggregatedChallengeToFile inputs path =>
    exact follows_generateAggregatedChallengeToFile inputs path

theorem follows_call (c : Call L) : Follows Anywhere (fun _ => False) c.script (v.run d c) := by
  cases c with
  | operation op => exact follows_operation op
  | createLpcScheme => exact obeys_bind (B := []) follows_createLpcScheme fun _ => obeys_pure true
  | preprocessPublicData =>
    exact follows_preprocessPublicData.weaken (fun _ h => h) fun _ h => h.elim
  | preprocessPrivateData =>
    exact follows_preprocessPrivateData.weaken (fun _ h => h) fun _ h => h.elim
  | verify proof => exact follows_verify proof

end ProofProducer
