import ProofProducer.MemberSafety

/-!
# Any order of arguments

C++ leaves open in which order the arguments of a call are evaluated, and a part of the table that
has been moved out can be read like any other. An evaluation settles both. A method that comes
back when its arguments are evaluated from left to right does the same under every evaluation.
-/

namespace ProofProducer

open Effects Files Codecs

set_option autoImplicit false

variable {L : Crypto3} {d : Disk} {α β : Type} {s : Session L}

/-- The arguments of which a call needs something: a member, the common data of the preprocessed
data or else those that have been read, or a part of the table, which it moves out. -/
inductive Argument where
  | member (m : Member)
  | common
  | move (part : TablePart)
  deriving DecidableEq, Repr

/-- An order for the arguments of every call, and whether a session stops at a part that has been
moved out or goes on with what the move has left. -/
structure Evaluation where
  arrange : List Argument → List Argument
  perm : ∀ arguments, (arrange arguments).Perm arguments
  watched : Bool

/-- One argument before all others. -/
def Evaluation.first (a : Argument) : Evaluation where
  arrange arguments := if a ∈ arguments then a :: arguments.erase a else arguments
  perm arguments := by
    split
    · rename_i ha
      exact (List.perm_cons_erase ha).symm
    · exact .refl arguments
  watched := true

def TableSlot.isMoved (slot : TableSlot L) : TablePart → Bool
  | .publicPart => slot.publicMoved
  | .privatePart => slot.privateMoved

namespace Evaluation

variable (v : Evaluation)

def ofPart (part : TablePart) (moved : Bool) (a : α) : Step L α :=
  Prover.ofPart part (v.watched && moved) a

/-- Stop if the argument is missing. -/
def lookAt : Argument → Step L Unit
  | .member m => Prover.deref m fun p => if p.isEngaged m then some () else none
  | .common => Prover.deref .commonData fun p => p.heldCommonData.map fun _ => ()
  | .move part => do
    let slot ← Prover.derefTable
    v.ofPart part (slot.isMoved part) ()

def lookAtAll : List Argument → Step L Unit
  | [] => pure ()
  | a :: arguments => do
    v.lookAt a
    lookAtAll arguments

/-- The order decides which of the missing arguments is met first. The values of those that are
there do not depend on it, and a call takes them from left to right afterwards. -/
def evaluate (arguments : List Argument) : Step L Unit := v.lookAtAll (v.arrange arguments)

def movePublicTable : Step L L.PublicTable := do
  let slot ← Prover.derefTable
  let (part, table) ← v.ofPart .publicPart slot.publicMoved (L.movePublicTable slot.table)
  Prover.update fun p => { p with assignmentTable := some ⟨table, true, slot.privateMoved⟩ }
  return part

def movePrivateTable : Step L L.PrivateTable := do
  let slot ← Prover.derefTable
  let (part, table) ← v.ofPart .privatePart slot.privateMoved (L.movePrivateTable slot.table)
  Prover.update fun p => { p with assignmentTable := some ⟨table, slot.publicMoved, true⟩ }
  return part

def preprocessPublicData : Step L Bool := do
  let slot ← Prover.derefTable
  let inputs ← v.ofPart .publicPart slot.publicMoved (L.publicInputs slot.table)
  Prover.update fun p => { p with publicInputs := some inputs }
  Prover.createLpcScheme
  v.evaluate [.member .constraintSystem, .move .publicPart, .member .tableDescription,
    .member .lpcScheme]
  let cs ← Prover.deref .constraintSystem Prover.constraintSystem
  let publicTable ← v.movePublicTable
  let description ← Prover.deref .tableDescription Prover.tableDescription
  let scheme ← Prover.deref .lpcScheme Prover.lpcScheme
  let p ← Prover.self
  let (data, scheme') ← Prover.external
    (L.placeholderPublicPreprocessor cs publicTable description scheme p.maxQuotientChunks)
  Prover.update fun p => { p with lpcScheme := some scheme', publicPreprocessedData := some data }
  return true

def preprocessPrivateData : Step L Bool := do
  v.evaluate [.member .constraintSystem, .move .privatePart, .member .tableDescription]
  let cs ← Prover.deref .constraintSystem Prover.constraintSystem
  let privateTable ← v.movePrivateTable
  let description ← Prover.deref .tableDescription Prover.tableDescription
  let data ← Prover.external (L.placeholderPrivatePreprocessor cs privateTable description)
  Prover.update fun p => { p with privatePreprocessedData := some data, assignmentTable := none }
  return true

def verify (proof : L.Proof) : Step L Bool := do
  v.evaluate [.common, .member .tableDescription, .member .constraintSystem, .member .lpcScheme]
  Prover.verify proof

def verifyFromFile (proofFile : Path) : Step L Bool := do
  Prover.createLpcScheme
  match ← Prover.reads fun fs =>
      decodeMarshallingFromFile L.placeholderProof fs proofFile true with
  | none => return false
  | some marshalledProof =>
    let proof ← Prover.external (L.makePlaceholderProof marshalledProof)
    v.verify proof

def acceptProof (proofFile : Path) (skipVerification : Bool) : Step L (Option L.Proof) := do
  if !(← Prover.onFiles (canWriteToFile proofFile)) then return none
  v.evaluate [.member .publicPreprocessedData, .member .privatePreprocessedData,
    .member .tableDescription, .member .constraintSystem, .member .lpcScheme]
  let publicData ← Prover.deref .publicPreprocessedData Prover.publicPreprocessedData
  let privateData ← Prover.deref .privatePreprocessedData Prover.privatePreprocessedData
  let description ← Prover.deref .tableDescription Prover.tableDescription
  let cs ← Prover.deref .constraintSystem Prover.constraintSystem
  let scheme ← Prover.deref .lpcScheme Prover.lpcScheme
  let (proof, scheme') ← Prover.external
    (L.placeholderProver publicData privateData description cs scheme)
  Prover.update fun p => { p with lpcScheme := some scheme' }
  if skipVerification then return some proof
  if ← v.verify proof then return some proof else return none

def publishProof (d : Disk) (proofFile jsonFile : Path) (proof : L.Proof) : Step L Bool := do
  let scheme ← Prover.deref .lpcScheme Prover.lpcScheme
  let filled ← Prover.external (L.fillPlaceholderProof proof (L.getFriParams scheme))
  let res ← Prover.onFiles (encodeMarshallingToFile d L.placeholderProof proofFile filled true)
  match ← Prover.onFiles (openOutputFile jsonFile) with
  | none => return res
  | some l =>
    v.evaluate [.member .tableDescription, .member .publicInputs, .member .constraintSystem]
    let description ← Prover.deref .tableDescription Prover.tableDescription
    let inputs ← Prover.deref .publicInputs Prover.publicInputs
    let cs ← Prover.deref .constraintSystem Prover.constraintSystem
    let text ← Prover.external (L.generateInput description inputs proof (L.publicInputSizes cs))
    let _ ← Prover.onFiles (writeStream d jsonFile l text)
    return res

def generateToFile (d : Disk) (proofFile jsonFile : Path) (skipVerification : Bool) :
    Step L Bool := do
  match ← v.acceptProof proofFile skipVerification with
  | none => return false
  | some proof => v.publishProof d proofFile jsonFile proof

end Evaluation

/-- A result or an exception, and no undefined behaviour. -/
def CameBack : Except Stop α → Prop
  | .error (.undefined _) => False
  | _ => True

instance (r : Except Stop α) : Decidable (CameBack r) :=
  match r with
  | .error (.undefined _) => isFalse fun h => h
  | .error (.thrown _) => isTrue trivial
  | .ok _ => isTrue trivial

/-- Wherever the first comes back, the second does the same. -/
def Agrees (m m' : Step L α) : Prop := ∀ s, CameBack (m.run s).1 → m'.run s = m.run s

theorem Agrees.refl (m : Step L α) : Agrees m m := fun _ _ => rfl

theorem Agrees.bind {m m' : Step L α} {f f' : α → Step L β} (hm : Agrees m m')
    (hf : ∀ a, Agrees (f a) (f' a)) : Agrees (m >>= f) (m' >>= f') := by
  intro s hs
  rw [Action.run_bind] at hs
  have hfirst : CameBack (m.run s).1 := by
    rcases hrun : m.run s with ⟨r, t⟩
    rw [hrun] at hs
    cases r with
    | error e =>
      cases e with
      | thrown e => trivial
      | undefined f => exact hs
    | ok a => trivial
  rw [Action.run_bind, Action.run_bind, hm s hfirst]
  rcases hrun : m.run s with ⟨r, t⟩
  rw [hrun] at hs
  cases r with
  | error e => rfl
  | ok a => exact hf a t hs

theorem cameBack_deref {m : Member} {get : Prover L → Option α} {f : α → Step L β}
    (h : CameBack ((Prover.deref m get >>= f).run s).1) :
    ∃ a, get s.prover = some a ∧ CameBack ((f a).run s).1 := by
  rw [Action.run_bind, Prover.run_deref] at h
  cases hget : get s.prover with
  | none => simp only [hget] at h; exact h.elim
  | some a => exact ⟨a, rfl, by simpa only [hget] using h⟩

theorem cameBack_ofPart {part : TablePart} {moved : Bool} {a : α} {f : α → Step L β}
    (h : CameBack ((Prover.ofPart part moved a >>= f).run s).1) :
    moved = false ∧ CameBack ((f a).run s).1 := by
  cases moved with
  | true => exact h.elim
  | false => exact ⟨rfl, h⟩

theorem cameBack_movePublicTable {f : L.PublicTable → Step L β}
    (h : CameBack ((Prover.movePublicTable >>= f).run s).1) :
    ∃ slot, s.prover.assignmentTable = some slot ∧ slot.publicMoved = false ∧
      CameBack ((f (L.movePublicTable slot.table).1).run ⟨{ s.prover with
        assignmentTable := some ⟨(L.movePublicTable slot.table).2, true, slot.privateMoved⟩ },
        s.files⟩).1 := by
  unfold Prover.movePublicTable Prover.derefTable at h
  rw [Action.bind_assoc] at h
  obtain ⟨slot, hslot, h⟩ := cameBack_deref h
  rw [Action.bind_assoc] at h
  obtain ⟨hmoved, h⟩ := cameBack_ofPart h
  exact ⟨slot, hslot, hmoved, h⟩

theorem cameBack_movePrivateTable {f : L.PrivateTable → Step L β}
    (h : CameBack ((Prover.movePrivateTable >>= f).run s).1) :
    ∃ slot, s.prover.assignmentTable = some slot ∧ slot.privateMoved = false ∧
      CameBack ((f (L.movePrivateTable slot.table).1).run ⟨{ s.prover with
        assignmentTable := some ⟨(L.movePrivateTable slot.table).2, slot.publicMoved, true⟩ },
        s.files⟩).1 := by
  unfold Prover.movePrivateTable Prover.derefTable at h
  rw [Action.bind_assoc] at h
  obtain ⟨slot, hslot, h⟩ := cameBack_deref h
  rw [Action.bind_assoc] at h
  obtain ⟨hmoved, h⟩ := cameBack_ofPart h
  exact ⟨slot, hslot, hmoved, h⟩

namespace Evaluation

variable (v : Evaluation)

/-- The argument is there, and a session that stops at moved-out parts does not stop at it. -/
def Finds (s : Session L) (a : Argument) : Prop := (v.lookAt a).run s = (.ok (), s)

variable {v}

theorem finds_member {m : Member} (h : s.prover.isEngaged m = true) :
    v.Finds s (.member m) := by
  unfold Finds lookAt
  rw [Prover.run_deref]
  simp [h]

theorem finds_common {common : L.CommonData} (h : s.prover.heldCommonData = some common) :
    v.Finds s .common := by
  unfold Finds lookAt
  rw [Prover.run_deref]
  simp [h]

theorem finds_move {part : TablePart} {slot : TableSlot L}
    (h : s.prover.assignmentTable = some slot) (hmoved : slot.isMoved part = false) :
    v.Finds s (.move part) := by
  unfold Finds lookAt Prover.derefTable
  rw [Action.run_bind, Prover.run_deref]
  simp [h, hmoved, ofPart, Prover.ofPart]

theorem lookAtAll_run {arguments : List Argument} (h : ∀ a ∈ arguments, v.Finds s a) :
    (v.lookAtAll arguments).run s = (.ok (), s) := by
  induction arguments with
  | nil => rfl
  | cons a arguments ih =>
    rw [lookAtAll, Action.run_bind_ok (h a List.mem_cons_self)]
    exact ih fun b hb => h b (List.mem_cons_of_mem a hb)

theorem evaluate_run {arguments : List Argument} (h : ∀ a ∈ arguments, v.Finds s a) :
    (v.evaluate arguments).run s = (.ok (), s) :=
  lookAtAll_run fun a ha => h a ((v.perm arguments).mem_iff.mp ha)

theorem agrees_evaluate {arguments : List Argument} {m m' : Step L α} (hm : Agrees m m')
    (h : ∀ s, CameBack (m.run s).1 → ∀ a ∈ arguments, v.Finds s a) :
    Agrees m (v.evaluate arguments >>= fun _ => m') := by
  intro s hs
  rw [Action.run_bind_ok (evaluate_run (h s hs))]
  exact hm s hs

theorem agrees_ofPart (part : TablePart) (moved : Bool) (a : α) :
    Agrees (Prover.ofPart part moved a : Step L α) (v.ofPart part moved a) := by
  intro s hs
  cases moved with
  | true => exact hs.elim
  | false => simp [ofPart]

theorem agrees_movePublicTable :
    Agrees (Prover.movePublicTable : Step L L.PublicTable) v.movePublicTable :=
  .bind (.refl _) fun _ => .bind (agrees_ofPart _ _ _) fun _ => .refl _

theorem agrees_movePrivateTable :
    Agrees (Prover.movePrivateTable : Step L L.PrivateTable) v.movePrivateTable :=
  .bind (.refl _) fun _ => .bind (agrees_ofPart _ _ _) fun _ => .refl _

theorem isEngaged_of_some {m : Member} {p : Prover L} {get : Prover L → Option α} {a : α}
    (hget : p.isEngaged m = (get p).isSome) (h : get p = some a) : p.isEngaged m = true := by
  rw [hget, h]
  rfl

theorem agrees_preprocessPublicData :
    Agrees (Prover.preprocessPublicData : Step L Bool) v.preprocessPublicData := by
  refine .bind (.refl _) fun slot => .bind (agrees_ofPart _ _ _) fun inputs => ?_
  refine .bind (.refl _) fun _ => .bind (.refl _) fun _ => ?_
  refine agrees_evaluate ?_ fun s hs => ?_
  · refine .bind (.refl _) fun cs => .bind agrees_movePublicTable fun publicTable => .refl _
  · obtain ⟨cs, hcs, hs⟩ := cameBack_deref hs
    obtain ⟨slot, hslot, hmoved, hs⟩ := cameBack_movePublicTable hs
    obtain ⟨description, hd, hs⟩ := cameBack_deref hs
    obtain ⟨scheme, hscheme, _⟩ := cameBack_deref hs
    intro a ha
    simp only [List.mem_cons, List.not_mem_nil, or_false] at ha
    rcases ha with rfl | rfl | rfl | rfl
    · exact finds_member (isEngaged_of_some rfl hcs)
    · exact finds_move hslot hmoved
    · exact finds_member (isEngaged_of_some rfl hd)
    · exact finds_member (isEngaged_of_some rfl hscheme)

theorem agrees_preprocessPrivateData :
    Agrees (Prover.preprocessPrivateData : Step L Bool) v.preprocessPrivateData := by
  refine agrees_evaluate ?_ fun s hs => ?_
  · exact .bind (.refl _) fun cs => .bind agrees_movePrivateTable fun privateTable => .refl _
  · obtain ⟨cs, hcs, hs⟩ := cameBack_deref hs
    obtain ⟨slot, hslot, hmoved, hs⟩ := cameBack_movePrivateTable hs
    obtain ⟨description, hd, _⟩ := cameBack_deref hs
    intro a ha
    simp only [List.mem_cons, List.not_mem_nil, or_false] at ha
    rcases ha with rfl | rfl | rfl
    · exact finds_member (isEngaged_of_some rfl hcs)
    · exact finds_move hslot hmoved
    · exact finds_member (isEngaged_of_some rfl hd)

theorem agrees_verify (proof : L.Proof) : Agrees (Prover.verify proof) (v.verify proof) := by
  refine agrees_evaluate (.refl _) fun s hs => ?_
  rw [Prover.verify_eq] at hs
  obtain ⟨common, hcommon, hs⟩ := cameBack_deref hs
  obtain ⟨description, hd, hs⟩ := cameBack_deref hs
  obtain ⟨cs, hcs, hs⟩ := cameBack_deref hs
  obtain ⟨scheme, hscheme, _⟩ := cameBack_deref hs
  intro a ha
  simp only [List.mem_cons, List.not_mem_nil, or_false] at ha
  rcases ha with rfl | rfl | rfl | rfl
  · exact finds_common hcommon
  · exact finds_member (isEngaged_of_some rfl hd)
  · exact finds_member (isEngaged_of_some rfl hcs)
  · exact finds_member (isEngaged_of_some rfl hscheme)

theorem agrees_verifyFromFile (path : Path) :
    Agrees (Prover.verifyFromFile path : Step L Bool) (v.verifyFromFile path) := by
  refine .bind (.refl _) fun _ => .bind (.refl _) fun m => ?_
  cases m with
  | none => exact .refl _
  | some m => exact .bind (.refl _) fun proof => agrees_verify proof

theorem agrees_acceptProof (path : Path) (skip : Bool) :
    Agrees (Prover.acceptProof path skip : Step L (Option L.Proof)) (v.acceptProof path skip) := by
  refine .bind (.refl _) fun writable => ?_
  cases writable with
  | false => exact .refl _
  | true =>
    refine agrees_evaluate ?_ fun s hs => ?_
    · refine .bind (.refl _) fun publicData => .bind (.refl _) fun privateData => ?_
      refine .bind (.refl _) fun description => .bind (.refl _) fun cs => ?_
      refine .bind (.refl _) fun scheme => .bind (.refl _) fun r => .bind (.refl _) fun _ => ?_
      cases skip with
      | true => exact .refl _
      | false => exact .bind (agrees_verify r.1) fun _ => .refl _
    · obtain ⟨publicData, hpublic, hs⟩ := cameBack_deref hs
      obtain ⟨privateData, hprivate, hs⟩ := cameBack_deref hs
      obtain ⟨description, hd, hs⟩ := cameBack_deref hs
      obtain ⟨cs, hcs, hs⟩ := cameBack_deref hs
      obtain ⟨scheme, hscheme, _⟩ := cameBack_deref hs
      intro a ha
      simp only [List.mem_cons, List.not_mem_nil, or_false] at ha
      rcases ha with rfl | rfl | rfl | rfl | rfl
      · exact finds_member (isEngaged_of_some rfl hpublic)
      · exact finds_member (isEngaged_of_some rfl hprivate)
      · exact finds_member (isEngaged_of_some rfl hd)
      · exact finds_member (isEngaged_of_some rfl hcs)
      · exact finds_member (isEngaged_of_some rfl hscheme)

theorem agrees_publishProof (proofFile jsonFile : Path) (proof : L.Proof) :
    Agrees (Prover.publishProof d proofFile jsonFile proof)
      (v.publishProof d proofFile jsonFile proof) := by
  refine .bind (.refl _) fun scheme => .bind (.refl _) fun filled => ?_
  refine .bind (.refl _) fun res => .bind (.refl _) fun l => ?_
  cases l with
  | none => exact .refl _
  | some l =>
    refine agrees_evaluate (.refl _) fun s hs => ?_
    obtain ⟨description, hd, hs⟩ := cameBack_deref hs
    obtain ⟨inputs, hinputs, hs⟩ := cameBack_deref hs
    obtain ⟨cs, hcs, _⟩ := cameBack_deref hs
    intro a ha
    simp only [List.mem_cons, List.not_mem_nil, or_false] at ha
    rcases ha with rfl | rfl | rfl
    · exact finds_member (isEngaged_of_some rfl hd)
    · exact finds_member (isEngaged_of_some rfl hinputs)
    · exact finds_member (isEngaged_of_some rfl hcs)

theorem agrees_generateToFile (proofFile jsonFile : Path) (skip : Bool) :
    Agrees (Prover.generateToFile d proofFile jsonFile skip : Step L Bool)
      (v.generateToFile d proofFile jsonFile skip) := by
  refine .bind (agrees_acceptProof proofFile skip) fun r => ?_
  cases r with
  | none => exact .refl _
  | some proof => exact agrees_publishProof proofFile jsonFile proof

end Evaluation
end ProofProducer
