import ProofProducer.Shared.Concurrency
import ProofProducer.Primitives
import ProofProducer.Isolation

/-!
# Runs at the same time

Several processes in one directory, each with a run of its own, may be interrupted between any two
file operations. If none changes what another reads or asks for, each run ends as it does alone.
They may probe with one temporary file and overwrite each other's outputs.
-/

namespace ProofProducer

open Effects Files Files.FileSystem Composition Concurrency Relation

set_option autoImplicit false

variable {L : Crypto3} {d : Disk} {α : Type} {fs₀ fs a b a' b' : FileSystem}
  {R W T V : Path → Prop} {uses : Parameter → Prop} {o : ProverOptions} {p q : Path}
  {l : Location}

/-- What the paths in `V` lead to in the file system is what they lead to in `a`, and so are the
directories. -/
structure SameView (fs₀ : FileSystem) (V : Path → Prop) (a b : FileSystem) : Prop where
  base : Steady fs₀ a
  steady : Steady a b
  lookup : ∀ q, V q → b.lookup q = a.lookup q

theorem SameView.refl (h : Steady fs₀ fs) : SameView fs₀ V fs fs :=
  ⟨h, .refl fs, fun _ _ => rfl⟩

/-- The same has been done to both. -/
theorem SameView.alongside (h : SameView fs₀ V a b) (hab : Alongside a b a' b') :
    SameView fs₀ V a' b' :=
  ⟨h.base.trans hab.left, hab.steady h.steady, fun q hq => hab.lookup_eq (h.lookup q hq)⟩

/-- A primitive answers by what it looks at. Whether a temporary file is there when it is removed,
or an output when it is opened, makes no difference. -/
theorem FilePrimitive.faithful_view {m : Action FileSystem Exception α} {P : α → Prop}
    (hm : FilePrimitive d fs₀ R W T α m P) (hV : ∀ q, R q → V q) :
    Faithful (SameView fs₀ V) P m := by
  intro a b hab
  have hpromise := (hm.spec hab.base).2
  suffices h : (m.run b).1 = (m.run a).1 ∧ SameView fs₀ V (m.run a).2 (m.run b).2 from
    ⟨h.1, h.2, hpromise⟩
  have hstart : Alongside a b a b := .refl a b
  have hdirs := hab.steady.sameDirectories
  have hopens : ∀ l, a.accepts l = true → b.accepts l = true := by
    intro l hl
    rw [hab.steady.accepts, hl]
  cases hm with
  | exist hp =>
    refine ⟨?_, hab⟩
    simp only [Action.run_observe, fileExists, hab.lookup _ (hV _ hp)]
  | parent p =>
    refine ⟨?_, hab⟩
    simp only [Action.run_observe, absolute_steady hab.steady]
  | @create p hp =>
    rw [openOutputFile_run, openOutputFile_run, hab.steady.openForWriting_eq]
    cases ho : a.openForWriting p with
    | none => exact ⟨rfl, hab⟩
    | some l =>
      have ha := (openForWriting_eq_some_iff.mp ho).2
      exact ⟨rfl, hab.alongside (hstart.store hdirs ha (hopens l ha) [])⟩
  | @append p hseen hp =>
    rw [openForAppending_run, openForAppending_run, hab.steady.openForWriting_eq]
    cases ho : a.openForWriting p with
    | none => exact ⟨rfl, hab⟩
    | some l =>
      obtain ⟨hlocation, haccepts⟩ := openForWriting_eq_some_iff.mp ho
      have hnode : b.node l = a.node l := by
        have hlookup := hab.lookup p (hV p hseen)
        rwa [lookup_of_fileLocation hlocation,
          lookup_of_fileLocation ((hab.steady.fileLocation_eq p).trans hlocation)] at hlookup
      dsimp only [touch]
      rw [hnode]
      cases a.node l with
      | none => exact ⟨rfl, hab.alongside (hstart.store hdirs haccepts (hopens l haccepts) [])⟩
      | some n => exact ⟨rfl, hab⟩
  | @remove p l hp hl =>
    have ha : a.openForWriting p = some l := by rw [hab.base.openForWriting_eq, hl]
    rw [dropFile_run_of_opens ha,
      dropFile_run_of_opens (by rw [hab.steady.openForWriting_eq, ha]),
      directoryWritable_congr hab.steady.directory]
    split
    · rename_i hdir
      have haccepts := (openForWriting_eq_some_iff.mp ha).2
      exact ⟨rfl, hab.alongside (hstart.erase hdirs haccepts (hopens l haccepts) hdir)⟩
    · exact ⟨rfl, hab⟩
  | @write p l hp hl v =>
    have haccepts : a.accepts l = true := accepts_of_opens hab.base hl
    have hdone := alongside_delivered hstart hdirs haccepts (hopens l haccepts) d p v
    exact ⟨rfl, hab.alongside hdone⟩

theorem unread_sameView (hV : ∀ q, R q → V q) : Unread d fs₀ R W T (SameView fs₀ V) where
  lookup h hq := h.lookup _ (hV _ hq)
  faithful hm := hm.faithful_view hV

theorem fileLocation_ne_of_untouched (hfs : Steady fs₀ fs) (hl : fs₀.openForWriting p = some l)
    (hq : ¬ fs₀.SameFile q p) : fs.fileLocation q ≠ some l := by
  rw [hfs.fileLocation_eq]
  exact fun h => hq ⟨l, h, (openForWriting_eq_some_iff.mp hl).1⟩

theorem FilePrimitive.frame {m : Action FileSystem Exception α} {P : α → Prop}
    (hm : FilePrimitive d fs₀ R W T α m P) (hfs : Steady fs₀ fs)
    (hq : ∀ p, W p ∨ T p → ¬ fs₀.SameFile q p) : (m.run fs).2.lookup q = fs.lookup q := by
  cases hm with
  | exist hp => rfl
  | parent p => rfl
  | @create p hp =>
    rw [openOutputFile_run, hfs.openForWriting_eq]
    cases hl : fs₀.openForWriting p with
    | none => rfl
    | some l =>
      exact lookup_store_of_ne (accepts_of_opens hfs hl)
        (fileLocation_ne_of_untouched hfs hl (hq p hp)) []
  | @append p hseen hp =>
    rw [openForAppending_run, hfs.openForWriting_eq]
    cases hl : fs₀.openForWriting p with
    | none => rfl
    | some l =>
      dsimp only [touch]
      cases fs.node l with
      | none =>
        exact lookup_store_of_ne (accepts_of_opens hfs hl)
          (fileLocation_ne_of_untouched hfs hl (hq p (Or.inl hp))) []
      | some n => rfl
  | @remove p l hp hl =>
    rw [dropFile_run_of_opens (by rw [hfs.openForWriting_eq, hl])]
    split
    · rename_i hdir
      have haccepts := accepts_of_opens hfs hl
      refine lookup_update_of_ne (erase_steady haccepts hdir) (fun k hk => by simp [hk])
        (not_directory_of_accepts haccepts) ?_
      exact fileLocation_ne_of_untouched hfs hl (hq p (Or.inr hp))
    · rfl
  | @write p l hp hl v =>
    exact lookup_delivered_of_ne (fileLocation_ne_of_untouched hfs hl (hq p (Or.inl hp)))
      (accepts_of_opens hfs hl)

/-- The directories stay, and so does what a path leads to that the primitives may not change. -/
theorem Primitive.frame {m : Step L α} {P : α → Prop} {s : Session L}
    (hm : Primitive L d fs₀ R W T uses α m P) (hs : Steady fs₀ s.files) :
    Steady fs₀ (m.run s).2.files ∧
      ∀ q, (∀ p, W p ∨ T p → ¬ fs₀.SameFile q p) →
        (m.run s).2.files.lookup q = s.files.lookup q := by
  cases hm with
  | files hm =>
    obtain ⟨p, fs⟩ := s
    rw [Prover.run_onFiles]
    exact ⟨(hm.spec hs).1, fun q hq => hm.frame hs hq⟩
  | _ => exact ⟨hs, fun _ _ => rfl⟩

/-- What a run reads or asks for, the directory of a probed file included. -/
def Sees (fs : FileSystem) (o : ProverOptions) (q : Path) : Prop :=
  q ∈ looked o ∨ ∃ p ∈ probes o, q = parentPath (absolute fs p)

/-- The files that a run creates and removes again. -/
def Temporary (fs : FileSystem) (o : ProverOptions) (q : Path) : Prop :=
  ∃ p ∈ probes o, q = probeFile fs p

/-- What a run does at a time. -/
def Job.Primitive (d : Disk) (fs : FileSystem) (j : Job) : Primitives (Session j.library) Stop :=
  ProofProducer.Primitive j.library d fs (Sees fs j.options) (· ∈ outputs j.options)
    (Temporary fs j.options) fun _ => True

abbrev Job.start (j : Job) (fs : FileSystem) : Session j.library :=
  initialSession j.library j.options fs

abbrev Job.task (d : Disk) (j : Job) : Step j.library Bool := proverTask j.library d j.options

def sessionFiles (L : Crypto3) : Part (Session L) FileSystem where
  get s := s.files
  put s fs := ⟨s.prover, fs⟩
  get_put _ _ := rfl
  put_get _ := rfl

theorem stageProbes_subset (o : ProverOptions) (stage : ProverStage) :
    ∀ q ∈ stageProbes o stage, q ∈ stageOutputs o stage := by
  intro q hq
  cases stage with
  | all =>
    rw [List.mem_singleton.mp hq]
    exact List.mem_cons_self
  | prove =>
    rw [List.mem_singleton.mp hq]
    exact List.mem_cons_self
  | _ => simp [stageProbes] at hq

theorem composed_proverTask (d : Disk) (fs : FileSystem) (j : Job) :
    Composed (j.Primitive d fs) Anything (j.task d) := by
  obtain ⟨L, o⟩ := j
  unfold Job.task proverTask
  cases hs : proverStageFromString o.stage with
  | error e => exact .stop (Stop.thrown e)
  | ok stage =>
    have hmem := proverStageFromString_ok_iff.mp hs
    refine composed_allOf (composed_stageSteps stage ?_ ?_ ?_ fun _ _ => trivial)
    · rw [← inputs_of_stage hmem]
      exact fun q hq => Or.inl (List.mem_append_left _ hq)
    · intro q hq
      have hout := stageProbes_subset o stage q hq
      rw [← outputs_of_stage hmem] at hout
      rw [← probes_of_stage hmem] at hq
      exact ⟨Or.inl (List.mem_append_right _ hq), Or.inr ⟨q, hq, rfl⟩, hout, q, hq, rfl⟩
    · rw [← outputs_of_stage hmem]
      exact fun q hq => hq

/-- A run of the second options changes nothing that a run of the first sees. -/
structure Apart (fs : FileSystem) (o o' : ProverOptions) : Prop where
  looked : ClearOf fs o' o
  parents : ∀ p ∈ probes o, ¬ Touches fs o' (parentPath (absolute fs p))

instance (fs : FileSystem) (o o' : ProverOptions) : Decidable (Apart fs o o') :=
  decidable_of_iff (ClearOf fs o' o ∧ ∀ p ∈ probes o, ¬ Touches fs o' (parentPath (absolute fs p)))
    ⟨fun h => ⟨h.1, h.2⟩, fun h => ⟨h.looked, h.parents⟩⟩

theorem Apart.untouched {o' : ProverOptions} (h : Apart fs o o') (hq : Sees fs o q) :
    ¬ Touches fs o' q := by
  rcases hq with hq | ⟨p, hp, rfl⟩
  · exact h.looked q hq
  · exact h.parents p hp

theorem not_sameFile_of_not_touches (hq : ¬ Touches fs o q)
    (hp : p ∈ outputs o ∨ Temporary fs o p) : ¬ fs.SameFile q p := by
  intro hsame
  refine hq ⟨p, ?_, hsame⟩
  rcases hp with hp | ⟨p', hp', rfl⟩
  · exact List.mem_append_left _ hp
  · exact List.mem_append_right _ (List.mem_map_of_mem hp')

section Jobs
variable {ι : Type} {jobs : ι → Job}

/-- The directories stay, and so does every path that no run touches. -/
def Untouched (fs : FileSystem) (jobs : ι → Job) (x : FileSystem) : Prop :=
  Steady fs x ∧ ∀ q, (∀ i, ¬ Touches fs (jobs i).options q) → x.lookup q = fs.lookup q

/-- The path is left to this run: none of the others touches it. -/
def LeftTo (fs : FileSystem) (jobs : ι → Job) (i : ι) (q : Path) : Prop :=
  ∀ j, j ≠ i → ¬ Touches fs (jobs j).options q

/-- The objects are equal, and the paths left to the run lead to the same. -/
abbrev View (fs : FileSystem) (jobs : ι → Job) (i : ι) :
    Session (jobs i).library → Session (jobs i).library → Prop :=
  Side Eq (SameView fs (LeftTo fs jobs i))

theorem views_of_apart (d : Disk)
    (h : ∀ i j, i ≠ j → Apart fs (jobs i).options (jobs j).options) :
    Views (fun i => (jobs i).Primitive d fs) (fun i => sessionFiles (jobs i).library)
      (Untouched fs jobs) (View fs jobs) where
  kept i _ p O hp s hs := by
    obtain ⟨hsteady, hlookup⟩ := Primitive.frame hp hs.1
    refine ⟨hsteady, fun q hq => ?_⟩
    rw [← hs.2 q hq]
    exact hlookup q fun p hp => not_sameFile_of_not_touches (hq i) hp
  faithful i _ p O hp := by
    have hsees : ∀ q, Sees fs (jobs i).options q → LeftTo fs jobs i q :=
      fun q hq j hj => (h i j (Ne.symm hj)).untouched hq
    exact Primitive.faithful unseen_eq (unread_sameView hsees) hp
  frame i j hij _ p O hp s b t hs hR := by
    obtain ⟨hsteady, hlookup⟩ := Primitive.frame hp hs.1
    refine ⟨hR.prover, hR.files.base, hR.files.base.symm.trans hsteady, fun q hq => ?_⟩
    rw [← hR.files.lookup q hq]
    exact hlookup q fun p hp => not_sameFile_of_not_touches (hq i hij) hp

/-- All runs at their beginning. -/
def launch (d : Disk) (fs : FileSystem) (jobs : ι → Job) :
    Pool ι (fun i => Session (jobs i).library) FileSystem Stop Bool where
  processes i := ⟨(jobs i).start fs, (jobs i).task d⟩
  shared := fs

/-- The runs take turns, in any order. -/
abbrev TakeTurns [DecidableEq ι] (d : Disk) (fs : FileSystem) (jobs : ι → Job) :
    Pool ι (fun i => Session (jobs i).library) FileSystem Stop Bool →
      Pool ι (fun i => Session (jobs i).library) FileSystem Stop Bool → Prop :=
  Interleaved (fun i => (jobs i).Primitive d fs) fun i => sessionFiles (jobs i).library

section Interleavings
variable [DecidableEq ι] {g : Pool ι (fun i => Session (jobs i).library) FileSystem Stop Bool}

/-- In every interleaving each run is where it would be alone. -/
theorem as_alone_of_apart (h : ∀ i j, i ≠ j → Apart fs (jobs i).options (jobs j).options)
    (hrun : TakeTurns d fs jobs (launch d fs jobs) g) (i : ι) :
    AsAlone ((jobs i).Primitive d fs) (sessionFiles (jobs i).library) (View fs jobs i)
      ((jobs i).task d) ((jobs i).start fs) (g.processes i) g.shared := by
  have hstart : Untouched fs jobs (launch d fs jobs).shared := ⟨.refl fs, fun _ _ => rfl⟩
  exact (views_of_apart d h).as_alone hrun hstart (fun i =>
    AsAlone.start (composed_proverTask d fs (jobs i)) ⟨rfl, .refl (.refl fs)⟩) i

theorem ended_as_alone (h : ∀ i j, i ≠ j → Apart fs (jobs i).options (jobs j).options)
    (hrun : TakeTurns d fs jobs (launch d fs jobs) g) {i : ι} {r : Except Stop Bool}
    (hr : (g.processes i).rest = finished r) :
    Outcome.ofResult r = ((jobs i).run d fs).1 ∧
      ∀ q, LeftTo fs jobs i q → g.shared.lookup q = ((jobs i).run d fs).2.lookup q := by
  obtain ⟨hanswer, hend⟩ := (as_alone_of_apart h hrun i).result hr
  refine ⟨?_, hend.files.lookup⟩
  rw [← hanswer]
  rfl

/-- However runs are interleaved of which none changes what another sees: one that has come to its
end has the outcome it has alone, and the paths left to it are as it leaves them alone. Nothing
that no run touches changes, and wherever the runs are, each of them can still come to its end. -/
theorem concurrent_runs (d : Disk) (fs : FileSystem) (jobs : ι → Job)
    (h : ∀ i j, i ≠ j → Apart fs (jobs i).options (jobs j).options)
    {g : Pool ι (fun i => Session (jobs i).library) FileSystem Stop Bool}
    (hrun : TakeTurns d fs jobs (launch d fs jobs) g) :
    (∀ i r, (g.processes i).rest = finished r →
      Outcome.ofResult r = ((jobs i).run d fs).1 ∧
        ∀ q, LeftTo fs jobs i q → g.shared.lookup q = ((jobs i).run d fs).2.lookup q) ∧
      (∀ q, (∀ i, ¬ Touches fs (jobs i).options q) → g.shared.lookup q = fs.lookup q) ∧
      ∀ i, ∃ g', TakeTurns d fs jobs g g' ∧ (∀ j, j ≠ i → g'.processes j = g.processes j) ∧
        ∃ r, (g'.processes i).rest = finished r := by
  have hviews := views_of_apart d h
  have hstart : Untouched fs jobs (launch d fs jobs).shared := ⟨.refl fs, fun _ _ => rfl⟩
  refine ⟨fun i r hr => ended_as_alone h hrun hr, ?_, fun i => ?_⟩
  · exact (shared_kept hviews.kept hrun hstart).2
  · exact hviews.can_finish (as_alone_of_apart h hrun i)

/-- Two runs of stage `all` in one directory with a proof file each, and all other outputs and the
temporary file in common. -/
def twoProofs (i : Fin 2) : Job :=
  ⟨.small, { smallOptions "all" with proofFilePath := if i = 0 then ['p'] else ['q'] }⟩

theorem twoProofs_apart (i j : Fin 2) (hij : i ≠ j) :
    Apart smallFiles (twoProofs i).options (twoProofs j).options := by
  revert i j
  decide +kernel

/-- They can both come to a good end, with the proofs they produce alone. -/
theorem concurrent_runs_two : ∃ g, TakeTurns .reliable smallFiles twoProofs
    (launch .reliable smallFiles twoProofs) g ∧
      ∀ i, (∃ r, (g.processes i).rest = finished r ∧ Outcome.ofResult r = .exit 0) ∧
        g.shared.lookup (twoProofs i).options.proofFilePath =
          ((twoProofs i).run .reliable smallFiles).2.lookup
            (twoProofs i).options.proofFilePath := by
  have h := twoProofs_apart
  have hleft : ∀ i : Fin 2, LeftTo smallFiles twoProofs i (twoProofs i).options.proofFilePath := by
    unfold LeftTo
    decide +kernel
  have halone : ∀ i : Fin 2, ((twoProofs i).run .reliable smallFiles).1 = .exit 0 := by
    decide +kernel
  obtain ⟨g₁, hrun₁, _, r₁, hr₁⟩ := (concurrent_runs .reliable smallFiles twoProofs h .refl).2.2 0
  obtain ⟨g₂, hrun₂, hothers, r₂, hr₂⟩ :=
    (concurrent_runs .reliable smallFiles twoProofs h hrun₁).2.2 1
  rw [← hothers 0 (by decide)] at hr₁
  have hrun := hrun₁.trans hrun₂
  have hdone := (concurrent_runs .reliable smallFiles twoProofs h hrun).1
  have hboth : ∀ i, ∃ r, (g₂.processes i).rest = finished r := by
    intro i
    rcases Fin.eq_zero_or_eq_succ i with rfl | ⟨j, rfl⟩
    · exact ⟨r₁, hr₁⟩
    · obtain rfl := Subsingleton.elim j 0
      exact ⟨r₂, hr₂⟩
  refine ⟨g₂, hrun, fun i => ?_⟩
  obtain ⟨r, hr⟩ := hboth i
  obtain ⟨houtcome, hlookup⟩ := hdone i r hr
  exact ⟨⟨r, hr, houtcome.trans (halone i)⟩, hlookup _ (hleft i)⟩

/-- Runs made one after the other are an interleaving. -/
theorem takeTurns_after (d : Disk) (fs : FileSystem) (jobs : ι → Job) {order : List ι}
    (hnodup : order.Nodup) :
    ∃ (g : Pool ι (fun i => Session (jobs i).library) FileSystem Stop Bool)
      (results : ι → Except Stop Bool),
      TakeTurns d fs jobs (launch d fs jobs) g ∧
        g.shared = Schedules.after (Job.run d) (order.map jobs) fs ∧
        (∀ i ∈ order, (g.processes i).rest = finished (results i)) ∧
        (∀ i, i ∉ order → g.processes i = (launch d fs jobs).processes i) ∧
        Schedules.answers (Job.run d) (order.map jobs) fs =
          order.map fun i => Outcome.ofResult (results i) := by
  induction order using List.reverseRecOn with
  | nil => exact ⟨launch d fs jobs, fun _ => .ok true, .refl, rfl, by simp, by simp, rfl⟩
  | append_singleton order i ih =>
    obtain ⟨horder, _, hdisjoint⟩ := List.nodup_append.mp hnodup
    have hi : i ∉ order := fun hi => hdisjoint i hi i (List.mem_singleton_self i) rfl
    obtain ⟨g, results, hrun, hshared, hdone, hwaiting, hanswers⟩ := ih horder
    have hsteady : Steady fs g.shared := by
      rw [hshared]
      exact Schedules.after_kept (job_kept d fs) (.refl fs)
    obtain ⟨s, hturns⟩ : ∃ s, Turns ((jobs i).Primitive d fs) (sessionFiles (jobs i).library)
        (⟨(jobs i).start fs, (jobs i).task d⟩, g.shared)
        (⟨s, finished (((jobs i).task d).run ((jobs i).start g.shared)).1⟩,
          (((jobs i).task d).run ((jobs i).start g.shared)).2.files) :=
      turns_of_run (I := fun s => Steady fs s.files) (fun hp _ hs => Primitive.spec hp hs)
        (composed_proverTask d fs (jobs i)) hsteady
    have hwaits : g.processes i = ⟨(jobs i).start fs, (jobs i).task d⟩ := hwaiting i hi
    rw [← hwaits] at hturns
    have hset : TakeTurns d fs jobs g (g.set i _ _) := Turns.interleaved hturns
    refine ⟨_, Function.update results i (((jobs i).task d).run ((jobs i).start g.shared)).1,
      hrun.trans hset, ?_, fun j hj => ?_, fun j hj => ?_, ?_⟩
    · rw [List.map_append, Schedules.after_append, ← hshared]
      rfl
    · by_cases hji : j = i
      · subst j
        rw [Pool.processes_set_self, Function.update_self]
      · have hj : j ∈ order := (List.mem_append.mp hj).resolve_right
          fun h => hji (List.mem_singleton.mp h)
        rw [Pool.processes_set_of_ne hji, Function.update_of_ne hji]
        exact hdone j hj
    · have hji : j ≠ i := fun h => hj (List.mem_append_right _ (List.mem_singleton.mpr h))
      rw [Pool.processes_set_of_ne hji]
      exact hwaiting j fun h => hj (List.mem_append_left _ h)
    · rw [List.map_append, Schedules.answers_append, List.map_append, hanswers, ← hshared]
      congr 1
      · refine List.map_congr_left fun j hj => ?_
        have hji : j ≠ i := fun h => hi (h ▸ hj)
        rw [Function.update_of_ne hji]
      · rw [List.map_singleton, List.map_singleton, Function.update_self]
        rfl

end Interleavings
end Jobs
end ProofProducer
