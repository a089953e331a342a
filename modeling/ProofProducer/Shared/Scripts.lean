import ProofProducer.Shared.Relational
import Mathlib.Data.Bool.AllAny

/-!
# Scripts of needs and updates

What a procedure asks of a set of resources and does to it, in order. What it asks for at one
time may be looked at in any order. A procedure that stops early has executed the beginning of its
script. Looking at the scripts alone one sees which implications between resources hold in all
states that procedures lead to, and which needs can ever fail.
-/

namespace Scripts

open Effects Relational

set_option autoImplicit false

variable {σ ε ρ κ α β : Type}

/-- A resource, or one of the others in its place. -/
structure Need (ρ : Type) where
  resource : ρ
  others : List ρ

/-- What has to be there at one time, or a change. -/
inductive Atom (ρ : Type) where
  | needs (ns : List (Need ρ))
  | update (gives takes : List ρ)

abbrev Held (ρ : Type) := ρ → Bool

def Need.met (h : Held ρ) (n : Need ρ) : Bool := h n.resource || n.others.any h

def Atom.met (h : Held ρ) : Atom ρ → Bool
  | needs ns => ns.all (Need.met h)
  | update _ _ => true

section Execution
variable [DecidableEq ρ]

def Atom.after (h : Held ρ) : Atom ρ → Held ρ
  | needs _ => h
  | update gives takes => fun r => decide (r ∈ gives) || (h r && !decide (r ∈ takes))

/-- The beginning of a script has been executed with every need met, and the rest is left. -/
inductive Begins : List (Atom ρ) → Held ρ → List (Atom ρ) → Held ρ → Prop where
  | none (script : List (Atom ρ)) (h : Held ρ) : Begins script h script h
  | next {a : Atom ρ} {script rest : List (Atom ρ)} {h h' : Held ρ} :
      a.met h = true → Begins script (a.after h) rest h' → Begins (a :: script) h rest h'

variable {A B rest : List (Atom ρ)} {h h' h'' : Held ρ}

theorem Begins.append_left (hA : Begins A h rest h') (B : List (Atom ρ)) :
    Begins (A ++ B) h (rest ++ B) h' := by
  induction hA with
  | none script h => exact .none _ _
  | next hmet _ ih => exact .next hmet ih

theorem Begins.append (hA : Begins A h [] h') (hB : Begins B h' rest h'') :
    Begins (A ++ B) h rest h'' := by
  generalize hnil : ([] : List (Atom ρ)) = none at hA
  induction hA with
  | none script h =>
    rw [← hnil]
    exact hB
  | next hmet _ ih => exact .next hmet (ih hB hnil)

def Atom.grants (r : ρ) : Atom ρ → Bool
  | needs _ => false
  | update gives _ => decide (r ∈ gives)

def Atom.removes (r : ρ) : Atom ρ → Bool
  | needs _ => false
  | update _ takes => decide (r ∈ takes)

/-- A resource that no atom gives was there all along. -/
theorem Begins.held_before {r : ρ} (hb : Begins A h rest h')
    (hgrants : A.any (Atom.grants r) = false) (hr : h' r = true) : h r = true := by
  induction hb with
  | none script h => exact hr
  | @next a script rest h h' _ _ ih =>
    rw [List.any_cons, Bool.or_eq_false_iff] at hgrants
    have hafter := ih hgrants.2 hr
    cases a with
    | needs ns => exact hafter
    | update gives takes =>
      have hnot : r ∉ gives := of_decide_eq_false hgrants.1
      simp only [Atom.after, hnot, decide_false, Bool.false_or, Bool.and_eq_true] at hafter
      exact hafter.1

/-- A resource that no atom takes is still there. -/
theorem Begins.held_after {r : ρ} (hb : Begins A h rest h')
    (hremoves : A.any (Atom.removes r) = false) (hr : h r = true) : h' r = true := by
  induction hb with
  | none script h => exact hr
  | @next a script rest h h' _ _ ih =>
    rw [List.any_cons, Bool.or_eq_false_iff] at hremoves
    refine ih hremoves.2 ?_
    cases a with
    | needs ns => exact hr
    | update gives takes =>
      have hnot : r ∉ takes := of_decide_eq_false hremoves.1
      simp [Atom.after, hr, hnot]

def afterAll (script : List (Atom ρ)) (h : Held ρ) : Held ρ :=
  script.foldl (fun h a => a.after h) h

theorem Begins.eq_afterAll (hb : Begins A h [] h') : h' = afterAll A h := by
  generalize hnil : ([] : List (Atom ρ)) = none at hb
  induction hb with
  | none script h => rw [← hnil]; rfl
  | next _ _ ih => exact ih hnil

theorem Begins.first_met {a : Atom ρ} (hb : Begins (a :: A) h [] h') :
    a.met h = true ∧ Begins A (a.after h) [] h' := by
  cases hb with
  | next hmet hrest => exact ⟨hmet, hrest⟩

/-- From the states in `P` the procedure executes the beginning of its script, all of it if it
returns a value that counts as `done`. It stops for the lack of a resource only where the script
needs that resource. -/
def Obeys (held : σ → Held ρ) (lacks : ε → Option ρ) (P : σ → Prop) (done : α → Prop)
    (script : List (Atom ρ)) (m : Action σ ε α) : Prop :=
  ∀ s, P s → ∃ rest, Begins script (held s) rest (held (m.run s).2) ∧
    (∀ a, (m.run s).1 = .ok a → done a → rest = []) ∧
    ∀ e r, (m.run s).1 = .error e → lacks e = some r →
      ∃ ns tail n, rest = .needs ns :: tail ∧ n ∈ ns ∧ n.resource = r ∧
        n.met (held (m.run s).2) = false

variable {held : σ → Held ρ} {lacks : ε → Option ρ} {P : σ → Prop} {done done' : α → Prop}
  {script : List (Atom ρ)} {m : Action σ ε α}

theorem Obeys.weaken {P' : σ → Prop} (hm : Obeys held lacks P done script m)
    (hP : ∀ s, P' s → P s) (hdone : ∀ a, done' a → done a) :
    Obeys held lacks P' done' script m := by
  intro s hs
  obtain ⟨rest, hbegins, hok, herror⟩ := hm s (hP s hs)
  exact ⟨rest, hbegins, fun a ha hd => hok a ha (hdone a hd), herror⟩

/-- Returning early leaves any script undone. -/
theorem obeys_early {a : α} (ha : ¬ done a) :
    Obeys held lacks P done script (pure a : Action σ ε α) := by
  intro s _
  refine ⟨script, .none _ _, fun b hb hd => ?_, by simp⟩
  rw [← Except.ok.inj hb] at hd
  exact (ha hd).elim

theorem obeys_pure (a : α) : Obeys held lacks P done [] (pure a : Action σ ε α) :=
  fun s _ => ⟨[], .none _ _, fun _ _ _ => rfl, by simp⟩

theorem obeys_stop {e : ε} (he : lacks e = none) :
    Obeys held lacks P done script (Action.stop e : Action σ ε α) := by
  intro s _
  refine ⟨script, .none _ _, by simp, fun e' r herror hr => ?_⟩
  rw [← Except.error.inj herror, he] at hr
  simp at hr

/-- A procedure that leaves the resources alone and never lacks one. -/
theorem obeys_silent (hkeeps : ∀ s, P s → held (m.run s).2 = held s)
    (hlacks : ∀ s e, P s → (m.run s).1 = .error e → lacks e = none) :
    Obeys held lacks P done [] m := by
  intro s hs
  refine ⟨[], ?_, fun _ _ _ => rfl, fun e r herror hr => ?_⟩
  · rw [hkeeps s hs]
    exact .none _ _
  · rw [hlacks s e hs herror] at hr
    simp at hr

/-- Looking at resources. -/
theorem obeys_needs {ns : List (Need ρ)} (hkeeps : ∀ s, P s → held (m.run s).2 = held s)
    (hok : ∀ s a, P s → (m.run s).1 = .ok a → ∀ n ∈ ns, n.met (held s) = true)
    (herror : ∀ s e r, P s → (m.run s).1 = .error e → lacks e = some r →
      ∃ n ∈ ns, n.resource = r ∧ n.met (held s) = false) :
    Obeys held lacks P done [.needs ns] m := by
  intro s hs
  rw [hkeeps s hs]
  rcases hrun : (m.run s).1 with e | a
  · refine ⟨_, .none _ _, by simp, fun e' r he' hr => ?_⟩
    rw [← Except.error.inj he'] at hr
    obtain ⟨n, hn, hresource, hmet⟩ := herror s e r hs hrun hr
    exact ⟨ns, [], n, rfl, hn, hresource, hmet⟩
  · refine ⟨[], .next ?_ (.none _ _), fun _ _ _ => rfl, by simp⟩
    exact List.all_eq_true.mpr (hok s a hs hrun)

theorem obeys_update {f : σ → σ} {gives takes : List ρ} {done : Unit → Prop}
    (hf : ∀ s, P s → held (f s) = (Atom.update gives takes).after (held s)) :
    Obeys held lacks P done [.update gives takes] (Action.modify f : Action σ ε Unit) := by
  intro s hs
  refine ⟨[], .next rfl ?_, fun _ _ _ => rfl, by simp⟩
  rw [Action.run_modify, hf s hs]
  exact .none _ _

/-- One procedure after another. What the first returns when it is not done has to be passed on
as it is. -/
theorem obeys_bind_of {f : α → Action σ ε β} {Q : α → σ → Prop} {done : β → Prop}
    {goesOn : α → Prop} (hm : Obeys held lacks P goesOn A m)
    (hpost : ∀ s a, P s → (m.run s).1 = .ok a → goesOn a → Q a (m.run s).2)
    (hf : ∀ a, goesOn a → Obeys held lacks (Q a) done B (f a))
    (hearly : ∀ a, ¬ goesOn a → ∃ b, f a = pure b ∧ ¬ done b) :
    Obeys held lacks P done (A ++ B) (m >>= f) := by
  intro s hs
  obtain ⟨rest, hbegins, hok, herror⟩ := hm s hs
  have hend := hpost s
  rw [Action.run_bind]
  rcases hrun : m.run s with ⟨r, t⟩
  rw [hrun] at hbegins hok herror hend
  rcases r with e | a
  · dsimp only at hbegins herror ⊢
    refine ⟨rest ++ B, hbegins.append_left B, by simp, fun e' r he' hr => ?_⟩
    have hsame : e = e' := Except.error.inj he'
    obtain ⟨ns, tail, n, hrest, hn, hmet⟩ := herror e' r (by rw [hsame]) hr
    exact ⟨ns, tail ++ B, n, by rw [hrest]; rfl, hn, hmet⟩
  · by_cases ha : goesOn a
    · obtain ⟨rest', hbegins', hok', herror'⟩ := hf a ha t (hend a hs rfl ha)
      rw [hok a rfl ha] at hbegins
      exact ⟨rest', hbegins.append hbegins', hok', herror'⟩
    · obtain ⟨b, hb, hnot⟩ := hearly a ha
      dsimp only
      rw [hb]
      refine ⟨rest ++ B, hbegins.append_left B, fun c hc hd => ?_, by simp⟩
      rw [← Except.ok.inj hc] at hd
      exact (hnot hd).elim

theorem obeys_bind {f : α → Action σ ε β} {done : β → Prop}
    (hm : Obeys held lacks P (fun _ => True) A m)
    (hf : ∀ a, Obeys held lacks (fun _ => True) done B (f a)) :
    Obeys held lacks P done (A ++ B) (m >>= f) :=
  obeys_bind_of (Q := fun _ _ => True) hm (fun _ _ _ _ _ => trivial) (fun a _ => hf a)
    fun _ h => (h trivial).elim

/-- The first atom, then the rest. -/
theorem obeys_cons {a : Atom ρ} {f : α → Action σ ε β} {done : β → Prop}
    (hm : Obeys held lacks P (fun _ => True) [a] m)
    (hf : ∀ a, Obeys held lacks (fun _ => True) done B (f a)) :
    Obeys held lacks P done (a :: B) (m >>= f) :=
  obeys_bind hm hf

theorem obeys_quiet {f : α → Action σ ε β} {done : β → Prop}
    (hm : Obeys held lacks P (fun _ => True) [] m)
    (hf : ∀ a, Obeys held lacks (fun _ => True) done B (f a)) :
    Obeys held lacks P done B (m >>= f) :=
  obeys_bind hm hf

section Analysis
variable (imps : List (ρ × ρ))

/-- Whoever holds the first resource of an implication holds the second. -/
def Closed (h : Held ρ) : Prop := ∀ i ∈ imps, h i.1 = true → h i.2 = true

/-- What has to be held if these are. -/
def consequences (known : List ρ) : List ρ :=
  known ++ (imps.filter fun i => i.1 ∈ known).map Prod.snd

/-- An update that gives the premise of an implication gives or leaves its conclusion, and one
that takes the conclusion takes the premise. -/
def Atom.sound (known : List ρ) : Atom ρ → Bool
  | needs _ => true
  | update gives takes => imps.all fun i =>
      if i.1 ∈ gives then decide (i.2 ∈ gives ∨ i.2 ∈ consequences imps known ∧ i.2 ∉ takes)
      else decide (i.1 ∈ takes ∨ i.2 ∈ gives ∨ i.2 ∉ takes)

/-- What is known to be held after an atom. -/
def Atom.leaves (known : List ρ) : Atom ρ → List ρ
  | needs ns => (ns.filter fun n => n.others.isEmpty).map Need.resource ++ known
  | update gives takes => gives ++ (consequences imps known).filter (· ∉ takes)

def sound : List ρ → List (Atom ρ) → Bool
  | _, [] => true
  | known, a :: script => a.sound imps known && sound (a.leaves imps known) script

/-- The need is met wherever these resources are held. -/
def Need.assured (known : List ρ) (n : Need ρ) : Bool :=
  (n.resource :: n.others).any fun r => decide (r ∈ consequences imps known)

/-- The needs of a script that are not known to be met when it gets to them. -/
def mayLack : List ρ → List (Atom ρ) → List ρ
  | _, [] => []
  | known, .needs ns :: script =>
    (ns.filter fun n => !n.assured imps known).map Need.resource ++
      mayLack ((Atom.needs ns).leaves imps known) script
  | known, .update gives takes :: script =>
    mayLack ((Atom.update gives takes).leaves imps known) script

variable {imps} {known : List ρ} {a : Atom ρ}

theorem holds_consequences (hclosed : Closed imps h) (hknown : ∀ r ∈ known, h r = true) :
    ∀ r ∈ consequences imps known, h r = true := by
  intro r hr
  rcases List.mem_append.mp hr with hr | hr
  · exact hknown r hr
  · obtain ⟨i, hi, rfl⟩ := List.mem_map.mp hr
    obtain ⟨hi, hfirst⟩ := List.mem_filter.mp hi
    exact hclosed i hi (hknown i.1 (of_decide_eq_true hfirst))

theorem after_update_iff {gives takes : List ρ} {r : ρ} :
    (Atom.update gives takes).after h r = true ↔ r ∈ gives ∨ h r = true ∧ r ∉ takes := by
  simp [Atom.after]

theorem closed_after (hclosed : Closed imps h) (hknown : ∀ r ∈ known, h r = true)
    (hsound : a.sound imps known = true) : Closed imps (a.after h) := by
  cases a with
  | needs ns => exact hclosed
  | update gives takes =>
    intro i hi hfirst
    have hcheck := List.all_eq_true.mp hsound i hi
    rw [after_update_iff] at hfirst ⊢
    by_cases hgiven : i.1 ∈ gives
    · rw [if_pos hgiven] at hcheck
      rcases of_decide_eq_true hcheck with hsecond | ⟨hsecond, htakes⟩
      · exact Or.inl hsecond
      · exact Or.inr ⟨holds_consequences hclosed hknown _ hsecond, htakes⟩
    · rw [if_neg hgiven] at hcheck
      obtain ⟨hheld, htakes⟩ := hfirst.resolve_left hgiven
      rcases of_decide_eq_true hcheck with htaken | hsecond | hkept
      · exact (htakes htaken).elim
      · exact Or.inl hsecond
      · exact Or.inr ⟨hclosed i hi hheld, hkept⟩

theorem holds_leaves (hclosed : Closed imps h) (hknown : ∀ r ∈ known, h r = true)
    (hmet : a.met h = true) : ∀ r ∈ a.leaves imps known, a.after h r = true := by
  intro r hr
  cases a with
  | needs ns =>
    rcases List.mem_append.mp hr with hr | hr
    · obtain ⟨n, hn, rfl⟩ := List.mem_map.mp hr
      obtain ⟨hn, hothers⟩ := List.mem_filter.mp hn
      have hall := List.all_eq_true.mp hmet n hn
      simpa [Atom.after, Need.met, List.isEmpty_iff.mp hothers] using hall
    · exact hknown r hr
  | update gives takes =>
    rw [after_update_iff]
    rcases List.mem_append.mp hr with hr | hr
    · exact Or.inl hr
    · obtain ⟨hr, htakes⟩ := List.mem_filter.mp hr
      exact Or.inr ⟨holds_consequences hclosed hknown r hr, of_decide_eq_true htakes⟩

/-- A sound script keeps the implications wherever it is left. -/
theorem Begins.closed (hb : Begins script h rest h') (hsound : sound imps known script = true)
    (hclosed : Closed imps h) (hknown : ∀ r ∈ known, h r = true) : Closed imps h' := by
  induction hb generalizing known with
  | none script h => exact hclosed
  | next hmet _ ih =>
    rw [sound, Bool.and_eq_true] at hsound
    exact ih hsound.2 (closed_after hclosed hknown hsound.1) (holds_leaves hclosed hknown hmet)

theorem Need.met_of_assured {n : Need ρ} (hclosed : Closed imps h)
    (hknown : ∀ r ∈ known, h r = true) (hn : n.assured imps known = true) : n.met h = true := by
  obtain ⟨r, hr, hcons⟩ := List.any_eq_true.mp hn
  have hheld := holds_consequences hclosed hknown r (of_decide_eq_true hcons)
  rcases List.mem_cons.mp hr with rfl | hr
  · simp [Need.met, hheld]
  · rw [Need.met, Bool.or_eq_true]
    exact Or.inr (List.any_eq_true.mpr ⟨r, hr, hheld⟩)

/-- A script that is left at a need it does not meet is left at one of those that may fail. -/
theorem Begins.mem_mayLack {ns : List (Need ρ)} {n : Need ρ} {tail : List (Atom ρ)}
    (hb : Begins script h rest h') (hrest : rest = .needs ns :: tail) (hn : n ∈ ns)
    (hmet : n.met h' = false) (hsound : sound imps known script = true)
    (hclosed : Closed imps h) (hknown : ∀ r ∈ known, h r = true) :
    n.resource ∈ mayLack imps known script := by
  induction hb generalizing known with
  | none script h =>
    have hnot : n.assured imps known = false := by
      rw [Bool.eq_false_iff]
      intro hassured
      rw [Need.met_of_assured hclosed hknown hassured] at hmet
      simp at hmet
    rw [hrest, mayLack]
    refine List.mem_append_left _ (List.mem_map_of_mem (List.mem_filter.mpr ⟨hn, ?_⟩))
    rw [hnot, Bool.not_false]
  | @next a script rest h h' hmeta _ ih =>
    rw [sound, Bool.and_eq_true] at hsound
    have hlater := ih hrest hmet hsound.2 (closed_after hclosed hknown hsound.1)
      (holds_leaves hclosed hknown hmeta)
    cases a with
    | needs ns' => exact List.mem_append_right _ hlater
    | update gives takes => exact hlater

end Analysis
end Execution

/-- A caller that makes calls and sees their answers, and goes on after those it can go on
after. -/
inductive Trace (call : κ → Action σ ε Bool) (goesOn : Except ε Bool → Prop) :
    σ → List (κ × Except ε Bool) → σ → Prop where
  | nil (s : σ) : Trace call goesOn s [] s
  | cons {k : κ} {s t u : σ} {r : Except ε Bool} {es : List (κ × Except ε Bool)} :
      (call k).run s = (r, t) → goesOn r → Trace call goesOn t es u →
      Trace call goesOn s ((k, r) :: es) u

/-- Make the calls one after the other, as long as one can go on, and collect the answers. -/
def play (call : κ → Action σ ε Bool) (goesOn : Except ε Bool → Prop) [DecidablePred goesOn] :
    List κ → σ → Option (List (Except ε Bool) × σ)
  | [], s => some ([], s)
  | k :: ks, s =>
    if goesOn ((call k).run s).1 then
      (play call goesOn ks ((call k).run s).2).map fun r => (((call k).run s).1 :: r.1, r.2)
    else none

section Traces
variable {call : κ → Action σ ε Bool} {goesOn : Except ε Bool → Prop} {s t : σ}
  {es : List (κ × Except ε Bool)}

/-- What every call keeps holds after all of them. -/
theorem Trace.invariant {I : σ → Prop} (h : Trace call goesOn s es t)
    (hI : ∀ k, Action.Keeps I (call k)) (hs : I s) : I t := by
  induction h with
  | nil s => exact hs
  | @cons k s u v r es hrun _ _ ih =>
    have hu := hI k s hs
    rw [hrun] at hu
    exact ih hu

/-- Callers that start in states no call tells apart can see the same answers. -/
theorem Trace.uniform {R : σ → σ → Prop} (h : Trace call goesOn s es t)
    (hcalls : ∀ k, Uniform R (call k)) {s' : σ} (hs : R s s') :
    ∃ t', Trace call goesOn s' es t' ∧ R t t' := by
  induction h generalizing s' with
  | nil s => exact ⟨s', .nil s', hs⟩
  | @cons k s t u r es hrun hgoes _ ih =>
    obtain ⟨hanswer, hend⟩ := hcalls k s s' hs
    rw [hrun] at hanswer hend
    obtain ⟨u', htrace, hu⟩ := ih hend
    have hrun' : (call k).run s' = (r, ((call k).run s').2) := Prod.ext hanswer rfl
    exact ⟨u', .cons hrun' hgoes htrace, hu⟩

/-- Calls of another kind that do the same wherever one can go on. -/
theorem Trace.map {κ' : Type} {call' : κ' → Action σ ε Bool} {f : κ → κ'}
    (h : Trace call goesOn s es t)
    (hsame : ∀ k s, goesOn ((call k).run s).1 → (call' (f k)).run s = (call k).run s) :
    Trace call' goesOn s (es.map fun e => (f e.1, e.2)) t := by
  induction h with
  | nil s => exact .nil s
  | @cons k s t u r es hrun hgoes _ ih =>
    refine .cons ?_ hgoes ih
    rw [hsame k s (by rw [hrun]; exact hgoes), hrun]

theorem trace_of_play [DecidablePred goesOn] {ks : List κ} {rs : List (Except ε Bool)}
    (h : play call goesOn ks s = some (rs, t)) : Trace call goesOn s (ks.zip rs) t := by
  induction ks generalizing s t rs with
  | nil =>
    obtain ⟨_, hst⟩ := Prod.mk.inj (Option.some.inj h)
    rw [← hst]
    exact .nil s
  | cons k ks ih =>
    rw [play] at h
    split at h
    · rename_i hon
      obtain ⟨⟨rs', t'⟩, hplay, hpair⟩ := Option.map_eq_some_iff.mp h
      have hrest := ih hplay
      obtain ⟨rfl, rfl⟩ := Prod.mk.inj hpair
      exact .cons rfl hon hrest
    · simp at h

/-- What holds of the past and the present, call by call. -/
theorem Trace.history {I : List (κ × Except ε Bool) → σ → Prop} (h : Trace call goesOn s es t)
    (hs : I [] s)
    (hstep : ∀ es k s r t, I es s → (call k).run s = (r, t) → goesOn r → I (es ++ [(k, r)]) t) :
    I es t := by
  suffices hgeneral : ∀ past, I past s → I (past ++ es) t from hgeneral [] hs
  clear hs
  induction h with
  | nil s =>
    intro past hpast
    rw [List.append_nil]
    exact hpast
  | @cons k s u t r es hrun hgoes _ ih =>
    intro past hpast
    rw [List.append_cons]
    exact ih _ (hstep past k s r u hpast hrun hgoes)

variable [DecidableEq ρ] {held : σ → Held ρ} {lacks : ε → Option ρ} {imps : List (ρ × ρ)}
  {script : κ → List (Atom ρ)} {done : κ → Bool → Prop}

/-- Procedures with sound scripts keep the implications, in whatever order they are called. -/
theorem Trace.closed (h : Trace call goesOn s es t)
    (hobeys : ∀ k, Obeys held lacks (fun _ => True) (done k) (script k) (call k))
    (hsound : ∀ k, sound imps [] (script k) = true) (hs : Closed imps (held s)) :
    Closed imps (held t) := by
  refine h.invariant (I := fun s => Closed imps (held s)) (fun k s hs => ?_) hs
  obtain ⟨rest, hbegins, _⟩ := hobeys k s trivial
  exact hbegins.closed (hsound k) hs (by simp)

/-- After any calls, a procedure can only lack what its script may lack. -/
theorem Trace.lacks_mem (h : Trace call goesOn s es t)
    (hobeys : ∀ k, Obeys held lacks (fun _ => True) (done k) (script k) (call k))
    (hsound : ∀ k, sound imps [] (script k) = true) (hs : Closed imps (held s)) {k : κ} {e : ε}
    {r : ρ} (hrun : ((call k).run t).1 = .error e) (hr : lacks e = some r) :
    r ∈ mayLack imps [] (script k) := by
  have hclosed := h.closed hobeys hsound hs
  obtain ⟨rest, hbegins, _, herror⟩ := hobeys k t trivial
  obtain ⟨ns, tail, n, hrest, hn, rfl, hmet⟩ := herror e r hrun hr
  exact hbegins.mem_mayLack hrest hn hmet (hsound k) hclosed (by simp)

end Traces
end Scripts
