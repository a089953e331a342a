import ProofProducer.Shared.Composition
import Mathlib.Logic.Function.Basic
import Mathlib.Logic.Relation

/-!
# Composed actions that take turns

Every process has an action to execute on a state of its own, a part of which it shares with the
others. It executes one primitive at a time, and primitives of the others may come between any
two. If no process changes what another can see of the shared part, each ends as it does alone.
-/

namespace Concurrency

open Effects Composition Relation

set_option autoImplicit false

/-- How a part of type `σ` sits in the states of type `S`. -/
structure Part (S σ : Type) where
  get : S → σ
  put : S → σ → S
  get_put : ∀ s x, get (put s x) = x
  put_get : ∀ s, put s (get s) = s

section Processes
variable {S σ ε α β γ : Type}

/-- A process with what is left of its action. The shared part of its own state is out of date. -/
structure Process (S ε α : Type) where
  own : S
  rest : Action S ε α

/-- The process goes on with an answer, or an error ends it. -/
def Process.resume (f : γ → Action S ε α) : Except ε γ × S → Process S ε α
  | (.ok c, s) => ⟨s, f c⟩
  | (.error e, s) => ⟨s, Action.stop e⟩

variable {prims : Primitives S ε} {part : Part S σ} {R : S → S → Prop} {m : Action S ε α}
  {P : α → Prop} {q q' : Process S ε α} {x x' : σ} {a a₀ s : S}

/-- The process executes the next primitive. What is left of an action may be cut into primitives
in several ways; any of them is allowed. -/
inductive Turn (prims : Primitives S ε) (part : Part S σ) :
    Process S ε α → σ → Process S ε α → σ → Prop where
  | primitive {γ : Type} {p : Action S ε γ} {O : γ → Prop} {f : γ → Action S ε α} (s : S) (x : σ) :
      prims γ p O → (∀ c, O c → Composed prims Anything (f c)) →
      Turn prims part ⟨s, p >>= f⟩ x (Process.resume f (p.run (part.put s x)))
        (part.get (p.run (part.put s x)).2)

/-- The process is where `m` would be that has started in `a₀` without the others. -/
structure AsAlone (prims : Primitives S ε) (part : Part S σ) (R : S → S → Prop)
    (m : Action S ε α) (a₀ : S) (q : Process S ε α) (x : σ) : Prop where
  alone : ∃ a, R a (part.put q.own x) ∧ q.rest.run a = m.run a₀
  composed : Composed prims Anything q.rest

theorem AsAlone.start (h : Composed prims Anything m) (hs : R (part.put s x) (part.put s x)) :
    AsAlone prims part R m (part.put s x) ⟨s, m⟩ x :=
  ⟨⟨part.put s x, hs, rfl⟩, h⟩

theorem AsAlone.turn (hfaithful : ∀ {γ} {p : Action S ε γ} {O}, prims γ p O → Faithful R O p)
    (h : AsAlone prims part R m a₀ q x) (hturn : Turn prims part q x q' x') :
    AsAlone prims part R m a₀ q' x' := by
  obtain ⟨⟨a, hR, hrest⟩, _⟩ := h
  cases hturn with
  | @primitive γ p O f s x hp hf =>
    obtain ⟨hanswer, hend, hpromise⟩ := hfaithful hp _ _ hR
    change (p >>= f).run a = m.run a₀ at hrest
    rw [Action.run_bind] at hrest
    change R a (part.put s x) at hR
    rcases ha : p.run a with ⟨r, a'⟩
    rcases hs : p.run (part.put s x) with ⟨r', s'⟩
    rw [ha, hs] at hanswer hend
    rw [ha] at hpromise hrest
    obtain rfl : r' = r := hanswer
    have hput : R a' (part.put s' (part.get s')) := by
      rw [part.put_get]
      exact hend
    cases r' with
    | ok c => exact ⟨⟨a', hput, hrest⟩, hf c (hpromise c rfl)⟩
    | error e => exact ⟨⟨a', hput, hrest⟩, .stop e⟩

/-- A process that has come to its end has the answer it has alone, and sees what it leaves
alone. -/
theorem AsAlone.result (h : AsAlone prims part R m a₀ q x) {r : Except ε α}
    (hr : q.rest = finished r) : (m.run a₀).1 = r ∧ R (m.run a₀).2 (part.put q.own x) := by
  obtain ⟨⟨a, hR, hrest⟩, _⟩ := h
  rw [hr, run_finished] at hrest
  rw [← hrest]
  exact ⟨rfl, hR⟩

/-- Several turns of one process. -/
abbrev Turns (prims : Primitives S ε) (part : Part S σ) :
    Process S ε α × σ → Process S ε α × σ → Prop :=
  ReflTransGen fun a b => Turn prims part a.1 a.2 b.1 b.2

/-- The beginning of an action is executed, or an error ends it. The induction is on the way it is
composed, for any continuation. -/
theorem Composed.executed (h : Composed prims P m)
    (hfaithful : ∀ {γ} {p : Action S ε γ} {O}, prims γ p O → Faithful R O p)
    {k : α → Action S ε β} (hk : ∀ a, P a → Composed prims Anything (k a))
    (hR : R a (part.put s x)) :
    ∃ s' x' a', R a' (part.put s' x') ∧
      ((∃ c, P c ∧ Turns prims part (⟨s, m >>= k⟩, x) (⟨s', k c⟩, x')) ∨
        ∃ e, Turns prims part (⟨s, m >>= k⟩, x) (⟨s', Action.stop e⟩, x')) := by
  induction h generalizing s x a with
  | @pure α Q c hc => exact ⟨s, x, a, hR, Or.inl ⟨c, hc, .refl⟩⟩
  | stop e => exact ⟨s, x, a, hR, Or.inr ⟨e, .refl⟩⟩
  | @primitive α Q m hm =>
    obtain ⟨hanswer, hend, hpromise⟩ := hfaithful hm _ _ hR
    have hturn : Turn prims part ⟨s, m >>= k⟩ x (Process.resume k (m.run (part.put s x)))
        (part.get (m.run (part.put s x)).2) := .primitive s x hm hk
    rcases hs : m.run (part.put s x) with ⟨r, s'⟩
    rw [hs] at hanswer hend hturn
    rw [← hanswer] at hpromise
    have hput : R (m.run a).2 (part.put s' (part.get s')) := by
      rw [part.put_get]
      exact hend
    refine ⟨s', part.get s', (m.run a).2, hput, ?_⟩
    cases r with
    | ok c => exact Or.inl ⟨c, hpromise c rfl, .single hturn⟩
    | error e => exact Or.inr ⟨e, .single hturn⟩
  | @bind α β' P Q m f _ hf ihm ihf =>
    rw [Action.bind_assoc]
    obtain ⟨s₁, x₁, a₁, hR₁, hm⟩ := ihm (k := fun c => f c >>= k)
      (fun c hc => .bind (hf c hc) hk) hR
    rcases hm with ⟨c, hc, hturns⟩ | ⟨e, hturns⟩
    · obtain ⟨s₂, x₂, a₂, hR₂, hrest⟩ := ihf c hc hk hR₁
      refine ⟨s₂, x₂, a₂, hR₂, ?_⟩
      rcases hrest with ⟨b, hb, hmore⟩ | ⟨e, hmore⟩
      · exact Or.inl ⟨b, hb, hturns.trans hmore⟩
      · exact Or.inr ⟨e, hturns.trans hmore⟩
    · exact ⟨s₁, x₁, a₁, hR₁, Or.inr ⟨e, hturns⟩⟩

/-- Wherever it is, a process comes to its end if it gets all the turns. -/
theorem AsAlone.can_finish (hfaithful : ∀ {γ} {p : Action S ε γ} {O}, prims γ p O → Faithful R O p)
    (h : AsAlone prims part R m a₀ q x) :
    ∃ q' x', Turns prims part (q, x) (q', x') ∧ ∃ r, q'.rest = finished r := by
  obtain ⟨⟨a, hR, _⟩, hcomposed⟩ := h
  obtain ⟨s, rest⟩ := q
  obtain ⟨s', x', _, _, hend⟩ := Composed.executed hcomposed hfaithful (k := Pure.pure)
    (fun c _ => .pure trivial) hR
  rw [Action.bind_pure] at hend
  rcases hend with ⟨c, _, hturns⟩ | ⟨e, hturns⟩
  · exact ⟨_, x', hturns, .ok c, rfl⟩
  · exact ⟨_, x', hturns, .error e, rfl⟩

theorem AsAlone.turns (hfaithful : ∀ {γ} {p : Action S ε γ} {O}, prims γ p O → Faithful R O p)
    (h : AsAlone prims part R m a₀ q x) (hturns : Turns prims part (q, x) (q', x')) :
    AsAlone prims part R m a₀ q' x' := by
  generalize hb : (q', x') = b at hturns
  induction hturns generalizing q' x' with
  | refl =>
    obtain ⟨rfl, rfl⟩ := Prod.mk.inj hb
    exact h
  | @tail c b _ hturn ih =>
    subst b
    have hc : AsAlone prims part R m a₀ c.1 c.2 := ih rfl
    exact hc.turn hfaithful hturn

/-- A process that gets all the turns executes its action. -/
theorem turns_of_run {I : S → Prop} (hkept : ∀ {γ} {p : Action S ε γ} {O}, prims γ p O →
      ∀ s, I s → I (p.run s).2 ∧ ∀ c, (p.run s).1 = .ok c → O c)
    (h : Composed prims Anything m) (hs : I (part.put s x)) :
    ∃ s', Turns prims part (⟨s, m⟩, x)
      (⟨s', finished (m.run (part.put s x)).1⟩, part.get (m.run (part.put s x)).2) := by
  have hfaithful : ∀ {γ} {p : Action S ε γ} {O}, prims γ p O →
      Faithful (fun a b => I a ∧ b = a) O p := by
    rintro γ p O hp a b ⟨ha, rfl⟩
    obtain ⟨hend, hpromise⟩ := hkept hp _ ha
    exact ⟨rfl, ⟨hend, rfl⟩, hpromise⟩
  have hstart : AsAlone prims part (fun a b => I a ∧ b = a) m (part.put s x) ⟨s, m⟩ x :=
    .start h ⟨hs, rfl⟩
  obtain ⟨q, y, hturns, r, hr⟩ := hstart.can_finish hfaithful
  obtain ⟨hanswer, _, hend⟩ := (hstart.turns hfaithful hturns).result hr
  refine ⟨q.own, ?_⟩
  rw [hanswer, ← hend, part.get_put, ← hr]
  exact hturns

end Processes

section Pools
variable {ι σ ε α : Type} {S : ι → Type}

structure Pool (ι : Type) (S : ι → Type) (σ ε α : Type) where
  processes : ∀ i, Process (S i) ε α
  shared : σ

variable [DecidableEq ι] {prims : ∀ i, Primitives (S i) ε} {part : ∀ i, Part (S i) σ}
  {I : σ → Prop} {R : ∀ i, S i → S i → Prop} {g g' : Pool ι S σ ε α} {i : ι}

def Pool.set (g : Pool ι S σ ε α) (i : ι) (q : Process (S i) ε α) (x : σ) : Pool ι S σ ε α where
  processes := Function.update g.processes i q
  shared := x

@[simp] theorem Pool.processes_set_self (g : Pool ι S σ ε α) (q : Process (S i) ε α) (x : σ) :
    (g.set i q x).processes i = q := by
  simp [Pool.set]

theorem Pool.processes_set_of_ne {j : ι} (h : j ≠ i) (g : Pool ι S σ ε α)
    (q : Process (S i) ε α) (x : σ) : (g.set i q x).processes j = g.processes j := by
  simp [Pool.set, h]

/-- It is the turn of one of the processes. -/
inductive Step (prims : ∀ i, Primitives (S i) ε) (part : ∀ i, Part (S i) σ) :
    Pool ι S σ ε α → Pool ι S σ ε α → Prop where
  | turn (g : Pool ι S σ ε α) (i : ι) {q : Process (S i) ε α} {x : σ} :
      Turn (prims i) (part i) (g.processes i) g.shared q x → Step prims part g (g.set i q x)

/-- The turns of all processes, in any order. -/
abbrev Interleaved (prims : ∀ i, Primitives (S i) ε) (part : ∀ i, Part (S i) σ) :
    Pool ι S σ ε α → Pool ι S σ ε α → Prop := ReflTransGen (Step prims part)

/-- Whatever the primitives keep of the shared part holds in every interleaving. -/
theorem shared_kept
    (hkept : ∀ i {γ} {p : Action (S i) ε γ} {O}, prims i γ p O → ∀ s, I ((part i).get s) →
      I ((part i).get (p.run s).2))
    (h : Interleaved prims part g g') (hg : I g.shared) : I g'.shared := by
  induction h with
  | refl => exact hg
  | @tail g₁ g₂ _ hstep ih =>
    cases hstep with
    | turn i hturn =>
      generalize hq : g₁.processes i = q at hturn
      generalize hx : g₁.shared = y at hturn ih
      cases hturn with
      | @primitive γ p O f s x hp _ =>
        refine hkept i hp _ ?_
        rw [(part i).get_put]
        exact ih

/-- What each process can see: its primitives do not tell related states apart, and those of the
others keep the states related. -/
structure Views (prims : ∀ i, Primitives (S i) ε) (part : ∀ i, Part (S i) σ) (I : σ → Prop)
    (R : ∀ i, S i → S i → Prop) : Prop where
  kept : ∀ i {γ} {p : Action (S i) ε γ} {O}, prims i γ p O → ∀ s, I ((part i).get s) →
    I ((part i).get (p.run s).2)
  faithful : ∀ i {γ} {p : Action (S i) ε γ} {O}, prims i γ p O → Faithful (R i) O p
  frame : ∀ i j, i ≠ j → ∀ {γ} {p : Action (S i) ε γ} {O}, prims i γ p O →
    ∀ s b t, I ((part i).get s) → R j b ((part j).put t ((part i).get s)) →
      R j b ((part j).put t ((part i).get (p.run s).2))

/-- In every interleaving each process is where it would be without the others. -/
theorem Views.as_alone (hviews : Views prims part I R) {m : ∀ i, Action (S i) ε α}
    {a₀ : ∀ i, S i} (h : Interleaved prims part g g') (hg : I g.shared)
    (hstart : ∀ i, AsAlone (prims i) (part i) (R i) (m i) (a₀ i) (g.processes i) g.shared) :
    ∀ i, AsAlone (prims i) (part i) (R i) (m i) (a₀ i) (g'.processes i) g'.shared := by
  induction h with
  | refl => exact hstart
  | @tail g₁ g₂ hbefore hstep ih =>
    have hI : I g₁.shared := shared_kept hviews.kept hbefore hg
    cases hstep with
    | @turn i q' x' hturn =>
      intro j
      by_cases hji : j = i
      · subst j
        rw [Pool.processes_set_self]
        exact (ih i).turn (hviews.faithful i) hturn
      · rw [Pool.processes_set_of_ne hji]
        obtain ⟨⟨b, hR, hrest⟩, hcomposed⟩ := ih j
        refine ⟨⟨b, ?_, hrest⟩, hcomposed⟩
        change R j b ((part j).put (g₁.processes j).own x')
        generalize hq : g₁.processes i = q at hturn
        generalize hy : g₁.shared = y at hturn hI hR
        cases hturn with
        | @primitive γ p O f s x hp _ =>
          have hframe := hviews.frame i j (Ne.symm hji) hp ((part i).put s y) b
            (g₁.processes j).own
          rw [(part i).get_put] at hframe
          exact hframe hI hR

/-- Turns of one process, with the others standing still. -/
theorem Turns.interleaved {q : Process (S i) ε α} {x : σ}
    (h : Turns (prims i) (part i) (g.processes i, g.shared) (q, x)) :
    Interleaved prims part g (g.set i q x) := by
  generalize hb : (q, x) = b at h
  induction h generalizing q x with
  | refl =>
    obtain ⟨rfl, rfl⟩ := Prod.mk.inj hb
    have hsame : g.set i (g.processes i) g.shared = g := by
      unfold Pool.set
      rw [Function.update_eq_self]
    rw [hsame]
  | @tail c b _ hturn ih =>
    subst b
    obtain ⟨q₁, x₁⟩ := c
    refine (ih rfl).tail ?_
    have hset : g.set i q x = (g.set i q₁ x₁).set i q x := by
      unfold Pool.set
      rw [Function.update_idem]
    rw [hset]
    refine .turn _ i ?_
    rw [Pool.processes_set_self]
    exact hturn

/-- From wherever the processes are, each can be brought to its end. -/
theorem Views.can_finish (hviews : Views prims part I R) {m : Action (S i) ε α} {a₀ : S i}
    (h : AsAlone (prims i) (part i) (R i) m a₀ (g.processes i) g.shared) :
    ∃ g', Interleaved prims part g g' ∧ (∀ j, j ≠ i → g'.processes j = g.processes j) ∧
      ∃ r, (g'.processes i).rest = finished r := by
  obtain ⟨q, x, hturns, r, hr⟩ := h.can_finish (hviews.faithful i)
  refine ⟨g.set i q x, Turns.interleaved hturns, fun j hj => ?_, r, ?_⟩
  · exact Pool.processes_set_of_ne hj g q x
  · rw [Pool.processes_set_self]
    exact hr

end Pools
end Concurrency
