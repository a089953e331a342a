import ProofProducer.Shared.Relational

/-!
# Actions put together from primitives

An action is composed of primitive ones if it runs them one after the other and chooses the next
by the answers so far. A primitive comes with a promise about its answers. What goes alike for
the primitives goes alike for all that is composed of them.
-/

namespace Composition

open Effects Relational

set_option autoImplicit false

/-- Which actions are primitive, and what they promise of their answers. -/
abbrev Primitives (σ ε : Type) := ∀ α : Type, Action σ ε α → (α → Prop) → Prop

variable {σ ε α β : Type}

inductive Composed (prims : Primitives σ ε) : {α : Type} → (α → Prop) → Action σ ε α → Prop where
  | pure {α : Type} {Q : α → Prop} {a : α} : Q a → Composed prims Q (Pure.pure a)
  | stop {α : Type} {Q : α → Prop} (e : ε) : Composed prims Q (Action.stop e)
  | primitive {α : Type} {Q : α → Prop} {m : Action σ ε α} : prims α m Q → Composed prims Q m
  | bind {α β : Type} {P : α → Prop} {Q : β → Prop} {m : Action σ ε α} {f : α → Action σ ε β} :
      Composed prims P m → (∀ a, P a → Composed prims Q (f a)) → Composed prims Q (m >>= f)

/-- No promise. -/
abbrev Anything {α : Type} (_ : α) : Prop := True

variable {prims : Primitives σ ε} {m : Action σ ε α} {f : α → Action σ ε β} {P : α → Prop}
  {Q : β → Prop}

/-- A primitive, then the rest. -/
theorem Composed.after (hm : prims α m P) (hf : ∀ a, P a → Composed prims Q (f a)) :
    Composed prims Q (m >>= f) := .bind (.primitive hm) hf

theorem composed_ite {c : Prop} [Decidable c] {m n : Action σ ε α}
    (hm : c → Composed prims P m) (hn : ¬ c → Composed prims P n) :
    Composed prims P (if c then m else n) := by
  by_cases hc : c
  · rw [if_pos hc]
    exact hm hc
  · rw [if_neg hc]
    exact hn hc

theorem composed_allOf {ms : List (Action σ ε Bool)} (h : ∀ m ∈ ms, Composed prims Anything m) :
    Composed prims Anything (Action.allOf ms) := by
  induction ms with
  | nil => exact .pure trivial
  | cons m ms ih =>
    rw [Action.allOf_cons]
    refine .bind (h m List.mem_cons_self) fun b _ => ?_
    exact composed_ite (fun _ => ih fun n hn => h n (List.mem_cons_of_mem m hn))
      fun _ => .pure trivial

/-- From related states the action answers alike, keeps its promise and ends in related states. -/
def Faithful (R : σ → σ → Prop) (P : α → Prop) (m : Action σ ε α) : Prop :=
  ∀ s t, R s t → (m.run t).1 = (m.run s).1 ∧ R (m.run s).2 (m.run t).2 ∧
    ∀ a, (m.run s).1 = .ok a → P a

theorem Composed.faithful {R : σ → σ → Prop} (h : Composed prims P m)
    (hprims : ∀ {α} {m : Action σ ε α} {P : α → Prop}, prims α m P → Faithful R P m) :
    Faithful R P m := by
  induction h with
  | @pure α Q a ha =>
    intro s t hst
    refine ⟨rfl, hst, fun b hb => ?_⟩
    rw [← Except.ok.inj hb]
    exact ha
  | stop e => exact fun s t hst => ⟨rfl, hst, fun a ha => by simp at ha⟩
  | primitive hm => exact hprims hm
  | @bind α β P Q m f _ _ ihm ihf =>
    intro s t hst
    obtain ⟨hanswer, hend, hpromise⟩ := ihm s t hst
    rw [Action.run_bind, Action.run_bind]
    rcases hs : m.run s with ⟨r, s'⟩
    rcases ht : m.run t with ⟨r', t'⟩
    rw [hs, ht] at hanswer hend
    rw [hs] at hpromise
    obtain rfl : r' = r := hanswer
    cases r' with
    | error e => exact ⟨rfl, hend, fun a ha => by simp at ha⟩
    | ok a => exact ihf a (hpromise a rfl) s' t' hend

theorem Composed.uniform {R : σ → σ → Prop} (h : Composed prims P m)
    (hprims : ∀ {α} {m : Action σ ε α} {P : α → Prop}, prims α m P → Faithful R P m) :
    Uniform R m := by
  intro s t hst
  obtain ⟨hanswer, hend, _⟩ := h.faithful hprims s t hst
  exact ⟨hanswer, hend⟩

/-- An action that is over and only has its result to give. -/
def finished : Except ε α → Action σ ε α
  | .ok a => Pure.pure a
  | .error e => Action.stop e

@[simp] theorem run_finished (r : Except ε α) (s : σ) :
    (finished r : Action σ ε α).run s = (r, s) := by
  cases r <;> rfl

/-- A composed action is over or begins with a primitive. -/
theorem Composed.next (h : Composed prims P m) :
    (∃ r, m = finished r ∧ ∀ a, r = .ok a → P a) ∨
      ∃ (γ : Type) (p : Action σ ε γ) (O : γ → Prop) (f : γ → Action σ ε α),
        prims γ p O ∧ m = p >>= f ∧ ∀ c, O c → Composed prims P (f c) := by
  induction h with
  | @pure α Q a ha =>
    refine Or.inl ⟨.ok a, rfl, fun b hb => ?_⟩
    rw [← Except.ok.inj hb]
    exact ha
  | stop e => exact Or.inl ⟨.error e, rfl, fun a ha => by simp at ha⟩
  | @primitive α Q m hm =>
    exact Or.inr ⟨α, m, Q, Pure.pure, hm, (Action.bind_pure m).symm, fun c hc => .pure hc⟩
  | @bind α β P Q m f _ hf ihm ihf =>
    rcases ihm with ⟨r, rfl, hr⟩ | ⟨γ, p, O, g, hp, rfl, hg⟩
    · cases r with
      | ok a => exact ihf a (hr a rfl)
      | error e => exact Or.inl ⟨.error e, rfl, fun a ha => by simp at ha⟩
    · refine Or.inr ⟨γ, p, O, fun c => g c >>= f, hp, Action.bind_assoc p g f, fun c hc => ?_⟩
      exact .bind (hg c hc) hf

end Composition
