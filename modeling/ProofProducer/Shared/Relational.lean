import ProofProducer.Shared.Action

/-!
# Two runs of the same steps

Two runs of one chain of steps from related states go alike when every step answers the same in
both. The relation may change from step to step; one relation is kept whatever the answers are.
An action that goes alike from all states related by one relation is uniform, and so is what is
put together from uniform actions.
-/

namespace Relational

open Effects

set_option autoImplicit false

variable {σ ε ι : Type} {F P P' Q Q' R : σ → σ → Prop} {m : Action σ ε Bool}

/-- From states related by `P` the step answers the same twice. The states it ends in are related
by `F`, and by `Q` as well if the answer is yes. -/
def Couples (F P Q : σ → σ → Prop) (m : Action σ ε Bool) : Prop :=
  ∀ s t, P s t → ∃ r s' t', m.run s = (r, s') ∧ m.run t = (r, t') ∧ F s' t' ∧
    (r = .ok true → Q s' t')

theorem Couples.weaken (h : Couples F P Q m) (hP : ∀ s t, P' s t → P s t)
    (hQ : ∀ s t, Q s t → Q' s t) : Couples F P' Q' m := by
  intro s t hst
  obtain ⟨r, s', t', hs, ht, hF, hyes⟩ := h s t (hP s t hst)
  exact ⟨r, s', t', hs, ht, hF, fun hr => hQ s' t' (hyes hr)⟩

/-- A step whose precondition leaves something open. -/
theorem couples_exists {P : ι → σ → σ → Prop} (h : ∀ i, Couples F (P i) Q m) :
    Couples F (fun s t => ∃ i, P i s t) Q m := by
  intro s t hst
  obtain ⟨i, hi⟩ := hst
  exact h i s t hi

theorem couples_allOf_nil (hF : ∀ s t, P s t → F s t) :
    Couples F P P (Action.allOf [] : Action σ ε Bool) := by
  intro s t hst
  exact ⟨.ok true, s, t, rfl, rfl, hF s t hst, fun _ => hst⟩

/-- Both runs of a chain stop at the same step or get through together. -/
theorem couples_allOf_cons {ms : List (Action σ ε Bool)} (h : Couples F P Q m)
    (hs : Couples F Q R (Action.allOf ms)) : Couples F P R (Action.allOf (m :: ms)) := by
  intro s t hst
  obtain ⟨r, s', t', hs', ht', hF, hyes⟩ := h s t hst
  unfold Action.allOf
  rw [Action.run_bind, Action.run_bind, hs', ht']
  rcases r with e | b
  · exact ⟨.error e, s', t', rfl, rfl, hF, by simp⟩
  cases b with
  | false => exact ⟨.ok false, s', t', rfl, rfl, hF, by simp⟩
  | true => exact hs s' t' (hyes rfl)

section Uniform
variable {τ ε' α β : Type} {R : σ → σ → Prop}

/-- From related states the action answers the same and ends in related states. -/
def Uniform (R : σ → σ → Prop) (m : Action σ ε α) : Prop :=
  ∀ s t, R s t → (m.run t).1 = (m.run s).1 ∧ R (m.run s).2 (m.run t).2

theorem uniform_pure (a : α) : Uniform R (pure a : Action σ ε α) := fun _ _ h => ⟨rfl, h⟩

theorem uniform_stop (e : ε) : Uniform R (Action.stop e : Action σ ε α) := fun _ _ h => ⟨rfl, h⟩

theorem uniform_observe {f : σ → Except ε α} (hf : ∀ s t, R s t → f t = f s) :
    Uniform R (Action.observe f) := fun s t h => ⟨hf s t h, h⟩

theorem uniform_modify {f : σ → σ} (hf : ∀ s t, R s t → R (f s) (f t)) :
    Uniform R (Action.modify f : Action σ ε Unit) := fun s t h => ⟨rfl, hf s t h⟩

theorem uniform_bind {m : Action σ ε α} {f : α → Action σ ε β} (hm : Uniform R m)
    (hf : ∀ a, Uniform R (f a)) : Uniform R (m >>= f) := by
  intro s t hst
  obtain ⟨hanswer, hend⟩ := hm s t hst
  rw [Action.run_bind, Action.run_bind]
  rcases hs : m.run s with ⟨r, s'⟩
  rcases ht : m.run t with ⟨r', t'⟩
  rw [hs, ht] at hanswer hend
  obtain rfl : r' = r := hanswer
  cases r' with
  | error e => exact ⟨rfl, hend⟩
  | ok a => exact hf a s' t' hend

theorem uniform_ite {c : Prop} [Decidable c] {m n : Action σ ε α} (hm : Uniform R m)
    (hn : Uniform R n) : Uniform R (if c then m else n) := by
  split
  · exact hm
  · exact hn

theorem uniform_allOf {ms : List (Action σ ε Bool)} (h : ∀ m ∈ ms, Uniform R m) :
    Uniform R (Action.allOf ms) := by
  induction ms with
  | nil => exact uniform_pure true
  | cons m ms ih =>
    rw [Action.allOf_cons]
    refine uniform_bind (h m List.mem_cons_self) fun b => ?_
    exact uniform_ite (ih fun n hn => h n (List.mem_cons_of_mem m hn)) (uniform_pure false)

/-- An action on a component is uniform if it is so on related components. -/
theorem uniform_focus {get : τ → σ} {put : τ → σ → τ} {lift : ε → ε'} {m : Action σ ε α}
    {S : τ → τ → Prop} (hm : Uniform R m) (hget : ∀ s t, S s t → R (get s) (get t))
    (hput : ∀ s t a b, S s t → R a b → S (put s a) (put t b)) :
    Uniform S (Action.focus get put lift m) := by
  intro s t hst
  obtain ⟨hanswer, hend⟩ := hm _ _ (hget s t hst)
  rw [Action.run_focus, Action.run_focus]
  rcases hs : m.run (get s) with ⟨r, a⟩
  rcases ht : m.run (get t) with ⟨r', b⟩
  rw [hs, ht] at hanswer hend
  obtain rfl : r' = r := hanswer
  cases r' with
  | error e => exact ⟨rfl, hput s t a b hst hend⟩
  | ok x => exact ⟨rfl, hput s t a b hst hend⟩

end Uniform
end Relational
