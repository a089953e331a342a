import Mathlib.Logic.Basic

/-!
# Sequential actions that may stop early

An action reads and changes a state and either returns a value or stops with a reason.
Stopping keeps the state reached so far, which is what an exception leaves behind on disk.
-/

namespace Effects

set_option autoImplicit false

/-- A computation over the state `σ` that may stop with a reason of type `ε`. -/
def Action (σ ε α : Type) : Type := σ → Except ε α × σ

namespace Action
variable {σ τ ε ε' α β : Type}

def run (m : Action σ ε α) (s : σ) : Except ε α × σ := m s

instance : Monad (Action σ ε) where
  pure a := fun s => (.ok a, s)
  bind m f := fun s =>
    match m s with
    | (.ok a, t) => f a t
    | (.error e, t) => (.error e, t)

def stop (e : ε) : Action σ ε α := fun s => (.error e, s)

/-- A computation that only looks at the state. -/
def observe (f : σ → Except ε α) : Action σ ε α := fun s => (f s, s)

def modify (f : σ → σ) : Action σ ε Unit := fun s => (.ok (), f s)

/-- Run an action on one component of a larger state. -/
def focus (get : τ → σ) (put : τ → σ → τ) (lift : ε → ε') (m : Action σ ε α) :
    Action τ ε' α := fun t =>
  match m (get t) with
  | (.ok a, s) => (.ok a, put t s)
  | (.error e, s) => (.error (lift e), put t s)

/-- The short-circuit conjunction of a list of steps. -/
def allOf : List (Action σ ε Bool) → Action σ ε Bool
  | [] => pure true
  | m :: ms => do
    if ← m then allOf ms else pure false

@[simp] theorem run_pure (a : α) (s : σ) : (pure a : Action σ ε α).run s = (.ok a, s) := rfl

theorem run_bind (m : Action σ ε α) (f : α → Action σ ε β) (s : σ) :
    (m >>= f).run s =
      match m.run s with
      | (.ok a, t) => (f a).run t
      | (.error e, t) => (.error e, t) := rfl

theorem run_bind_ok {m : Action σ ε α} {f : α → Action σ ε β} {s t : σ} {a : α}
    (h : m.run s = (.ok a, t)) : (m >>= f).run s = (f a).run t := by
  rw [run_bind, h]

theorem bind_pure (m : Action σ ε α) : m >>= Pure.pure = m := by
  funext s
  show (m >>= Pure.pure).run s = m.run s
  rw [run_bind]
  rcases m.run s with ⟨r, t⟩
  cases r <;> rfl

theorem bind_assoc {γ : Type} (m : Action σ ε α) (f : α → Action σ ε β) (g : β → Action σ ε γ) :
    (m >>= f) >>= g = m >>= fun a => f a >>= g := by
  funext s
  show ((m >>= f) >>= g).run s = (m >>= fun a => f a >>= g).run s
  rw [run_bind, run_bind, run_bind]
  rcases m.run s with ⟨r, t⟩
  cases r <;> rfl

@[simp] theorem run_stop (e : ε) (s : σ) : (stop e : Action σ ε α).run s = (.error e, s) := rfl

@[simp] theorem run_observe (f : σ → Except ε α) (s : σ) : (observe f).run s = (f s, s) := rfl

@[simp] theorem run_modify (f : σ → σ) (s : σ) :
    (modify f : Action σ ε Unit).run s = (.ok (), f s) := rfl

theorem run_focus (get : τ → σ) (put : τ → σ → τ) (lift : ε → ε') (m : Action σ ε α) (t : τ) :
    (focus get put lift m).run t =
      match m.run (get t) with
      | (.ok a, s) => (.ok a, put t s)
      | (.error e, s) => (.error (lift e), put t s) := rfl

theorem bind_ok_iff {m : Action σ ε α} {f : α → Action σ ε β} {s u : σ} {b : β} :
    (m >>= f).run s = (.ok b, u) ↔ ∃ a t, m.run s = (.ok a, t) ∧ (f a).run t = (.ok b, u) := by
  rw [run_bind]
  constructor
  · intro h
    rcases hm : m.run s with ⟨r, t⟩
    rw [hm] at h
    cases r with
    | ok a => exact ⟨a, t, rfl, h⟩
    | error e => simp at h
  · intro h
    obtain ⟨a, t, hm, hf⟩ := h
    rw [hm]
    exact hf

theorem bind_error_iff {m : Action σ ε α} {f : α → Action σ ε β} {s u : σ} {e : ε} :
    (m >>= f).run s = (.error e, u) ↔
      m.run s = (.error e, u) ∨ ∃ a t, m.run s = (.ok a, t) ∧ (f a).run t = (.error e, u) := by
  rw [run_bind]
  constructor
  · intro h
    rcases hm : m.run s with ⟨r, t⟩
    rw [hm] at h
    cases r with
    | ok a => exact Or.inr ⟨a, t, rfl, h⟩
    | error e' => simp at h; exact Or.inl (by rw [h.1, h.2])
  · rintro (hm | ⟨a, t, hm, hf⟩)
    · rw [hm]
    · rw [hm]; exact hf

theorem allOf_nil : (allOf [] : Action σ ε Bool) = pure true := rfl

theorem allOf_cons (m : Action σ ε Bool) (ms : List (Action σ ε Bool)) :
    allOf (m :: ms) = m >>= fun b => if b then allOf ms else pure false := rfl

/-- A chain succeeds exactly when its first step does and the rest succeeds from there. -/
theorem allOf_cons_true_iff {m : Action σ ε Bool} {ms : List (Action σ ε Bool)} {s u : σ} :
    (allOf (m :: ms)).run s = (.ok true, u) ↔
      ∃ t, m.run s = (.ok true, t) ∧ (allOf ms).run t = (.ok true, u) := by
  rw [allOf_cons, bind_ok_iff]
  constructor
  · intro h
    obtain ⟨b, t, hm, hf⟩ := h
    cases b with
    | true => exact ⟨t, hm, hf⟩
    | false => simp at hf
  · intro h
    obtain ⟨t, hm, hms⟩ := h
    exact ⟨true, t, hm, hms⟩

/-- A chain stops exactly when its first step does, or the rest does after it succeeded. -/
theorem allOf_cons_error_iff {m : Action σ ε Bool} {ms : List (Action σ ε Bool)} {s u : σ} {e : ε} :
    (allOf (m :: ms)).run s = (.error e, u) ↔ m.run s = (.error e, u) ∨
      ∃ t, m.run s = (.ok true, t) ∧ (allOf ms).run t = (.error e, u) := by
  rw [allOf_cons, bind_error_iff]
  constructor
  · intro h
    rcases h with hm | ⟨b, t, hm, hf⟩
    · exact Or.inl hm
    · cases b with
      | true => exact Or.inr ⟨t, hm, hf⟩
      | false => simp at hf
  · intro h
    rcases h with hm | ⟨t, hm, hms⟩
    · exact Or.inl hm
    · exact Or.inr ⟨true, t, hm, hms⟩

theorem allOf_nil_true_iff {s u : σ} :
    (allOf [] : Action σ ε Bool).run s = (.ok true, u) ↔ u = s := by
  simp [allOf_nil, eq_comm]

/-- The action ends in a state satisfying `I` whenever it starts in one, however it ends. -/
def Keeps (I : σ → Prop) (m : Action σ ε α) : Prop := ∀ s, I s → I (m.run s).2

theorem keeps_pure (I : σ → Prop) (a : α) : Keeps I (pure a : Action σ ε α) := fun _ h => h

theorem keeps_stop (I : σ → Prop) (e : ε) : Keeps I (stop e : Action σ ε α) := fun _ h => h

theorem keeps_observe (I : σ → Prop) (f : σ → Except ε α) : Keeps I (observe f) := fun _ h => h

theorem keeps_bind {I : σ → Prop} {m : Action σ ε α} {f : α → Action σ ε β}
    (hm : Keeps I m) (hf : ∀ a, Keeps I (f a)) : Keeps I (m >>= f) := by
  intro s hs
  have ht := hm s hs
  rw [run_bind]
  rcases h : m.run s with ⟨r, t⟩
  rw [h] at ht
  cases r with
  | ok a => exact hf a t ht
  | error e => exact ht

theorem keeps_ite {I : σ → Prop} {c : Prop} [Decidable c] {m n : Action σ ε α}
    (hm : Keeps I m) (hn : Keeps I n) : Keeps I (if c then m else n) := by
  split
  · exact hm
  · exact hn

/-- Whatever every step of a chain keeps, the chain keeps. -/
theorem keeps_allOf {I : σ → Prop} {ms : List (Action σ ε Bool)} (h : ∀ m ∈ ms, Keeps I m) :
    Keeps I (allOf ms) := by
  induction ms with
  | nil => exact keeps_pure I true
  | cons m ms ih =>
    rw [allOf_cons]
    refine keeps_bind (h m List.mem_cons_self) fun b => ?_
    exact keeps_ite (ih fun n hn => h n (List.mem_cons_of_mem m hn)) (keeps_pure I false)

end Action
end Effects
