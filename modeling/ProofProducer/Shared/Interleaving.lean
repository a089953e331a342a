import Mathlib.Logic.Function.Iterate

/-!
# Processes that take turns on a shared state

Each process has a local state and one deterministic step on it and the shared state. A schedule
says whose turn it is. What every turn keeps, every schedule keeps, and a process whose steps
lower a rank comes to rank zero after as many turns.
-/

namespace Interleavings

set_option autoImplicit false

variable {ι σ τ : Type} [DecidableEq ι]

/-- The local states of all processes and the state they share. -/
structure Global (ι τ σ : Type) where
  locals : ι → τ
  shared : σ

/-- One step of the process `i`. -/
def turn (step : ι → τ × σ → τ × σ) (g : Global ι τ σ) (i : ι) : Global ι τ σ where
  locals := Function.update g.locals i (step i (g.locals i, g.shared)).1
  shared := (step i (g.locals i, g.shared)).2

def run (step : ι → τ × σ → τ × σ) (g : Global ι τ σ) (schedule : List ι) : Global ι τ σ :=
  schedule.foldl (turn step) g

variable {step : ι → τ × σ → τ × σ} {g : Global ι τ σ} {i j : ι}

@[simp] theorem locals_turn_self : (turn step g i).locals i = (step i (g.locals i, g.shared)).1 :=
  Function.update_self i _ g.locals

theorem locals_turn_of_ne (h : j ≠ i) : (turn step g i).locals j = g.locals j :=
  Function.update_of_ne h _ g.locals

@[simp] theorem shared_turn : (turn step g i).shared = (step i (g.locals i, g.shared)).2 := rfl

theorem run_cons (schedule : List ι) :
    run step g (i :: schedule) = run step (turn step g i) schedule := rfl

/-- What every turn keeps holds after every schedule. -/
theorem run_invariant {I : Global ι τ σ → Prop} (hstart : I g)
    (hturn : ∀ g i, I g → I (turn step g i)) (schedule : List ι) : I (run step g schedule) := by
  induction schedule generalizing g with
  | nil => exact hstart
  | cons i schedule ih =>
    rw [run_cons]
    exact ih (hturn g i hstart)

/-- A fact about each process that its own steps establish from facts about the shared state. -/
theorem locals_turn {P : ι → τ → Prop} (hown : P i (step i (g.locals i, g.shared)).1)
    (hothers : ∀ j, P j (g.locals j)) (j : ι) : P j ((turn step g i).locals j) := by
  by_cases hj : j = i
  · subst j
    rw [locals_turn_self]
    exact hown
  · rw [locals_turn_of_ne hj]
    exact hothers j

/-- Only its own turns change the rank of a process. -/
theorem rank_run {rank : τ → Nat} (hstep : ∀ i l s, rank (step i (l, s)).1 ≤ rank l - 1)
    (i : ι) (schedule : List ι) :
    rank ((run step g schedule).locals i) ≤ rank (g.locals i) - schedule.count i := by
  induction schedule generalizing g with
  | nil => exact Nat.le_refl _
  | cons k schedule ih =>
    have hrest := ih (g := turn step g k)
    rw [run_cons]
    by_cases hk : k = i
    · subst k
      have hturn := hstep i (g.locals i) g.shared
      rw [locals_turn_self] at hrest
      rw [List.count_cons_self]
      omega
    · rw [locals_turn_of_ne (Ne.symm hk)] at hrest
      rw [List.count_cons_of_ne hk]
      exact hrest

/-- A process that is given all the turns goes on as if there were no others. -/
theorem run_replicate (step : ι → τ × σ → τ × σ) (g : Global ι τ σ) (i : ι) (n : Nat) :
    ((run step g (List.replicate n i)).locals i, (run step g (List.replicate n i)).shared) =
      (step i)^[n] (g.locals i, g.shared) := by
  induction n generalizing g with
  | zero => rfl
  | succ n ih =>
    rw [List.replicate_succ, run_cons, ih, locals_turn_self, shared_turn, Function.iterate_succ,
      Function.comp_apply]

end Interleavings
