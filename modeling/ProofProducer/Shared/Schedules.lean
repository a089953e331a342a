import Mathlib.Data.List.Perm.Basic
import Mathlib.Data.List.Pairwise

/-!
# Jobs one after the other

A job answers and leaves a state. Jobs of which none changes what a later one answers are
answered as if each ran alone; jobs that commute, up to what can be observed of a state, can be
run in any order. Both are asked for in the states that satisfy an invariant of all jobs.
-/

namespace Schedules

set_option autoImplicit false

universe u v w
variable {σ : Type u} {κ : Type v} {ρ : Type w} {run : κ → σ → ρ × σ} {I : σ → Prop}
  {E : σ → σ → Prop} {j k : κ} {jobs jobs' : List κ} {s t : σ}

/-- The answers of all jobs in turn. -/
def answers (run : κ → σ → ρ × σ) : List κ → σ → List ρ
  | [], _ => []
  | k :: ks, s => (run k s).1 :: answers run ks (run k s).2

/-- The state all jobs in turn leave. -/
def after (run : κ → σ → ρ × σ) : List κ → σ → σ
  | [], s => s
  | k :: ks, s => after run ks (run k s).2

theorem answers_append (run : κ → σ → ρ × σ) (jobs later : List κ) (s : σ) :
    answers run (jobs ++ later) s = answers run jobs s ++ answers run later (after run jobs s) := by
  induction jobs generalizing s with
  | nil => rfl
  | cons k ks ih => exact congrArg ((run k s).1 :: ·) (ih _)

theorem after_append (run : κ → σ → ρ × σ) (jobs later : List κ) (s : σ) :
    after run (jobs ++ later) s = after run later (after run jobs s) := by
  induction jobs generalizing s with
  | nil => rfl
  | cons k ks ih => exact ih _

/-- Whatever job runs, the state stays in `I`. -/
def Kept (run : κ → σ → ρ × σ) (I : σ → Prop) : Prop := ∀ k s, I s → I (run k s).2

/-- In the states of `I`, job `k` answers after job `j` what it answers without it. -/
def Spares (run : κ → σ → ρ × σ) (I : σ → Prop) (j k : κ) : Prop :=
  ∀ s, I s → (run k (run j s).2).1 = (run k s).1

/-- In the states of `I`, it cannot be observed which of two jobs ran first. -/
def Commute (run : κ → σ → ρ × σ) (I : σ → Prop) (E : σ → σ → Prop) (j k : κ) : Prop :=
  ∀ s, I s → E (run k (run j s).2).2 (run j (run k s).2).2

theorem after_kept (hI : Kept run I) (hs : I s) : I (after run jobs s) := by
  induction jobs generalizing s with
  | nil => exact hs
  | cons k ks ih => exact ih (hI k s hs)

/-- Jobs that spare all later ones answer as if each ran alone. -/
theorem answers_eq_map (hI : Kept run I) (h : jobs.Pairwise (Spares run I)) (hs : I s) :
    answers run jobs s = jobs.map fun k => (run k s).1 := by
  induction jobs generalizing s with
  | nil => rfl
  | cons j js ih =>
    obtain ⟨hfirst, hrest⟩ := List.pairwise_cons.mp h
    rw [answers, List.map_cons, ih hrest (hI j s hs)]
    congr 1
    exact List.map_congr_left fun k hk => hfirst k hk s hs

theorem after_congr (hE : ∀ k s t, E s t → E (run k s).2 (run k t).2) (h : E s t) :
    E (after run jobs s) (after run jobs t) := by
  induction jobs generalizing s t with
  | nil => exact h
  | cons k ks ih => exact ih (hE k s t h)

/-- Jobs that commute in pairs can be run in any order. -/
theorem after_perm (hI : Kept run I) (hE : ∀ k s t, E s t → E (run k s).2 (run k t).2)
    (hequiv : Equivalence E) (hcomm : jobs.Pairwise (Commute run I E)) (hperm : jobs.Perm jobs')
    (hs : I s) : E (after run jobs s) (after run jobs' s) := by
  have hsymm : ∀ {j k}, Commute run I E j k → Commute run I E k j :=
    fun h s hs => hequiv.symm (h s hs)
  induction hperm generalizing s with
  | nil => exact hequiv.refl s
  | cons k _ ih => exact ih (List.pairwise_cons.mp hcomm).2 (hI k s hs)
  | swap j k ks =>
    have hpair := (List.pairwise_cons.mp hcomm).1 j List.mem_cons_self s hs
    simp only [after]
    exact after_congr hE hpair
  | trans hp _ ih₁ ih₂ =>
    exact hequiv.trans (ih₁ hcomm hs) (ih₂ ((hp.pairwise_iff hsymm).mp hcomm) hs)

end Schedules
