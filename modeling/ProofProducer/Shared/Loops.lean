import Mathlib.Order.Basic

/-!
# Loops that may not end

A program is run with fuel and gives nothing when the fuel is used up. It ends in a state if some
amount of fuel leads there; more fuel does not change that.
-/

namespace Loops

set_option autoImplicit false

variable {σ : Type}

abbrev Program (σ : Type) := Nat → σ → Option σ

/-- One command that always ends. -/
def command (f : σ → σ) : Program σ := fun _ s => some (f s)

def seq (p q : Program σ) : Program σ := fun fuel s => (p fuel s).bind (q fuel)

def branch (test : σ → Bool) (p q : Program σ) : Program σ := fun fuel s =>
  if test s then p fuel s else q fuel s

/-- `while guard; do body; done` -/
def loop (guard : σ → Bool) (body : Program σ) : Program σ
  | 0, _ => none
  | fuel + 1, s => if guard s then (body fuel s).bind (loop guard body fuel) else some s

def Ends (p : Program σ) (s t : σ) : Prop := ∃ fuel, p fuel s = some t

/-- More fuel leads to the same state. -/
def Stable (p : Program σ) : Prop :=
  ∀ m n s t, m ≤ n → p m s = some t → p n s = some t

variable {guard test : σ → Bool} {body p q : Program σ} {s t u : σ}

theorem command_stable (f : σ → σ) : Stable (command f) := fun _ _ _ _ _ h => h

theorem ends_command (f : σ → σ) (s : σ) : Ends (command f) s (f s) := ⟨0, rfl⟩

theorem seq_stable (hp : Stable p) (hq : Stable q) : Stable (seq p q) := by
  intro m n s t hle h
  unfold seq at h ⊢
  obtain ⟨r, hr, ht⟩ := Option.bind_eq_some_iff.mp h
  rw [hp m n s r hle hr, Option.bind_some]
  exact hq m n r t hle ht

theorem branch_stable (hp : Stable p) (hq : Stable q) : Stable (branch test p q) := by
  intro m n s t hle h
  unfold branch at h ⊢
  split
  · rename_i htest
    rw [if_pos htest] at h
    exact hp m n s t hle h
  · rename_i htest
    rw [if_neg htest] at h
    exact hq m n s t hle h

theorem loop_stable (hbody : Stable body) : Stable (loop guard body) := by
  intro m
  induction m with
  | zero =>
    intro n s t _ h
    simp [loop] at h
  | succ m ih =>
    intro n s t hle h
    obtain ⟨n, rfl⟩ : ∃ k, n = k + 1 := ⟨n - 1, by omega⟩
    have hle' : m ≤ n := by omega
    simp only [loop] at h ⊢
    split
    · rename_i hguard
      rw [if_pos hguard, Option.bind_eq_some_iff] at h
      obtain ⟨r, hr, hrest⟩ := h
      rw [hbody m n _ _ hle' hr, Option.bind_some]
      exact ih n _ _ hle' hrest
    · rename_i hguard
      rw [if_neg hguard] at h
      exact h

theorem Ends.unique (hp : Stable p) (ht : Ends p s t) (hu : Ends p s u) :
    t = u := by
  obtain ⟨m, hm⟩ := ht
  obtain ⟨n, hn⟩ := hu
  have hmax := hp _ _ _ _ (Nat.le_max_left m n) hm
  rw [hp _ _ _ _ (Nat.le_max_right m n) hn] at hmax
  exact (Option.some.inj hmax).symm

theorem ends_loop_done (h : guard s = false) : Ends (loop guard body) s s :=
  ⟨1, by simp [loop, h]⟩

/-- A turn of the body and then the rest of the loop. -/
theorem ends_loop_next (hstable : Stable body) (h : guard s = true) (hbody : Ends body s t)
    (hrest : Ends (loop guard body) t u) : Ends (loop guard body) s u := by
  obtain ⟨m, hm⟩ := hbody
  obtain ⟨n, hn⟩ := hrest
  refine ⟨max m n + 1, ?_⟩
  rw [loop, if_pos h, hstable _ _ _ _ (Nat.le_max_left m n) hm, Option.bind_some]
  exact loop_stable hstable _ _ _ _ (Nat.le_max_right m n) hn

/-- A loop whose body never leaves a set of states in which the guard holds does not end. -/
theorem not_ends_of_trap (trap : σ → Prop) (hguard : ∀ s, trap s → guard s = true)
    (hbody : ∀ s t, trap s → Ends body s t → trap t) (hs : trap s) :
    ¬ Ends (loop guard body) s t := by
  intro h
  obtain ⟨fuel, hrun⟩ := h
  induction fuel generalizing s with
  | zero => simp [loop] at hrun
  | succ fuel ih =>
    rw [loop, if_pos (hguard s hs), Option.bind_eq_some_iff] at hrun
    obtain ⟨r, hr, hrest⟩ := hrun
    exact ih (hbody s r hs ⟨fuel, hr⟩) hrest

end Loops
