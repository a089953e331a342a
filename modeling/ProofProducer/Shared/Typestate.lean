import ProofProducer.Shared.Action
import Mathlib.Data.List.Forall2

/-!
# Contracts for chains of steps

A step needs some resources, and when it succeeds it gives some and takes some away. A chain of
steps is ready when each finds what it needs among what the earlier ones left; that is decided
by looking at the contracts only. A ready chain of steps that meet their contracts never stops
for a bad reason.
-/

namespace Typestate

open Effects

set_option autoImplicit false

structure Contract (ρ : Type) where
  needs : List ρ
  gives : List ρ
  takes : List ρ

variable {σ ε ρ : Type}

/-- With what it needs the step does not stop for a bad reason, and if it succeeds it has given
what it promises and taken no more than it says. -/
structure Meets (has : σ → ρ → Prop) (bad : ε → Prop) (m : Action σ ε Bool) (c : Contract ρ) :
    Prop where
  safe : ∀ {s t e}, (∀ r ∈ c.needs, has s r) → m.run s = (.error e, t) → ¬ bad e
  given : ∀ {s t}, (∀ r ∈ c.needs, has s r) → m.run s = (.ok true, t) → ∀ r ∈ c.gives, has t r
  kept : ∀ {s t}, (∀ r ∈ c.needs, has s r) → m.run s = (.ok true, t) →
    ∀ r, r ∉ c.takes → has s r → has t r

section Chains
variable [DecidableEq ρ] {has : σ → ρ → Prop} {bad : ε → Prop}

/-- The resources that are left after a step succeeded. -/
def Contract.after (c : Contract ρ) (held : List ρ) : List ρ :=
  c.gives ++ held.filter (· ∉ c.takes)

def ready : List ρ → List (Contract ρ) → Bool
  | _, [] => true
  | held, c :: cs => c.needs.all (· ∈ held) && ready (c.after held) cs

/-- The resources that are left after a whole chain succeeded. -/
def heldAfter (held : List ρ) (cs : List (Contract ρ)) : List ρ :=
  cs.foldl (fun held c => c.after held) held

theorem ready_cons_iff {held : List ρ} {c : Contract ρ} {cs : List (Contract ρ)} :
    ready held (c :: cs) = true ↔ (∀ r ∈ c.needs, r ∈ held) ∧ ready (c.after held) cs = true := by
  simp [ready]

theorem Meets.has_after {m : Action σ ε Bool} {c : Contract ρ} (h : Meets has bad m c)
    {held : List ρ} {s t : σ} (hs : ∀ r ∈ held, has s r) (hneeds : ∀ r ∈ c.needs, r ∈ held)
    (hrun : m.run s = (.ok true, t)) : ∀ r ∈ c.after held, has t r := by
  have hn : ∀ r ∈ c.needs, has s r := fun r hr => hs r (hneeds r hr)
  intro r hr
  rcases List.mem_append.mp hr with hgives | hheld
  · exact h.given hn hrun r hgives
  · obtain ⟨hheld, htakes⟩ := List.mem_filter.mp hheld
    exact h.kept hn hrun r (of_decide_eq_true htakes) (hs r hheld)

theorem safe_of_ready {ms : List (Action σ ε Bool)} {cs : List (Contract ρ)}
    (h : List.Forall₂ (Meets has bad) ms cs) {held : List ρ} (hready : ready held cs = true)
    {s t : σ} {e : ε} (hs : ∀ r ∈ held, has s r)
    (hrun : (Action.allOf ms).run s = (.error e, t)) : ¬ bad e := by
  induction h generalizing held s with
  | nil => simp [Action.allOf_nil] at hrun
  | @cons m c ms cs hm _ ih =>
    obtain ⟨hneeds, hrest⟩ := ready_cons_iff.mp hready
    rcases Action.allOf_cons_error_iff.mp hrun with hstop | ⟨u, hu, hnext⟩
    · exact hm.safe (fun r hr => hs r (hneeds r hr)) hstop
    · exact ih hrest (hm.has_after hs hneeds hu) hnext

theorem has_of_ready {ms : List (Action σ ε Bool)} {cs : List (Contract ρ)}
    (h : List.Forall₂ (Meets has bad) ms cs) {held : List ρ} (hready : ready held cs = true)
    {s t : σ} (hs : ∀ r ∈ held, has s r) (hrun : (Action.allOf ms).run s = (.ok true, t)) :
    ∀ r ∈ heldAfter held cs, has t r := by
  induction h generalizing held s with
  | nil =>
    rw [Action.allOf_nil_true_iff] at hrun
    rw [hrun]
    exact hs
  | @cons m c ms cs hm _ ih =>
    obtain ⟨hneeds, hrest⟩ := ready_cons_iff.mp hready
    obtain ⟨u, hu, hnext⟩ := Action.allOf_cons_true_iff.mp hrun
    exact ih hrest (hm.has_after hs hneeds hu) hnext

end Chains
end Typestate
