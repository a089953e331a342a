import Mathlib.Logic.Basic

/-!
# Settings in layers

A layer gives some of the settings a value. Layers are put on top of one another, the first one
to give a value wins, and a default stands in until then.
-/

namespace Layers

set_option autoImplicit false

variable {κ : Type} {V : κ → Type}

abbrev Layer (V : κ → Type) := ∀ k, Option (V k)

structure Entry (α : Type) where
  value : α
  defaulted : Bool

abbrev Settings (V : κ → Type) := ∀ k, Option (Entry (V k))

def nothing (V : κ → Type) : Settings V := fun _ => none

/-- The setting has a value that is not a default. -/
def Settings.explicit (m : Settings V) (k : κ) : Bool := (m k).any fun e => !e.defaulted

abbrev Store (V : κ → Type) := Layer V → Layer V → Settings V → Settings V

/-- A store keeps the values that were given, takes those of the new layer for the others and
defaults for what has no value yet. -/
structure Store.Lawful (store : Store V) : Prop where
  kept : ∀ {defaults layer : Layer V} {m : Settings V} {k : κ},
    m.explicit k = true → store defaults layer m k = m k
  given : ∀ {defaults layer : Layer V} {m : Settings V} {k : κ} {v : V k},
    m.explicit k = false → layer k = some v → store defaults layer m k = some ⟨v, false⟩
  absent : ∀ {defaults layer : Layer V} {m : Settings V} {k : κ},
    m k = none → layer k = none →
      store defaults layer m k = (defaults k).map fun v => ⟨v, true⟩
  waiting : ∀ {defaults layer : Layer V} {m : Settings V} {k : κ} {e : Entry (V k)},
    m k = some e → layer k = none → store defaults layer m k = some e

/-- The value of the first layer that gives one. -/
def topmost (layers : List (Layer V)) (k : κ) : Option (V k) := layers.findSome? fun l => l k

/-- Settings that hold what the layers give, and defaults beside it. -/
structure Reflects (defaults : Layer V) (layers : List (Layer V)) (m : Settings V) : Prop where
  given : ∀ {k v}, topmost layers k = some v → m k = some ⟨v, false⟩
  notGiven : ∀ {k}, topmost layers k = none → m k = none ∨
    ∃ v, defaults k = some v ∧ m k = some ⟨v, true⟩

variable {store : Store V} {defaults : Layer V} {layers : List (Layer V)} {layer : Layer V}
  {m : Settings V} {k : κ}

theorem reflects_nothing (defaults : Layer V) : Reflects defaults [] (nothing V) :=
  ⟨fun h => by simp [topmost] at h, fun _ => Or.inl rfl⟩

theorem topmost_append (layers : List (Layer V)) (layer : Layer V) (k : κ) :
    topmost (layers ++ [layer]) k = (topmost layers k).or (layer k) := by
  unfold topmost
  rw [List.findSome?_append]
  cases h : layer k <;> simp [h]

theorem topmost_pair (upper lower : Layer V) (k : κ) :
    topmost [upper, lower] k = (upper k).or (lower k) := by
  have h := topmost_append [upper] lower k
  have hupper : topmost [upper] k = upper k := by
    unfold topmost
    cases hk : upper k <;> simp [hk]
  rw [hupper] at h
  exact h

theorem Reflects.explicit_iff (h : Reflects defaults layers m) :
    m.explicit k = (topmost layers k).isSome := by
  unfold Settings.explicit
  cases hf : topmost layers k with
  | some v => simp [h.given hf]
  | none =>
    rcases h.notGiven hf with hm | ⟨v, _, hm⟩
    · simp [hm]
    · simp [hm]

/-- Storing one more layer puts it under those that were stored before. -/
theorem Reflects.stored (hlawful : store.Lawful) (h : Reflects defaults layers m)
    (layer : Layer V) :
    Reflects defaults (layers ++ [layer]) (store defaults layer m) := by
  constructor
  · intro k v hv
    rw [topmost_append] at hv
    cases hf : topmost layers k with
    | some w =>
      have hkept : m.explicit k = true := by rw [h.explicit_iff, hf]; rfl
      rw [hf, Option.some_or] at hv
      rw [hlawful.kept hkept, h.given hf, Option.some.inj hv]
    | none =>
      have hopen : m.explicit k = false := by rw [h.explicit_iff, hf]; rfl
      rw [hf, Option.none_or] at hv
      exact hlawful.given hopen hv
  · intro k hnone
    rw [topmost_append, Option.or_eq_none_iff] at hnone
    rcases h.notGiven hnone.1 with hm | ⟨v, hdefault, hm⟩
    · rw [hlawful.absent hm hnone.2]
      cases hd : defaults k with
      | none => exact Or.inl rfl
      | some v => exact Or.inr ⟨v, rfl, rfl⟩
    · exact Or.inr ⟨v, hdefault, hlawful.waiting hm hnone.2⟩

/-- The store that only does what it has to. -/
def Store.plain : Store V := fun defaults layer m k =>
  if m.explicit k then m k
  else match layer k with
    | some v => some ⟨v, false⟩
    | none => (m k).or ((defaults k).map fun v => ⟨v, true⟩)

theorem Store.plain_lawful : (Store.plain : Store V).Lawful := by
  constructor
  · intro defaults layer m k h
    simp [Store.plain, h]
  · intro defaults layer m k v h hv
    simp [Store.plain, h, hv]
  · intro defaults layer m k h hnone
    simp [Store.plain, Settings.explicit, h, hnone]
  · intro defaults layer m k e h hnone
    cases hd : e.defaulted <;> simp [Store.plain, Settings.explicit, h, hnone, hd]

end Layers
