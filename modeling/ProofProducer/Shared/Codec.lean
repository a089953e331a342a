import Mathlib.Logic.Basic

/-!
# Binary codecs with a status and a cursor

Reading takes the bytes under the cursor and returns the value with the bytes still ahead, or a
failure status, or it stops with an exception. Writing fills a buffer of a given size or fails.
-/

namespace Codecs

set_option autoImplicit false

structure Codec (ε M : Type) where
  read : List UInt8 → Except ε (Option (M × List UInt8))
  length : M → Nat
  write : M → Nat → Option (List UInt8)

variable {ε M X : Type}

/-- What a value writes into a buffer of its own length. -/
def Codec.encoding (c : Codec ε M) (m : M) : Option (List UInt8) := c.write m (c.length m)

/-- Every value can be written, and reading undoes writing whatever follows. -/
structure Codec.RoundTrips (c : Codec ε M) : Prop where
  total : ∀ m, ∃ b, c.encoding m = some b
  nonempty : ∀ {m b}, c.encoding m = some b → b ≠ []
  reads : ∀ {m b} rest, c.encoding m = some b → c.read (b ++ rest) = .ok (some (m, rest))

/-- A read leaves the cursor just past the bytes the value writes. -/
def Codec.Exact (c : Codec ε M) : Prop :=
  ∀ {bytes m rest}, c.read bytes = .ok (some (m, rest)) →
    ∃ b, c.encoding m = some b ∧ bytes = b ++ rest

theorem Codec.RoundTrips.read_encoding {c : Codec ε M} (h : c.RoundTrips) {m : M}
    {b : List UInt8} (hb : c.encoding m = some b) : c.read b = .ok (some (m, [])) := by
  simpa using h.reads [] hb

/-- The codec of a single byte. -/
def Codec.byte (ε : Type) : Codec ε UInt8 where
  read
    | [] => .ok none
    | b :: rest => .ok (some (b, rest))
  length _ := 1
  write b n := if n = 0 then none else some [b]

/-- One value after the other. -/
def Codec.pair {N : Type} (c : Codec ε M) (c' : Codec ε N) : Codec ε (M × N) where
  read bytes :=
    match c.read bytes with
    | .error e => .error e
    | .ok none => .ok none
    | .ok (some (m, rest)) =>
      match c'.read rest with
      | .error e => .error e
      | .ok none => .ok none
      | .ok (some (n, rest')) => .ok (some ((m, n), rest'))
  length p := c.length p.1 + c'.length p.2
  write p size :=
    if size < c.length p.1 + c'.length p.2 then none else
      match c.encoding p.1, c'.encoding p.2 with
      | some b, some b' => some (b ++ b')
      | _, _ => none

theorem Codec.byte_exact (ε : Type) : (Codec.byte ε).Exact := by
  intro bytes m rest h
  cases bytes with
  | nil => simp [Codec.byte] at h
  | cons b bytes =>
    obtain ⟨rfl, rfl⟩ := Prod.mk.inj (Option.some.inj (Except.ok.inj h))
    exact ⟨[b], rfl, rfl⟩

theorem Codec.byte_roundTrips (ε : Type) : (Codec.byte ε).RoundTrips := by
  have henc : ∀ {m b}, (Codec.byte ε).encoding m = some b → b = [m] :=
    fun h => (Option.some.inj h).symm
  refine ⟨fun m => ⟨[m], rfl⟩, ?_, ?_⟩
  · intro m b h
    rw [henc h]
    exact List.cons_ne_nil m []
  · intro m b rest h
    rw [henc h]
    rfl

/-- `make` restores every value from what `fill` makes of it. -/
def Undoes (make : M → Except ε X) (fill : X → Except ε M) : Prop :=
  ∀ x, ∃ m, fill x = .ok m ∧ make m = .ok x

theorem Undoes.make_of_fill {make : M → Except ε X} {fill : X → Except ε M}
    (h : Undoes make fill) {x : X} {m : M} (hm : fill x = .ok m) : make m = .ok x := by
  obtain ⟨m', hf, hmake⟩ := h x
  rw [hm] at hf
  rw [Except.ok.inj hf]
  exact hmake

end Codecs
