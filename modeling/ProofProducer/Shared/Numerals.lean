import Mathlib.Logic.Basic

/-!
# Hexadecimal numerals as the C++ library writes and reads them

Characters are bytes. `stoul` is `std::stoul` in base 16: it skips white space, takes one sign
and a `0x` that a digit follows, and reads the longest run of digits; a negative value wraps.
-/

namespace Numerals

set_option autoImplicit false

/-- The lower-case digits of a number, the most significant one first. -/
def hexDigits (n : Nat) : List UInt8 := (Nat.toDigits 16 n).map Char.toUInt8

def padLeft (width : Nat) (fill : UInt8) (s : List UInt8) : List UInt8 :=
  List.replicate (width - s.length) fill ++ s

def digitValue (b : UInt8) : Option Nat :=
  let n := b.toNat
  if 48 ≤ n ∧ n ≤ 57 then some (n - 48)
  else if 97 ≤ n ∧ n ≤ 102 then some (n - 87)
  else if 65 ≤ n ∧ n ≤ 70 then some (n - 55)
  else none

def isHexDigit (b : UInt8) : Bool := (digitValue b).isSome

def isSpace (b : UInt8) : Bool := b.toNat = 32 || (9 ≤ b.toNat && b.toNat ≤ 13)

def isMinus (b : UInt8) : Bool := b.toNat = 45

def isPlus (b : UInt8) : Bool := b.toNat = 43

/-- A `0x` without a digit after it is the digit `0` followed by a letter. -/
def dropRadix : List UInt8 → List UInt8
  | z :: x :: d :: s =>
    if z.toNat = 48 ∧ (x.toNat = 120 ∨ x.toNat = 88) ∧ isHexDigit d = true then d :: s
    else z :: x :: d :: s
  | s => s

def valueOf (digits : List UInt8) : Nat :=
  digits.foldl (fun n b => 16 * n + (digitValue b).getD 0) 0

inductive StoulError where
  | invalidArgument
  | outOfRange
  deriving DecidableEq, Repr

/-- The number of values of an `unsigned long`. -/
def ulongSize : Nat := 0x10000000000000000

def stoul (s : List UInt8) : Except StoulError Nat :=
  let t := s.dropWhile isSpace
  let negative := t.head?.any isMinus
  let unsigned := if negative || t.head?.any isPlus then t.tail else t
  let digits := (dropRadix unsigned).takeWhile isHexDigit
  if digits = [] then .error .invalidArgument
  else if ulongSize ≤ valueOf digits then .error .outOfRange
  else .ok (if negative then (ulongSize - valueOf digits) % ulongSize else valueOf digits)

theorem digitValue_lt {b : UInt8} {n : Nat} (h : digitValue b = some n) : n < 16 := by
  simp only [digitValue] at h
  split at h
  · have := Option.some.inj h
    omega
  split at h
  · have := Option.some.inj h
    omega
  split at h
  · have := Option.some.inj h
    omega
  · simp at h

/-- A digit is neither white space nor a sign. -/
theorem digit_plain {b : UInt8} {n : Nat} (h : digitValue b = some n) :
    isSpace b = false ∧ isMinus b = false ∧ isPlus b = false := by
  have hb : 48 ≤ b.toNat := by
    simp only [digitValue] at h
    split at h
    · omega
    split at h
    · omega
    split at h
    · omega
    · simp at h
  simp only [isSpace, isMinus, isPlus, Bool.or_eq_false_iff, Bool.and_eq_false_iff,
    decide_eq_false_iff_not]
  omega

theorem digitValue_digitChar {n : Nat} (h : n < 16) :
    digitValue (Nat.digitChar n).toUInt8 = some n := by
  have key : ∀ k : Fin 16, digitValue (Nat.digitChar k.val).toUInt8 = some k.val := by decide
  exact key ⟨n, h⟩

/-- Two digits are read as one number. -/
theorem stoul_pair {a b : UInt8} {m n : Nat} (ha : digitValue a = some m)
    (hb : digitValue b = some n) : stoul [a, b] = .ok (16 * m + n) := by
  obtain ⟨hspace, hminus, hplus⟩ := digit_plain ha
  have hm := digitValue_lt ha
  have hn := digitValue_lt hb
  have hval : valueOf [a, b] = 16 * m + n := by simp [valueOf, ha, hb]
  have hdigits : List.takeWhile isHexDigit [a, b] = [a, b] := by simp [isHexDigit, ha, hb]
  have hsmall : ¬ ulongSize ≤ 16 * m + n := by
    unfold ulongSize
    omega
  have hread : stoul [a, b] =
      if ulongSize ≤ valueOf [a, b] then .error .outOfRange else .ok (valueOf [a, b]) := by
    simp [stoul, hspace, hminus, hplus, dropRadix, hdigits]
  rw [hread, hval, if_neg hsmall]

/-- A number below 256, padded to two digits, is its two halves. -/
theorem padLeft_hexDigits {n : Nat} (h : n < 256) :
    padLeft 2 '0'.toUInt8 (hexDigits n) =
      [(Nat.digitChar (n / 16)).toUInt8, (Nat.digitChar (n % 16)).toUInt8] := by
  by_cases hn : n < 16
  · have hdiv : n / 16 = 0 := by omega
    have hmod : n % 16 = n := by omega
    rw [hexDigits, Nat.toDigits_of_lt_base hn, hdiv, hmod]
    rfl
  · have hdiv : n / 16 < 16 := by omega
    rw [hexDigits, Nat.toDigits_of_base_le (by omega) (by omega),
      Nat.toDigits_of_lt_base hdiv]
    rfl

/-- The digits that `stoul` evaluates. -/
def numeralDigits (s : List UInt8) : List UInt8 :=
  let t := s.dropWhile isSpace
  (dropRadix (if t.head?.any isMinus || t.head?.any isPlus then t.tail else t)).takeWhile isHexDigit

/-- A digit comes first, or second after white space or a sign. -/
def shortNumeral : List UInt8 → Bool
  | [a] => isHexDigit a
  | [a, b] => isHexDigit a || (isSpace a || isMinus a || isPlus a) && isHexDigit b
  | _ => false

theorem digit_plain_of_isHexDigit {b : UInt8} (h : isHexDigit b = true) :
    isSpace b = false ∧ isMinus b = false ∧ isPlus b = false := by
  obtain ⟨n, hn⟩ := Option.isSome_iff_exists.mp h
  exact digit_plain hn

theorem dropRadix_short {s : List UInt8} (h : s.length ≤ 2) : dropRadix s = s := by
  match s, h with
  | [], _ => rfl
  | [a], _ => rfl
  | [a, b], _ => rfl

theorem valueOf_short {s : List UInt8} (h : s.length ≤ 2) : valueOf s < 256 := by
  have hdigit : ∀ b : UInt8, (digitValue b).getD 0 < 16 := by
    intro b
    cases hb : digitValue b with
    | none => exact Nat.zero_lt_succ 15
    | some n => exact digitValue_lt hb
  match s, h with
  | [], _ => exact Nat.zero_lt_succ 255
  | [a], _ =>
    have ha := hdigit a
    simp only [valueOf, List.foldl_cons, List.foldl_nil]
    omega
  | [a, b], _ =>
    have ha := hdigit a
    have hb := hdigit b
    simp only [valueOf, List.foldl_cons, List.foldl_nil]
    omega

theorem length_numeralDigits_le (s : List UInt8) (h : s.length ≤ 2) :
    (numeralDigits s).length ≤ 2 := by
  have hdrop : (s.dropWhile isSpace).length ≤ 2 :=
    Nat.le_trans (List.dropWhile_suffix isSpace).length_le h
  unfold numeralDigits
  dsimp only
  split
  · have htail : (s.dropWhile isSpace).tail.length ≤ 2 := by
      rw [List.length_tail]
      omega
    rw [dropRadix_short htail]
    exact Nat.le_trans (List.takeWhile_prefix isHexDigit).length_le htail
  · rw [dropRadix_short hdrop]
    exact Nat.le_trans (List.takeWhile_prefix isHexDigit).length_le hdrop

/-- So few digits are never out of range. -/
theorem stoul_ok_iff_digits {s : List UInt8} (h : s.length ≤ 2) :
    (∃ n, stoul s = .ok n) ↔ numeralDigits s ≠ [] := by
  have hsmall := valueOf_short (length_numeralDigits_le s h)
  have hrange : ¬ ulongSize ≤ valueOf (numeralDigits s) := by
    unfold ulongSize
    omega
  have hstoul : stoul s =
      if numeralDigits s = [] then .error .invalidArgument
      else if ulongSize ≤ valueOf (numeralDigits s) then .error .outOfRange
      else .ok (if (s.dropWhile isSpace).head?.any isMinus
        then (ulongSize - valueOf (numeralDigits s)) % ulongSize
        else valueOf (numeralDigits s)) := rfl
  rw [hstoul, if_neg hrange]
  split
  · rename_i he
    simp [he]
  · rename_i hne
    exact iff_of_true ⟨_, rfl⟩ hne

theorem numeralDigits_one (a : UInt8) : numeralDigits [a] ≠ [] ↔ isHexDigit a = true := by
  by_cases ha : isHexDigit a = true
  · obtain ⟨hspace, hminus, hplus⟩ := digit_plain_of_isHexDigit ha
    simp [numeralDigits, hspace, hminus, hplus, dropRadix, ha]
  · by_cases hspace : isSpace a = true
    · simp [numeralDigits, hspace, dropRadix, ha]
    · by_cases hsign : (isMinus a || isPlus a) = true
      · simp [numeralDigits, hspace, hsign, dropRadix, ha]
      · simp [numeralDigits, hspace, hsign, dropRadix, ha]

theorem numeralDigits_space {a : UInt8} (h : isSpace a = true) (s : List UInt8) :
    numeralDigits (a :: s) = numeralDigits s := by
  simp [numeralDigits, h]

theorem stoul_short {s : List UInt8} (h : s.length = 1 ∨ s.length = 2) :
    (∃ n, stoul s = .ok n) ↔ shortNumeral s = true := by
  rw [stoul_ok_iff_digits (by omega)]
  match s, h with
  | [a], _ => exact numeralDigits_one a
  | [a, b], _ =>
    by_cases ha : isHexDigit a = true
    · obtain ⟨hspace, hminus, hplus⟩ := digit_plain_of_isHexDigit ha
      simp [numeralDigits, shortNumeral, hspace, hminus, hplus, dropRadix, ha]
    by_cases hspace : isSpace a = true
    · rw [numeralDigits_space hspace, numeralDigits_one]
      simp [shortNumeral, ha, hspace]
    by_cases hsign : (isMinus a || isPlus a) = true
    · by_cases hb : isHexDigit b = true
      · simp [numeralDigits, shortNumeral, hspace, hsign, dropRadix, ha, hb]
      · simp [numeralDigits, shortNumeral, hspace, hsign, dropRadix, ha, hb]
    · simp [numeralDigits, shortNumeral, hspace, hsign, dropRadix, ha]

end Numerals
