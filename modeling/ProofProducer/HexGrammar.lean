import ProofProducer.HexFormat

/-!
# The texts of hexadecimal files

A grammar for the files the hex reader is meant for, and the texts it takes or throws on beyond
them. Every text of the grammar is read as its bytes. Outside of it the reader depends on what
the number parser makes of the two-character slices of a line.
-/

namespace ProofProducer

open Effects Files Files.FileSystem Numerals

set_option autoImplicit false

/-- Complete pairs of hexadecimal digits and the bytes they stand for. -/
inductive HexPairs : Bytes → Bytes → Prop where
  | nil : HexPairs [] []
  | cons {high low : UInt8} {m n : Nat} {s v : Bytes} : digitValue high = some m →
      digitValue low = some n → HexPairs s v →
      HexPairs (high :: low :: s) (UInt8.ofNat (16 * m + n) :: v)

/-- The prefix followed by at least one pair. -/
inductive HexLine : Bytes → Bytes → Prop where
  | mk {s v : Bytes} : HexPairs s v → v ≠ [] → HexLine (hexPrefix ++ s) v

/-- Lines, of which the last one need not be ended. -/
inductive HexFile : Bytes → Bytes → Prop where
  | empty : HexFile [] []
  | last {line v : Bytes} : HexLine line v → HexFile line v
  | line {line text v w : Bytes} : HexLine line v → HexFile text w →
      HexFile (line ++ newline :: text) (v ++ w)

variable {s v w line text c : Bytes} {rest : List Bytes}

theorem HexPairs.newline_not_mem (h : HexPairs s v) : newline ∉ s := by
  induction h with
  | nil => exact List.not_mem_nil
  | @cons high low m n s v hhigh hlow _ ih =>
    have hnone : digitValue newline = none := by decide
    intro hm
    rcases List.mem_cons.mp hm with he | hm
    · rw [← he, hnone] at hhigh
      simp at hhigh
    rcases List.mem_cons.mp hm with he | hm
    · rw [← he, hnone] at hlow
      simp at hlow
    · exact ih hm

theorem HexPairs.length_eq (h : HexPairs s v) : s.length = 2 * v.length := by
  induction h with
  | nil => rfl
  | cons _ _ _ ih =>
    simp only [List.length_cons]
    omega

theorem HexPairs.read (h : HexPairs s v) : readPairs s = .ok v := by
  induction h with
  | nil => rfl
  | cons hhigh hlow _ ih =>
    have hpair := stoul_pair hhigh hlow
    simp only [readPairs, readByte, hpair, ih]
    rfl

theorem HexLine.newline_not_mem (h : HexLine line v) : newline ∉ line := by
  obtain ⟨hpairs, _⟩ := h
  intro hm
  rcases List.mem_append.mp hm with hm | hm
  · exact absurd hm (by decide)
  · exact hpairs.newline_not_mem hm

theorem lines_append_newline (h : newline ∉ line) (text : Bytes) :
    lines (line ++ newline :: text) = line :: lines text := by
  induction line with
  | nil => simp [lines]
  | cons b line ih =>
    have hb : b ≠ newline := fun he => h (he ▸ List.mem_cons_self)
    have hline : newline ∉ line := fun hm => h (List.mem_cons_of_mem b hm)
    simp only [List.cons_append, lines]
    rw [if_neg hb, ih hline]

/-- The test that a line has to pass before its slices are parsed. -/
def Headed (line : Bytes) : Prop := hexPrefix.isPrefixOf line = true ∧ 3 ≤ line.length

instance (line : Bytes) : Decidable (Headed line) := inferInstanceAs (Decidable (_ ∧ _))

theorem readHexLines_of_headed (h : Headed line) (rest : List Bytes) :
    readHexLines (line :: rest) =
      match readPairs (line.drop 2) with
      | .error e => .error e
      | .ok bytes => (readHexLines rest).map (Option.map (bytes ++ ·)) := by
  have hguard : (hexPrefix.isPrefixOf line && decide (3 ≤ line.length)) = true :=
    Bool.and_eq_true_iff.mpr ⟨h.1, decide_eq_true h.2⟩
  simp only [readHexLines]
  exact if_pos hguard

theorem readHexLines_of_not_headed (h : ¬ Headed line) (rest : List Bytes) :
    readHexLines (line :: rest) = .ok none := by
  have hguard : ¬ (hexPrefix.isPrefixOf line && decide (3 ≤ line.length)) = true := by
    intro hg
    obtain ⟨hp, hl⟩ := Bool.and_eq_true_iff.mp hg
    exact h ⟨hp, of_decide_eq_true hl⟩
  simp only [readHexLines]
  rw [if_neg hguard]

theorem HexLine.length_eq (h : HexLine line v) : line.length = 2 * v.length + 2 := by
  obtain ⟨hpairs, _⟩ := h
  have hlen := hpairs.length_eq
  simp only [hexPrefix, List.length_append, List.length_cons, List.length_nil]
  omega

theorem HexLine.headed (h : HexLine line v) : Headed line := by
  have hlen := h.length_eq
  obtain ⟨_, hne⟩ := h
  have hv := List.length_pos_iff.mpr hne
  exact ⟨List.isPrefixOf_iff_prefix.mpr ⟨_, rfl⟩, by omega⟩

theorem HexLine.read (h : HexLine line v) (rest : List Bytes) :
    readHexLines (line :: rest) = (readHexLines rest).map (Option.map (v ++ ·)) := by
  rw [readHexLines_of_headed h.headed]
  obtain ⟨hpairs, _⟩ := h
  have hdrop : ∀ s : Bytes, (hexPrefix ++ s).drop 2 = s := fun _ => rfl
  rw [hdrop, hpairs.read]

/-- A file of the format is read as its bytes. -/
theorem HexFile.read (h : HexFile c v) : readHexLines (lines c) = .ok (some v) := by
  induction h with
  | empty => rfl
  | @last line v hline =>
    have hne : line ≠ [] := by
      intro he
      have hlen := hline.headed.2
      simp [he] at hlen
    rw [lines_of_no_newline hne hline.newline_not_mem, hline.read]
    simp [readHexLines, Except.map]
  | @line line text v w hline _ ih =>
    rw [lines_append_newline hline.newline_not_mem, hline.read, ih]
    rfl

theorem HexFile.unique (hv : HexFile c v) (hw : HexFile c w) : v = w := by
  have hread := hv.read
  rw [hw.read] at hread
  exact (Option.some.inj (Except.ok.inj hread)).symm

/-- The slices the line is cut into. -/
def slices : Bytes → List Bytes
  | [] => []
  | [a] => [[a]]
  | a :: b :: s => [a, b] :: slices s

/-- The number parser takes every slice of the line. -/
def Parsable (line : Bytes) : Prop := ∀ slice ∈ slices (line.drop 2), shortNumeral slice = true

theorem readByte_ok_iff (h : s.length = 1 ∨ s.length = 2) :
    (∃ b, readByte s = .ok b) ↔ shortNumeral s = true := by
  rw [← stoul_short h]
  unfold readByte
  cases stoul s with
  | ok n => simp
  | error e => simp

theorem readPairs_ok_iff (s : Bytes) :
    (∃ v, readPairs s = .ok v) ↔ ∀ slice ∈ slices s, shortNumeral slice = true := by
  induction s using readPairs.induct with
  | case1 => simp [readPairs, slices]
  | case2 a =>
    rw [slices, List.forall_mem_singleton, ← readByte_ok_iff (Or.inl rfl), readPairs]
    cases readByte [a] with
    | ok b => simp [Except.map]
    | error e => simp [Except.map]
  | case3 a b s e he =>
    rw [slices, List.forall_mem_cons, ← readByte_ok_iff (Or.inr rfl), readPairs, he]
    simp
  | case4 a b s x hx ih =>
    rw [slices, List.forall_mem_cons, ← readByte_ok_iff (Or.inr rfl), ← ih, readPairs, hx]
    cases readPairs s with
    | ok v => simp [Except.map]
    | error e => simp [Except.map]

/-- A line that the guard rejects, behind lines that are headed and parsed. -/
def Rejected (ls : List Bytes) : Prop :=
  ∃ before line after, ls = before ++ line :: after ∧
    (∀ earlier ∈ before, Headed earlier ∧ Parsable earlier) ∧ ¬ Headed line

theorem readHexLines_none_iff (ls : List Bytes) : readHexLines ls = .ok none ↔ Rejected ls := by
  induction ls with
  | nil => simp [readHexLines, Rejected]
  | cons first rest ih =>
    by_cases hfirst : Headed first
    swap
    · rw [readHexLines_of_not_headed hfirst]
      exact iff_of_true rfl ⟨[], first, rest, rfl, by simp, hfirst⟩
    rw [readHexLines_of_headed hfirst]
    constructor
    · intro h
      cases hpairs : readPairs (first.drop 2) with
      | error e => simp [hpairs] at h
      | ok bytes =>
        have hparsable : Parsable first := (readPairs_ok_iff _).mp ⟨bytes, hpairs⟩
        have hrest : readHexLines rest = .ok none := by
          cases hr : readHexLines rest with
          | error e => simp [hpairs, hr, Except.map] at h
          | ok r =>
            cases r with
            | none => rfl
            | some v => simp [hpairs, hr, Except.map] at h
        obtain ⟨before, line, after, rfl, hbefore, hline⟩ := ih.mp hrest
        exact ⟨first :: before, line, after, rfl,
          List.forall_mem_cons.mpr ⟨⟨hfirst, hparsable⟩, hbefore⟩, hline⟩
    · intro h
      obtain ⟨before, line, after, heq, hbefore, hline⟩ := h
      cases before with
      | nil =>
        obtain ⟨rfl, _⟩ := List.cons.inj heq
        exact (hline hfirst).elim
      | cons earlier before =>
        obtain ⟨rfl, rfl⟩ := List.cons.inj heq
        obtain ⟨hearlier, hbefore⟩ := List.forall_mem_cons.mp hbefore
        obtain ⟨bytes, hpairs⟩ := (readPairs_ok_iff _).mpr hearlier.2
        have hrest := ih.mpr ⟨before, line, after, rfl, hbefore, hline⟩
        simp only [hpairs]
        rw [hrest]
        rfl

/-- What the format asks of the reader on a text. -/
structure ReadsExactly (text : Bytes) (answer : Except Exception (Option Bytes)) : Prop where
  bytes : ∀ v, answer = .ok (some v) ↔ HexFile text v
  otherwise : (∀ v, ¬ HexFile text v) → answer = .ok none

/-- On a text without the format the reader answers as it should exactly if it comes to a line
that its guard rejects before it comes to a slice that the number parser refuses. -/
theorem readHexFileToVector_exact_iff {fs : FileSystem} {path : Path} {text : Bytes}
    (h : fs.content path = some text) :
    ReadsExactly text (readHexFileToVector fs path) ↔
      (∃ v, HexFile text v) ∨ Rejected (lines text) := by
  rw [readHexFileToVector_of_content h]
  by_cases hformat : ∃ v, HexFile text v
  · obtain ⟨v, hv⟩ := hformat
    refine iff_of_true ⟨fun w => ?_, fun hno => (hno v hv).elim⟩ (Or.inl ⟨v, hv⟩)
    rw [hv.read]
    constructor
    · intro he
      rw [← Option.some.inj (Except.ok.inj he)]
      exact hv
    · intro hw
      rw [hv.unique hw]
  · have hno : ∀ v, ¬ HexFile text v := fun v hv => hformat ⟨v, hv⟩
    constructor
    · intro hexact
      exact Or.inr ((readHexLines_none_iff _).mp (hexact.otherwise hno))
    · intro hor
      have hnone : readHexLines (lines text) = .ok none :=
        (readHexLines_none_iff _).mpr (hor.resolve_left hformat)
      rw [hnone]
      exact ⟨fun v => iff_of_false (by simp) (hno v), fun _ => rfl⟩

/-- A file with a text of one line that nothing ends. -/
def textFile (text : List Char) : FileSystem :=
  FileSystem.empty.store [['p']] (text.map Char.toUInt8)

theorem readHexFileToVector_exact_iff_aB :
    ReadsExactly ("0xaB".toList.map Char.toUInt8)
        (readHexFileToVector (textFile "0xaB".toList) ['p']) ↔
      (∃ v, HexFile ("0xaB".toList.map Char.toUInt8) v) ∨
        Rejected (lines ("0xaB".toList.map Char.toUInt8)) :=
  readHexFileToVector_exact_iff rfl

theorem HexFile.hexLine (h : HexFile text v) (hne : text ≠ []) (hno : newline ∉ text) :
    HexLine text v := by
  cases h with
  | empty => exact (hne rfl).elim
  | last hline => exact hline
  | line _ _ => exact (hno (List.mem_append_right _ List.mem_cons_self)).elim

/-- Half a pair at the end of a line is taken for a byte. -/
theorem half_pair_is_read :
    ¬ ∀ (fs : FileSystem) (path : Path) (text : Bytes), fs.content path = some text →
      ReadsExactly text (readHexFileToVector fs path) := by
  intro h
  have hread : readHexFileToVector (textFile "0x1".toList) ['p'] = .ok (some [1]) := by decide
  have hfile := ((h (textFile "0x1".toList) ['p'] _ rfl).bytes [1]).mp hread
  have hlen := (hfile.hexLine (by decide) (by decide)).length_eq
  exact absurd hlen (by decide)

end ProofProducer
