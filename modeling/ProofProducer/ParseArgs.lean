import ProofProducer.Shared.Loops
import Mathlib.Data.List.Basic

/-!
# The option loop of `make_proof_for_pairs.sh`

A command line is a sequence of options, each with its value, and targets, and then what `--`
forwards. The loop takes it apart in this way, unless the last word is an option whose value is
missing: that one `shift 2` does not take away.
-/

namespace ProofProducer

open Loops

set_option autoImplicit false

/-- The positional parameters and the variables of `parse_args`. -/
structure ShellState where
  args : List String
  baseDir : String
  outputDir : String
  useMultithreaded : Bool
  useNix : Bool
  argsToForward : List String
  targets : List String
  deriving DecidableEq, Repr

/-- `$i`, which is empty if there are not so many. -/
def ShellState.param (s : ShellState) (i : Nat) : String := s.args.getD (i - 1) ""

/-- `shift n`; with fewer than `n` parameters it fails and leaves them alone. -/
def shift (n : Nat) (s : ShellState) : ShellState :=
  if s.args.length < n then s else { s with args := s.args.drop n }

/-- `[ "$#" -gt 0 ]` -/
def anyLeft (s : ShellState) : Bool := decide (s.args.length > 0)

/-- The pattern of a `case` on `$1`. -/
def first (word : String) (s : ShellState) : Bool := decide (s.param 1 = word)

def forwardRemaining : Program ShellState :=
  loop anyLeft <| command fun s =>
    shift 1 { s with argsToForward := s.argsToForward ++ [s.param 1] }

def parseOption : Program ShellState :=
  branch (first "--base-dir") (command fun s => shift 2 { s with baseDir := s.param 2 }) <|
  branch (first "--output-dir") (command fun s => shift 2 { s with outputDir := s.param 2 }) <|
  branch (first "--multithreaded") (command fun s => shift 1 { s with useMultithreaded := true }) <|
  branch (first "--use-nix") (command fun s => shift 1 { s with useNix := true }) <|
  branch (first "--") (seq (command (shift 1)) forwardRemaining) <|
  command fun s => shift 1 { s with targets := s.targets ++ [s.param 1] }

def optionLoop : Program ShellState := loop anyLeft parseOption

/-- The variables as `parse_args` sets them before the loop. -/
def initialState (args : List String) : ShellState := ⟨args, ".", "", false, false, [], []⟩

/-- The loop of `parse_args` ends in this state. -/
def ParseArgs (args : List String) (s : ShellState) : Prop := Ends optionLoop (initialState args) s

def optionWords : List String :=
  ["--base-dir", "--output-dir", "--multithreaded", "--use-nix", "--"]

/-- What the loop takes at once. -/
inductive Item where
  | baseDir (value : String)
  | outputDir (value : String)
  | multithreaded
  | useNix
  | target (word : String) (plain : word ∉ optionWords)

namespace Item

def words : Item → List String
  | baseDir value => ["--base-dir", value]
  | outputDir value => ["--output-dir", value]
  | multithreaded => ["--multithreaded"]
  | useNix => ["--use-nix"]
  | target word _ => [word]

def baseDir? : Item → Option String
  | baseDir value => some value
  | _ => none

def outputDir? : Item → Option String
  | outputDir value => some value
  | _ => none

def isMultithreaded : Item → Bool
  | multithreaded => true
  | _ => false

def isUseNix : Item → Bool
  | useNix => true
  | _ => false

def target? : Item → Option String
  | target word _ => some word
  | _ => none

end Item

/-- The items, and the words behind `--` if there is one. -/
structure CommandLine where
  items : List Item
  forwarded : Option (List String)

namespace CommandLine

def words (c : CommandLine) : List String :=
  c.items.flatMap Item.words ++
    match c.forwarded with
    | none => []
    | some ws => "--" :: ws

/-- The last value of each option, the flags that occur, and the other words in order. -/
def settings (c : CommandLine) : ShellState where
  args := []
  baseDir := (c.items.filterMap Item.baseDir?).getLastD "."
  outputDir := (c.items.filterMap Item.outputDir?).getLastD ""
  useMultithreaded := c.items.any Item.isMultithreaded
  useNix := c.items.any Item.isUseNix
  argsToForward := c.forwarded.getD []
  targets := c.items.filterMap Item.target?

end CommandLine

/-- The words of the list are those of one command line only, and the variables are what it
says. -/
def Partitions (args : List String) (s : ShellState) : Prop :=
  ∃! c : CommandLine, c.words = args ∧ s = c.settings

/-- Behind items there is nothing left but an option that lacks its value. -/
def Dangling (args : List String) : Prop :=
  ∃ (items : List Item) (opt : String), (opt = "--base-dir" ∨ opt = "--output-dir") ∧
    args = items.flatMap Item.words ++ [opt]

/-- Each option with a value that stands before any `--` has a word behind it. -/
def Followed (args : List String) : Prop :=
  ∀ before opt after, args = before ++ opt :: after →
    opt = "--base-dir" ∨ opt = "--output-dir" → "--" ∉ before → after ≠ []

variable {args rest : List String} {s t : ShellState}

/-- The first word of an item tells which item it is. -/
theorem words_append_injective {i j : Item} {rest' : List String}
    (h : i.words ++ rest = j.words ++ rest') : i = j ∧ rest = rest' := by
  cases i with
  | target word plain =>
    simp only [optionWords, List.mem_cons, List.not_mem_nil, or_false, not_or] at plain
    cases j <;> simp_all [Item.words]
  | _ =>
    cases j with
    | target word plain =>
      simp only [optionWords, List.mem_cons, List.not_mem_nil, or_false, not_or] at plain
      simp_all [Item.words]
    | _ => simp_all [Item.words]

theorem words_ne_separator (i : Item) (ws : List String) : i.words ++ rest ≠ "--" :: ws := by
  intro h
  cases i with
  | target word plain =>
    have hword : word = "--" := (List.cons.inj h).1
    apply plain
    rw [hword]
    decide
  | _ => simp [Item.words] at h

/-- There is only one way to read a list as a command line. -/
theorem CommandLine.words_injective {c c' : CommandLine} (h : c.words = c'.words) : c = c' := by
  obtain ⟨items, forwarded⟩ := c
  obtain ⟨items', forwarded'⟩ := c'
  simp only [words] at h
  induction items generalizing items' with
  | nil =>
    cases items' with
    | nil => cases forwarded <;> cases forwarded' <;> simp_all
    | cons j items' =>
      rw [List.flatMap_cons, List.append_assoc] at h
      cases forwarded with
      | none => cases j <;> simp [Item.words] at h
      | some ws => exact (words_ne_separator j ws h.symm).elim
  | cons i items ih =>
    rw [List.flatMap_cons, List.append_assoc] at h
    cases items' with
    | nil =>
      cases forwarded' with
      | none => cases i <;> simp [Item.words] at h
      | some ws => exact (words_ne_separator i ws h).elim
    | cons j items' =>
      rw [List.flatMap_cons, List.append_assoc] at h
      obtain ⟨hij, hrest⟩ := words_append_injective h
      have htail := CommandLine.mk.inj (ih items' hrest)
      rw [hij, htail.1, htail.2]

theorem shift_two (first second : String) (s : ShellState) :
    shift 2 { s with args := first :: second :: rest } = { s with args := rest } := by
  have hmany : ¬ rest.length + 1 + 1 < 2 := by omega
  simp [shift, hmany]

theorem forwardRemaining_ends (s : ShellState) :
    Ends forwardRemaining s { s with args := [], argsToForward := s.argsToForward ++ s.args } := by
  obtain ⟨args, baseDir, outputDir, useMultithreaded, useNix, forwarded, targets⟩ := s
  induction args generalizing forwarded with
  | nil =>
    rw [List.append_nil]
    exact ends_loop_done rfl
  | cons w ws ih =>
    have hrest := ih (forwarded ++ [w])
    rw [List.append_assoc] at hrest
    exact ends_loop_next (command_stable _) rfl (ends_command _ _) hrest

theorem forwardRemaining_stable : Stable forwardRemaining := loop_stable (command_stable _)

theorem parseOption_stable : Stable parseOption := by
  refine branch_stable (command_stable _) (branch_stable (command_stable _) ?_)
  refine branch_stable (command_stable _) (branch_stable (command_stable _) ?_)
  exact branch_stable (seq_stable (command_stable _) forwardRemaining_stable) (command_stable _)

/-- What an item does to the variables. -/
def Item.apply (s : ShellState) : Item → ShellState
  | baseDir value => { s with baseDir := value }
  | outputDir value => { s with outputDir := value }
  | multithreaded => { s with useMultithreaded := true }
  | useNix => { s with useNix := true }
  | target word _ => { s with targets := s.targets ++ [word] }

/-- One turn takes one item. -/
theorem parseOption_item (i : Item) (s : ShellState) (fuel : Nat) :
    parseOption fuel { s with args := i.words ++ rest } =
      some (i.apply { s with args := rest }) := by
  cases i with
  | baseDir value => exact congrArg some (shift_two _ _ { s with baseDir := value })
  | outputDir value => exact congrArg some (shift_two _ _ { s with outputDir := value })
  | multithreaded => rfl
  | useNix => rfl
  | target word plain =>
    simp only [optionWords, List.mem_cons, List.not_mem_nil, or_false, not_or] at plain
    simp [parseOption, branch, command, first, Item.words, Item.apply, ShellState.param, shift,
      plain]

theorem parseOption_separator (s : ShellState) (ws : List String) :
    Ends parseOption { s with args := "--" :: ws }
      { s with args := [], argsToForward := s.argsToForward ++ ws } := by
  obtain ⟨fuel, hfuel⟩ := forwardRemaining_ends { s with args := ws }
  exact ⟨fuel, hfuel⟩

/-- An option that lacks its value stays where it is. -/
theorem parseOption_lacking {opt : String} (hopt : opt = "--base-dir" ∨ opt = "--output-dir")
    (hs : s.args = [opt]) {fuel : Nat} (h : parseOption fuel s = some t) : t.args = [opt] := by
  rcases hopt with rfl | rfl
  · have hstay : parseOption fuel s = some { s with baseDir := "" } := by
      simp [parseOption, branch, command, first, ShellState.param, shift, hs]
    rw [hstay] at h
    rw [← Option.some.inj h]
    exact hs
  · have hstay : parseOption fuel s = some { s with outputDir := "" } := by
      simp [parseOption, branch, command, first, ShellState.param, shift, hs]
    rw [hstay] at h
    rw [← Option.some.inj h]
    exact hs

theorem item_words_or_dangling (i : Item)
    (h : (∃ c : CommandLine, c.words = rest) ∨ Dangling rest) :
    (∃ c : CommandLine, c.words = i.words ++ rest) ∨ Dangling (i.words ++ rest) := by
  rcases h with ⟨c, hc⟩ | ⟨items, opt, hopt, hrest⟩
  · refine Or.inl ⟨⟨i :: c.items, c.forwarded⟩, ?_⟩
    rw [← hc, CommandLine.words, CommandLine.words, List.flatMap_cons, List.append_assoc]
  · refine Or.inr ⟨i :: items, opt, hopt, ?_⟩
    rw [hrest, List.flatMap_cons, List.append_assoc]

/-- Any list is that of a command line, or an option lacks its value. -/
theorem words_or_dangling (args : List String) :
    (∃ c : CommandLine, c.words = args) ∨ Dangling args := by
  induction hn : args.length using Nat.strongRecOn generalizing args with
  | ind n ih =>
    subst n
    cases args with
    | nil => exact Or.inl ⟨⟨[], none⟩, rfl⟩
    | cons w ws =>
      have hone := ih ws.length (Nat.lt_succ_self _) ws rfl
      by_cases hplain : w ∈ optionWords
      · simp only [optionWords, List.mem_cons, List.not_mem_nil, or_false] at hplain
        rcases hplain with rfl | rfl | rfl | rfl | rfl
        · cases ws with
          | nil => exact Or.inr ⟨[], _, Or.inl rfl, rfl⟩
          | cons value rest =>
            have htwo := ih rest.length (by simp only [List.length_cons]; omega) rest rfl
            exact item_words_or_dangling (.baseDir value) htwo
        · cases ws with
          | nil => exact Or.inr ⟨[], _, Or.inr rfl, rfl⟩
          | cons value rest =>
            have htwo := ih rest.length (by simp only [List.length_cons]; omega) rest rfl
            exact item_words_or_dangling (.outputDir value) htwo
        · exact item_words_or_dangling .multithreaded hone
        · exact item_words_or_dangling .useNix hone
        · exact Or.inl ⟨⟨[], some ws⟩, rfl⟩
      · exact item_words_or_dangling (.target w hplain) hone

theorem apply_args (i : Item) (s : ShellState) (args : List String) :
    i.apply { s with args := args } = { i.apply s with args := args } := by
  cases i <;> rfl

theorem anyLeft_words (i : Item) (s : ShellState) :
    anyLeft { s with args := i.words ++ rest } = true := by
  cases i <;> rfl

/-- The items in front are done one after the other. -/
theorem optionLoop_items (items : List Item) (s : ShellState)
    (h : Ends optionLoop { items.foldl Item.apply s with args := rest } t) :
    Ends optionLoop { s with args := items.flatMap Item.words ++ rest } t := by
  induction items generalizing s with
  | nil => exact h
  | cons i items ih =>
    have hturn : Ends parseOption { s with args := i.words ++ (items.flatMap Item.words ++ rest) }
        { i.apply s with args := items.flatMap Item.words ++ rest } :=
      ⟨0, by rw [parseOption_item, apply_args]⟩
    rw [List.flatMap_cons, List.append_assoc]
    exact ends_loop_next parseOption_stable (anyLeft_words i s) hturn (ih (i.apply s) h)

theorem foldl_apply (items : List Item) (s : ShellState) :
    items.foldl Item.apply s =
      { s with
        baseDir := (items.filterMap Item.baseDir?).getLastD s.baseDir
        outputDir := (items.filterMap Item.outputDir?).getLastD s.outputDir
        useMultithreaded := s.useMultithreaded || items.any Item.isMultithreaded
        useNix := s.useNix || items.any Item.isUseNix
        targets := s.targets ++ items.filterMap Item.target? } := by
  induction items generalizing s with
  | nil => simp
  | cons i items ih =>
    rw [List.foldl_cons, ih]
    simp only [List.filterMap_cons, List.any_cons]
    cases i <;>
      simp only [Item.apply, Item.baseDir?, Item.outputDir?, Item.isMultithreaded, Item.isUseNix,
        Item.target?, List.getLastD_cons, Bool.false_or, Bool.true_or, Bool.or_true,
        List.append_assoc, List.singleton_append]

/-- The loop takes the words of a command line apart into what it says. -/
theorem parseArgs_commandLine (c : CommandLine) : ParseArgs c.words c.settings := by
  obtain ⟨items, forwarded⟩ := c
  have hitems := foldl_apply items (initialState [])
  simp only [initialState, Bool.false_or, List.nil_append] at hitems
  apply optionLoop_items items (initialState [])
  rw [initialState, hitems]
  cases forwarded with
  | none => exact ends_loop_done rfl
  | some ws =>
    have hturn := parseOption_separator (items.foldl Item.apply (initialState [])) ws
    rw [initialState, hitems] at hturn
    exact ends_loop_next parseOption_stable rfl hturn (ends_loop_done rfl)

/-- A `--` that is the value of an option does not end the options. -/
example : optionLoop 9 (initialState ["--base-dir", "--", "x", "--", "y", "--use-nix"]) =
    some ⟨[], "--", "", false, false, ["y", "--use-nix"], ["x"]⟩ := rfl

/-- An option that lacks its value is still there after every turn. -/
theorem parseOption_dangling (h : Dangling s.args) {fuel : Nat} (ht : parseOption fuel s = some t) :
    Dangling t.args := by
  obtain ⟨items, opt, hopt, hargs⟩ := h
  cases items with
  | nil => exact ⟨[], opt, hopt, parseOption_lacking hopt hargs ht⟩
  | cons i items =>
    refine ⟨items, opt, hopt, ?_⟩
    have hs : s = { s with args := i.words ++ (items.flatMap Item.words ++ [opt]) } := by
      rw [← List.append_assoc, ← List.flatMap_cons, ← hargs]
    rw [hs, parseOption_item, apply_args] at ht
    rw [← Option.some.inj ht]

theorem dangling_anyLeft (h : Dangling s.args) : anyLeft s = true := by
  obtain ⟨items, opt, _, hargs⟩ := h
  simp [anyLeft, hargs]

theorem dangling_never_ends (h : Dangling args) (s : ShellState) : ¬ ParseArgs args s := by
  apply not_ends_of_trap fun s => Dangling s.args
  · exact fun s hs => dangling_anyLeft hs
  · intro s t hs ht
    obtain ⟨fuel, hrun⟩ := ht
    exact parseOption_dangling hs hrun
  · exact h

theorem partitions_of_ends (h : ParseArgs args s) : Partitions args s := by
  rcases words_or_dangling args with ⟨c, rfl⟩ | hdangling
  · have hs : s = c.settings :=
      Ends.unique (loop_stable parseOption_stable) h (parseArgs_commandLine c)
    exact ⟨c, ⟨rfl, hs⟩, fun c' hc' => CommandLine.words_injective hc'.1⟩
  · exact (dangling_never_ends hdangling s h).elim

/-- The option loop ends, with the words sorted as they should be, exactly if no option lacks its
value. -/
theorem parse_args_partitions_iff (args : List String) :
    ((∃ s, ParseArgs args s) ∧ (Followed args → ∀ s, ParseArgs args s → Partitions args s)) ↔
      ¬ Dangling args := by
  constructor
  · intro h hdangling
    obtain ⟨⟨s, hs⟩, _⟩ := h
    exact dangling_never_ends hdangling s hs
  · intro h
    obtain ⟨c, rfl⟩ := (words_or_dangling args).resolve_right h
    exact ⟨⟨c.settings, parseArgs_commandLine c⟩, fun _ s hs => partitions_of_ends hs⟩

/-- With `--base-dir` alone the loop goes on for ever. -/
theorem base_dir_without_value_hangs :
    ¬ ∀ args, (∃ s, ParseArgs args s) ∧
      (Followed args → ∀ s, ParseArgs args s → Partitions args s) := by
  intro h
  obtain ⟨s, hs⟩ := (h ["--base-dir"]).1
  exact dangling_never_ends ⟨[], _, Or.inl rfl, rfl⟩ s hs

end ProofProducer
