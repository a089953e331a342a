import ProofProducer.Isolation
import ProofProducer.Main

/-!
# The pairs of `make_proof_for_pairs.sh`

For every assignment table that `find` lists, the script runs the program with the circuit beside
the table and a proof file in a directory for the pair. All other outputs of the runs have the same
names. The tables are what `read` makes of the lines of `find`. What `realpath`, `dirname` and the
expansion of patterns answer is a parameter; what is printed is left out.
-/

namespace ProofProducer

open Effects Files Files.FileSystem Layers Schedules

set_option autoImplicit false

/-- `${tbl_file%assignment.tbl}circuit.crct` -/
def circuitFile (tblFile : Path) : Path :=
  let suffix := "assignment.tbl".toList
  (if suffix.isSuffixOf tblFile then tblFile.take (tblFile.length - suffix.length) else tblFile) ++
    "circuit.crct".toList

/-- `[ -f file ]` -/
def isRegularFile (fs : FileSystem) (p : Path) : Bool := (fs.content p).isSome

def makeDirectory (fs : FileSystem) (l : Location) : FileSystem :=
  { fs with node := fun k => if k = l then some (.directory true) else fs.node k }

/-- The missing directories on the way, until one cannot be made. -/
def makeDirectories (fs : FileSystem) (l : Location) : List (List Char) → FileSystem
  | [] => fs
  | name :: names =>
    match fs.node (move l name) with
    | some _ => makeDirectories fs (move l name) names
    | none =>
      if fs.directoryWritable l then
        makeDirectories (makeDirectory fs (move l name)) (move l name) names
      else fs

/-- `mkdir -p`, whose result the script does not look at. -/
def mkdirP (fs : FileSystem) (p : Path) : FileSystem :=
  makeDirectories fs (fs.origin p) (components p)

/-- The characters that `IFS` holds. -/
def isBlank (c : Char) : Bool := c = ' ' || c = '\t' || c = '\n'

/-- Word splitting, with the word that has begun. Empty words are dropped. -/
def splitFrom (word : List Char) : List Char → List (List Char)
  | [] => if word = [] then [] else [word]
  | c :: text =>
    if isBlank c then
      if word = [] then splitFrom [] text else word :: splitFrom [] text
    else splitFrom (word ++ [c]) text

/-- No character of the text is special in a pattern. -/
def Plain (text : List Char) : Prop := ∀ c ∈ text, c ∉ ['*', '?', '[', '\\']

instance (text : List Char) : Decidable (Plain text) :=
  List.decidableBAll (· ∉ ['*', '?', '[', '\\']) text

/-- What the functions of the script find in their environment. The expansion of a pattern depends
on the files that are there; a word without special characters stands for itself. -/
structure PairScript where
  programOptions : ProgramOptions
  libraries : Libraries
  disk : Disk
  outputDir : Path
  relativeTblPath : Path → Path
  dirname : List Path → Path
  argsToForward : List String
  expandPattern : FileSystem → List Char → List (List Char)
  expand_plain : ∀ fs word, Plain word → expandPattern fs word = [word]

namespace PairScript

/-- An expansion without quotes is split, and its words are expanded as patterns. -/
def unquoted (s : PairScript) (fs : FileSystem) (text : List Char) : List (List Char) :=
  (splitFrom [] text).flatMap (s.expandPattern fs)

/-- The operand of `dirname` is not quoted. -/
def proofDir (s : PairScript) (fs : FileSystem) (tblFile : Path) : Path :=
  s.outputDir ++ '/' :: s.dirname (s.unquoted fs (s.relativeTblPath tblFile))

/-- Nor are the arguments to forward. -/
def commandLine (s : PairScript) (fs : FileSystem) (tblFile proofDir : Path) : List String :=
  ["-t", String.ofList tblFile, "--circuit", String.ofList (circuitFile tblFile), "--proof",
    String.ofList (proofDir ++ "/proof.bin".toList)] ++
    (s.argsToForward.flatMap fun arg => s.unquoted fs arg.toList).map String.ofList

def runProgram (s : PairScript) (tblFile proofDir : Path) (fs : FileSystem) :
    ProcessEnd × FileSystem :=
  main s.programOptions s.libraries s.disk (s.commandLine fs tblFile proofDir) fs

/-- Whether the function returns zero, and the files it leaves. Undefined behaviour in the run
counts as a failure. -/
def makeProofForPair (s : PairScript) (tblFile : Path) (fs : FileSystem) : Bool × FileSystem :=
  let proofDir := s.proofDir fs tblFile
  if isRegularFile fs (circuitFile tblFile) then
    let r := s.runProgram tblFile proofDir (mkdirP fs proofDir)
    (decide (r.1 = .returned (.exit 0)), r.2)
  else (false, fs)

/-- The loop over the lines that `find` prints, with `exit_code`. -/
def processDirectory (s : PairScript) : List Path → Nat × FileSystem → Nat × FileSystem
  | [], state => state
  | tblFile :: tblFiles, (exitCode, fs) =>
    match s.makeProofForPair tblFile fs with
    | (true, fs') => s.processDirectory tblFiles (exitCode, fs')
    | (false, fs') => s.processDirectory tblFiles (1, fs')

end PairScript

variable {fs fs₁ : FileSystem} {s : PairScript} {tblFile tblFile' : Path} {tblFiles : List Path}
  {options : Path → AllOptions} {p q : Path}

theorem makeDirectories_of_descend {l : Location} {names : List (List Char)}
    (h : (fs.descend l names).isSome) : makeDirectories fs l names = fs := by
  induction names generalizing l with
  | nil => rfl
  | cons name names ih =>
    have hrest : (fs.descend (move l name) names).isSome := by
      rw [descend] at h
      split at h
      · exact h
      · simp at h
    have hdir : fs.isDirectory (move l name) = true := by
      cases hd : fs.isDirectory (move l name) with
      | true => rfl
      | false =>
        rw [descend_of_not_directory hd] at hrest
        simp at hrest
    obtain ⟨w, hnode⟩ := node_of_isDirectory hdir
    simp only [makeDirectories, hnode]
    exact ih hrest

/-- The path leads to a directory. -/
def IsDirectoryPath (fs : FileSystem) (p : Path) : Prop :=
  (fs.descend (fs.origin p) (components p)).isSome

theorem mkdirP_of_directory (h : IsDirectoryPath fs p) : mkdirP fs p = fs :=
  makeDirectories_of_descend h

theorem IsDirectoryPath.steady (h : IsDirectoryPath fs p) (hs : Steady fs fs₁) :
    IsDirectoryPath fs₁ p := by
  have horigin : fs₁.origin p = fs.origin p := by simp only [origin, hs.currentDirectory]
  unfold IsDirectoryPath
  rw [horigin, hs.descend_eq]
  exact h

theorem isRegularFile_congr (h : fs₁.lookup p = fs.lookup p) :
    isRegularFile fs₁ p = isRegularFile fs p := by
  simp only [isRegularFile, content_congr h]

theorem mem_of_mem_splitFrom {word text w : List Char} {c : Char} (hw : w ∈ splitFrom word text)
    (hc : c ∈ w) : c ∈ word ∨ c ∈ text := by
  induction text generalizing word with
  | nil =>
    rw [splitFrom] at hw
    split at hw
    · simp at hw
    · rw [List.mem_singleton.mp hw] at hc
      exact Or.inl hc
  | cons a text ih =>
    have hlater : ∀ {word'}, w ∈ splitFrom word' text → (∀ b ∈ word', b ∈ word ∨ b = a) →
        c ∈ word ∨ c ∈ a :: text := by
      intro word' hmem hword'
      rcases ih hmem with h | h
      · rcases hword' c h with h | rfl
        · exact Or.inl h
        · exact Or.inr List.mem_cons_self
      · exact Or.inr (List.mem_cons_of_mem a h)
    rw [splitFrom] at hw
    split at hw
    · split at hw
      · exact hlater hw (by simp)
      · rcases List.mem_cons.mp hw with rfl | hw
        · exact Or.inl hc
        · exact hlater hw (by simp)
    · exact hlater hw (by simp)

/-- Plain text is expanded in the same way whatever files there are. -/
theorem PairScript.unquoted_plain {text : List Char} (h : Plain text) (fs : FileSystem) :
    s.unquoted fs text = splitFrom [] text := by
  have hwords : ∀ w ∈ splitFrom [] text, s.expandPattern fs w = [w] := by
    intro w hw
    refine s.expand_plain fs w fun c hc => ?_
    rcases mem_of_mem_splitFrom hw hc with hnone | hmem
    · simp at hnone
    · exact h c hmem
  have hsame : s.unquoted fs text = (splitFrom [] text).flatMap fun w => [w] :=
    List.flatMap_congr fun w hw => hwords w hw
  rw [hsame, List.flatMap_singleton']

/-- The configuration file that `parse_args` opens. -/
def configPath (po : ProgramOptions) (args : List String) : Option Path :=
  match po.parseCommandLine args with
  | .error _ => none
  | .ok parsed =>
    (po.store defaultValues parsed (nothing _) (.generic .config)).map Entry.value

theorem configText_congr (h : fs₁.lookup p = fs.lookup p) : configText fs₁ p = configText fs p := by
  simp only [configText, h]

theorem parseArgs_congr {po : ProgramOptions} {args : List String}
    (h : ∀ path, configPath po args = some path → fs₁.lookup path = fs.lookup path) :
    parseArgs po fs₁ args = parseArgs po fs args := by
  unfold parseArgs
  unfold configPath at h
  cases hcli : po.parseCommandLine args with
  | error e => rfl
  | ok parsed =>
    rw [hcli] at h
    dsimp only [bind, Except.bind, pure, Except.pure] at h ⊢
    cases hconfig : po.store defaultValues parsed (nothing _) (.generic .config) with
    | none => rfl
    | some path =>
      have htext : configText fs₁ path.value = configText fs path.value :=
        configText_congr (h path.value (by rw [hconfig]; rfl))
      simp only [readConfig, htext]

namespace PairScript

/-- The run that the program makes with these options. -/
def job (s : PairScript) (v : AllOptions) : Job :=
  ⟨s.libraries v.ellipticCurveType v.hashType, v.toProverOptions⟩

/-- The command line of a pair, as the files are now. -/
def lineOf (s : PairScript) (fs : FileSystem) (tblFile : Path) : List String :=
  s.commandLine fs tblFile (s.proofDir fs tblFile)

/-- Nothing that is expanded without quotes is a pattern, the command lines ask for runs with these
options, the directories for the proofs are there, and no pair changes what another looks at. -/
structure Orderly (s : PairScript) (fs : FileSystem) (tblFiles : List Path)
    (options : Path → AllOptions) : Prop where
  plainArgs : ∀ arg ∈ s.argsToForward, Plain arg.toList
  plainTables : ∀ tblFile ∈ tblFiles, Plain (s.relativeTblPath tblFile)
  parsed : ∀ tblFile ∈ tblFiles,
    parseArgs s.programOptions fs (s.lineOf fs tblFile) = .ok (some (options tblFile))
  directories : ∀ tblFile ∈ tblFiles, IsDirectoryPath fs (s.proofDir fs tblFile)
  configs : ∀ tblFile ∈ tblFiles, ∀ tblFile' ∈ tblFiles, tblFile' ≠ tblFile →
    ∀ path ∈ configPath s.programOptions (s.lineOf fs tblFile),
      ¬ Touches fs (options tblFile').toProverOptions path
  circuits : ∀ tblFile ∈ tblFiles, ∀ tblFile' ∈ tblFiles, tblFile' ≠ tblFile →
    ¬ Touches fs (options tblFile').toProverOptions (circuitFile tblFile)
  clear : ∀ tblFile ∈ tblFiles, ∀ tblFile' ∈ tblFiles, tblFile' ≠ tblFile →
    ClearOf fs (options tblFile').toProverOptions (options tblFile).toProverOptions

/-- What the pair looks at is as it was. -/
structure View (s : PairScript) (fs : FileSystem) (options : Path → AllOptions) (tblFile : Path)
    (x : FileSystem) : Prop where
  steady : Steady fs x
  sees : SeesSame (options tblFile).toProverOptions fs x
  circuit : x.lookup (circuitFile tblFile) = fs.lookup (circuitFile tblFile)
  config : ∀ path ∈ configPath s.programOptions (s.lineOf fs tblFile),
    x.lookup path = fs.lookup path

theorem View.refl (s : PairScript) (fs : FileSystem) (options : Path → AllOptions)
    (tblFile : Path) : View s fs options tblFile fs :=
  ⟨.refl fs, .refl _ fs, rfl, fun _ _ => rfl⟩

variable {x : FileSystem}

theorem Orderly.proofDir_eq (h : s.Orderly fs tblFiles options) (htbl : tblFile ∈ tblFiles)
    (x : FileSystem) : s.proofDir x tblFile = s.proofDir fs tblFile := by
  rw [proofDir, proofDir, unquoted_plain (h.plainTables tblFile htbl),
    unquoted_plain (h.plainTables tblFile htbl)]

theorem Orderly.commandLine_eq (h : s.Orderly fs tblFiles options) (x : FileSystem)
    (proofDir : Path) : s.commandLine x tblFile proofDir = s.commandLine fs tblFile proofDir := by
  have hwords : (s.argsToForward.flatMap fun arg => s.unquoted x arg.toList) =
      s.argsToForward.flatMap fun arg => s.unquoted fs arg.toList :=
    List.flatMap_congr fun arg harg => by
      rw [unquoted_plain (h.plainArgs arg harg), unquoted_plain (h.plainArgs arg harg)]
  rw [commandLine, commandLine, hwords]

theorem makeProofForPair_eq (h : s.Orderly fs tblFiles options) (htbl : tblFile ∈ tblFiles)
    (hx : View s fs options tblFile x) :
    s.makeProofForPair tblFile x =
      if isRegularFile x (circuitFile tblFile) then
        (decide (((s.job (options tblFile)).run s.disk x).1 = .exit 0),
          ((s.job (options tblFile)).run s.disk x).2)
      else (false, x) := by
  have hparsed : parseArgs s.programOptions x (s.lineOf fs tblFile) =
      .ok (some (options tblFile)) := by
    rw [parseArgs_congr hx.config, h.parsed tblFile htbl]
  unfold makeProofForPair runProgram main
  dsimp only
  rw [h.proofDir_eq htbl, mkdirP_of_directory ((h.directories tblFile htbl).steady hx.steady),
    h.commandLine_eq]
  unfold lineOf at hparsed
  rw [hparsed]
  simp only [ProcessEnd.returned.injEq]
  rfl

/-- A pair changes nothing but what its run touches. -/
theorem Orderly.frame (h : s.Orderly fs tblFiles options) (htbl : tblFile ∈ tblFiles)
    (hview : View s fs options tblFile x) :
    Steady fs (s.makeProofForPair tblFile x).2 ∧
      ∀ q, ¬ Touches fs (options tblFile).toProverOptions q →
        (s.makeProofForPair tblFile x).2.lookup q = x.lookup q := by
  rw [makeProofForPair_eq h htbl hview]
  split
  · refine ⟨hview.steady.trans (runProver_steady _ _ _ x), fun q hq => lookup_untouched _ _ ?_⟩
    exact fun hafter => hq ((touches_steady hview.steady).mp hafter)
  · exact ⟨hview.steady, fun _ _ => rfl⟩

/-- Another pair leaves a pair its view. -/
theorem Orderly.view (h : s.Orderly fs tblFiles options) (htbl : tblFile ∈ tblFiles)
    (htbl' : tblFile' ∈ tblFiles) (hne : tblFile' ≠ tblFile)
    (hview' : View s fs options tblFile' x) (hview : View s fs options tblFile x) :
    View s fs options tblFile (s.makeProofForPair tblFile' x).2 := by
  obtain ⟨hsteady, hframe⟩ := h.frame htbl' hview'
  refine ⟨hsteady, hview.sees.trans ?_, ?_, fun path hpath => ?_⟩
  · rw [makeProofForPair_eq h htbl' hview']
    split
    · exact ((h.clear tblFile htbl tblFile' htbl' hne).steady hview.steady).seesSame _ s.disk
    · exact .refl _ x
  · rw [hframe _ (h.circuits tblFile htbl tblFile' htbl' hne)]
    exact hview.circuit
  · rw [hframe _ (h.configs tblFile htbl tblFile' htbl' hne path hpath)]
    exact hview.config path hpath

/-- With the same view, a pair answers as it does at once, and leaves a path that is still as it
was as it would at once. -/
theorem Orderly.as_alone (h : s.Orderly fs tblFiles options) (htbl : tblFile ∈ tblFiles)
    (hview : View s fs options tblFile x) :
    (s.makeProofForPair tblFile x).1 = (s.makeProofForPair tblFile fs).1 ∧
      ∀ q, x.lookup q = fs.lookup q →
        (s.makeProofForPair tblFile x).2.lookup q = (s.makeProofForPair tblFile fs).2.lookup q := by
  rw [makeProofForPair_eq h htbl hview, makeProofForPair_eq h htbl (.refl s fs options tblFile),
    isRegularFile_congr hview.circuit]
  split
  · obtain ⟨hanswer, hfiles⟩ := runProver_footprint (s.job (options tblFile)).library s.disk
      (options tblFile).toProverOptions fs x hview.sees
    exact ⟨congrArg (fun r => decide (r = Outcome.exit 0)) hanswer,
      fun q hq => hfiles.lookup_eq hq⟩
  · exact ⟨rfl, fun q hq => hq⟩

/-- The first pair leaves the later ones their views. -/
theorem Orderly.views_next (h : s.Orderly fs tblFiles options) {rest : List Path}
    (hrest : tblFile :: rest ⊆ tblFiles) (hnot : tblFile ∉ rest)
    (hviews : ∀ other ∈ tblFile :: rest, View s fs options other x) :
    ∀ other ∈ rest, View s fs options other (s.makeProofForPair tblFile x).2 := by
  intro other hother
  have hne : tblFile ≠ other := fun he => hnot (he ▸ hother)
  obtain ⟨htbl, hsub⟩ := List.cons_subset.mp hrest
  exact h.view (hsub hother) htbl hne (hviews tblFile List.mem_cons_self)
    (hviews other (List.mem_cons_of_mem _ hother))

/-- The exit code is that of the pairs before, unless one of these fails. -/
theorem Orderly.exitCode_iff (h : s.Orderly fs tblFiles options) {rest : List Path}
    (hrest : rest ⊆ tblFiles) (hnodup : rest.Nodup) {code : Nat}
    (hviews : ∀ tblFile ∈ rest, View s fs options tblFile x) :
    (s.processDirectory rest (code, x)).1 = 0 ↔
      code = 0 ∧ ∀ tblFile ∈ rest, (s.makeProofForPair tblFile fs).1 = true := by
  induction rest generalizing code x with
  | nil => simp [processDirectory]
  | cons tblFile rest ih =>
    obtain ⟨htbl, hsub⟩ := List.cons_subset.mp hrest
    obtain ⟨hnot, hnodup⟩ := List.nodup_cons.mp hnodup
    have hanswer := (h.as_alone htbl (hviews tblFile List.mem_cons_self)).1
    have hnext := h.views_next hrest hnot hviews
    rw [List.forall_mem_cons, ← hanswer, processDirectory]
    rcases hpair : s.makeProofForPair tblFile x with ⟨ok, x'⟩
    rw [hpair] at hnext
    cases ok with
    | true =>
      rw [ih hsub hnodup hnext]
      simp
    | false =>
      rw [ih hsub hnodup hnext]
      simp

theorem Orderly.loop_frame (h : s.Orderly fs tblFiles options) {rest : List Path}
    (hrest : rest ⊆ tblFiles) (hnodup : rest.Nodup) {code : Nat}
    (hviews : ∀ tblFile ∈ rest, View s fs options tblFile x)
    (hq : ∀ tblFile ∈ rest, ¬ Touches fs (options tblFile).toProverOptions q) :
    (s.processDirectory rest (code, x)).2.lookup q = x.lookup q := by
  induction rest generalizing code x with
  | nil => rfl
  | cons tblFile rest ih =>
    obtain ⟨htbl, hsub⟩ := List.cons_subset.mp hrest
    obtain ⟨hnot, hnodup⟩ := List.nodup_cons.mp hnodup
    obtain ⟨hfirst, hlater⟩ := List.forall_mem_cons.mp hq
    have hnext := h.views_next hrest hnot hviews
    have hkept := (h.frame htbl (hviews tblFile List.mem_cons_self)).2 q hfirst
    rw [processDirectory]
    rcases hpair : s.makeProofForPair tblFile x with ⟨ok, x'⟩
    rw [hpair] at hnext hkept
    cases ok with
    | true => rw [ih hsub hnodup hnext hlater, hkept]
    | false => rw [ih hsub hnodup hnext hlater, hkept]

/-- A path that only one pair touches is left as that pair leaves it alone. -/
theorem Orderly.loop_lookup (h : s.Orderly fs tblFiles options) {rest : List Path}
    (hrest : rest ⊆ tblFiles) (hnodup : rest.Nodup) {code : Nat}
    (hviews : ∀ tblFile ∈ rest, View s fs options tblFile x) (htbl : tblFile ∈ rest)
    (hq : ∀ tblFile' ∈ rest, tblFile' ≠ tblFile →
      ¬ Touches fs (options tblFile').toProverOptions q) (hx : x.lookup q = fs.lookup q) :
    (s.processDirectory rest (code, x)).2.lookup q =
      (s.makeProofForPair tblFile fs).2.lookup q := by
  induction rest generalizing code x with
  | nil => simp at htbl
  | cons first rest ih =>
    obtain ⟨hfirst, hsub⟩ := List.cons_subset.mp hrest
    obtain ⟨hnot, hrestNodup⟩ := List.nodup_cons.mp hnodup
    have hview := hviews first List.mem_cons_self
    have hframe := (h.frame hfirst hview).2
    have hnext := h.views_next hrest hnot hviews
    by_cases he : first = tblFile
    · -- the others, which come later, leave the path alone
      subst first
      have halone := (h.as_alone hfirst hview).2 q hx
      have hlater : ∀ other ∈ rest, ¬ Touches fs (options other).toProverOptions q := by
        intro other hother
        exact hq other (List.mem_cons_of_mem _ hother) fun he => hnot (he ▸ hother)
      rw [← halone, processDirectory]
      rcases hpair : s.makeProofForPair tblFile x with ⟨ok, x'⟩
      rw [hpair] at hnext
      cases ok with
      | true => exact h.loop_frame hsub hrestNodup hnext hlater
      | false => exact h.loop_frame hsub hrestNodup hnext hlater
    · have hmem : tblFile ∈ rest := (List.mem_cons.mp htbl).resolve_left (Ne.symm he)
      have hkept := (hframe q (hq first List.mem_cons_self he)).trans hx
      have hothers : ∀ tblFile' ∈ rest, tblFile' ≠ tblFile →
          ¬ Touches fs (options tblFile').toProverOptions q :=
        fun other hother => hq other (List.mem_cons_of_mem _ hother)
      rw [processDirectory]
      rcases hpair : s.makeProofForPair first x with ⟨ok, x'⟩
      rw [hpair] at hnext hkept
      cases ok with
      | true => exact ih hsub hrestNodup hnext hmem hothers hkept
      | false => exact ih hsub hrestNodup hnext hmem hothers hkept

/-- The script exits with zero if and only if every pair succeeds alone, and what only one pair
touches, such as its proof, is as that pair alone leaves it. The pairs may overwrite each other's
other outputs. -/
theorem batch_as_alone (s : PairScript) (fs : FileSystem) (tblFiles : List Path)
    (options : Path → AllOptions) (hnodup : tblFiles.Nodup)
    (h : s.Orderly fs tblFiles options) :
    ((s.processDirectory tblFiles (0, fs)).1 = 0 ↔
      ∀ tblFile ∈ tblFiles, (s.makeProofForPair tblFile fs).1 = true) ∧
      ∀ tblFile ∈ tblFiles, ∀ q,
        (∀ tblFile' ∈ tblFiles, tblFile' ≠ tblFile →
          ¬ Touches fs (options tblFile').toProverOptions q) →
        (s.processDirectory tblFiles (0, fs)).2.lookup q =
          (s.makeProofForPair tblFile fs).2.lookup q := by
  have hviews : ∀ tblFile ∈ tblFiles, View s fs options tblFile fs :=
    fun tblFile _ => .refl s fs options tblFile
  constructor
  · rw [h.exitCode_iff (List.Subset.refl _) hnodup hviews]
    simp
  · intro tblFile htbl q hq
    exact h.loop_lookup (List.Subset.refl _) hnodup hviews htbl hq rfl

end PairScript

/-- The options of the command line that the script puts together. -/
def pairCommandLine : List String → Except Exception (Layer CommandOption.Value)
  | [] => .ok fun _ => none
  | "-t" :: path :: args => (pairCommandLine args).map fun layer =>
    Function.update layer (.config .assignmentTable) (some path.toList)
  | "--circuit" :: path :: args => (pairCommandLine args).map fun layer =>
    Function.update layer (.config .circuit) (some path.toList)
  | "--proof" :: path :: args => (pairCommandLine args).map fun layer =>
    Function.update layer (.config .proof) (some path.toList)
  | "--config" :: path :: args => (pairCommandLine args).map fun layer =>
    Function.update layer (.generic .config) (some path.toList)
  | arg :: _ => .error ⟨"unrecognised option '" ++ arg ++ "'"⟩

/-- Two directories `a` and `b`, each with a table and its circuit, and a configuration file. -/
def pairFiles : FileSystem :=
  let root : FileSystem := { FileSystem.empty with
    node := fun l => if l ∈ [[], [['a']], [['b']]] then some (.directory true) else none }
  let configured := root.store [['f']] ("circuit=c\n".toList.map fun c => UInt8.ofNat c.toNat)
  ((((configured.store [['a'], "assignment.tbl".toList] [2, 3]).store
    [['a'], "circuit.crct".toList] [5]).store
    [['b'], "assignment.tbl".toList] [4, 7]).store [['b'], "circuit.crct".toList] [6])

def pairTables : List Path := ["./a/assignment.tbl".toList, "./b/assignment.tbl".toList]

/-- One argument to forward holds two words, another none. -/
def pairScript : PairScript where
  programOptions := ⟨pairCommandLine, smallConfigFile, .plain⟩
  libraries := smallLibraries
  disk := .reliable
  outputDir := ['.']
  relativeTblPath p := p.drop 2
  dirname operands := (operands.headD []).takeWhile (· ≠ '/')
  argsToForward := ["--config f", ""]
  expandPattern _ word := [word]
  expand_plain _ _ _ := rfl

def pairOptions (tblFile : Path) : AllOptions where
  circuitFilePath := circuitFile tblFile
  assignmentTableFilePath := tblFile
  proofFilePath := pairScript.proofDir pairFiles tblFile ++ "/proof.bin".toList

theorem pairScript_orderly : pairScript.Orderly pairFiles pairTables pairOptions where
  plainArgs := by decide
  plainTables := by decide
  parsed := by
    intro tblFile htbl
    rcases List.mem_pair.mp htbl with rfl | rfl
    · rfl
    · rfl
  directories := by
    unfold IsDirectoryPath
    decide +kernel
  configs := by
    have hconfig : ∀ tblFile ∈ pairTables, configPath pairScript.programOptions
        (pairScript.lineOf pairFiles tblFile) = some ['f'] := by decide +kernel
    have hclear : ∀ tblFile ∈ pairTables,
        ¬ Touches pairFiles (pairOptions tblFile).toProverOptions ['f'] := by decide +kernel
    intro tblFile htbl tblFile' htbl' _ path hpath
    rw [hconfig tblFile htbl] at hpath
    rw [← Option.some.inj hpath]
    exact hclear tblFile' htbl'
  circuits := by decide +kernel
  clear := by decide +kernel

/-- Both pairs succeed, so the script does, and both proofs are there as made alone. -/
theorem batch_as_alone_two :
    (pairScript.processDirectory pairTables (0, pairFiles)).1 = 0 ∧
      ∀ tblFile ∈ pairTables,
        (pairScript.processDirectory pairTables (0, pairFiles)).2.lookup
            (pairOptions tblFile).proofFilePath =
          (pairScript.makeProofForPair tblFile pairFiles).2.lookup
            (pairOptions tblFile).proofFilePath := by
  have hproofs : ∀ tblFile ∈ pairTables, ∀ tblFile' ∈ pairTables, tblFile' ≠ tblFile →
      ¬ Touches pairFiles (pairOptions tblFile').toProverOptions
        (pairOptions tblFile).proofFilePath := by
    decide +kernel
  obtain ⟨hcode, hlookup⟩ := PairScript.batch_as_alone pairScript pairFiles pairTables pairOptions
    (by decide) pairScript_orderly
  refine ⟨hcode.mpr (by decide +kernel), fun tblFile htbl => ?_⟩
  exact hlookup tblFile htbl _ (hproofs tblFile htbl)

end ProofProducer
