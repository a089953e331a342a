import ProofProducer.ProbeEffect
import ProofProducer.ParentPaths

/-!
# Whether the write probe predicts the write

The parent directory that the probe computes from the absolute path is the one that the target
would be created in, and the probe's file is created there exactly if the target could be. What
is left are the targets for which one of the two is not so.
-/

namespace ProofProducer

open Effects Files Files.FileSystem

set_option autoImplicit false

variable {fs : FileSystem} {p : Path} {l : Location}

theorem tempFileName_proper : Proper tempFileName :=
  ⟨by decide, by decide, by decide, by decide⟩

/-- A name is put behind a path with one slash between them. -/
theorem appendPath_name (hp : p.head? = some '/') {name : List Char} (hname : Proper name) :
    ∃ body, appendPath p name = body ++ '/' :: name ∧ components body = components p ∧
      (appendPath p name).head? = some '/' := by
  have hne : p ≠ [] := by
    intro h
    simp [h] at hp
  have hhead : name.head? ≠ some '/' := by
    intro h
    exact hname.noSlash (List.mem_of_mem_head? h)
  by_cases hlast : p.getLast? = some '/'
  · obtain ⟨body, last, rfl⟩ := (List.eq_nil_or_concat p).resolve_left hne
    have hslash : last = '/' := by simpa using hlast
    have hjoin : appendPath (body.concat last) name = body.concat last ++ name := by
      simp only [appendPath, hname.nonempty, if_false, hlast, decide_true, Bool.or_true, if_true]
    rw [hjoin, hslash, List.concat_eq_append, List.append_assoc]
    refine ⟨body, rfl, (components_concat_slash body).symm, ?_⟩
    rw [hslash, List.concat_eq_append] at hp
    rw [← List.append_assoc, List.head?_append, hp]
    rfl
  · have hjoin : appendPath p name = p ++ '/' :: name := by
      simp [appendPath, hname.nonempty, hne, hhead, hlast]
    rw [hjoin]
    refine ⟨p, rfl, rfl, ?_⟩
    rw [List.head?_append, hp]
    rfl

theorem fileLocation_child (hp : p.head? = some '/') {name : List Char} (hname : Proper name) :
    fs.fileLocation (appendPath p name) =
      (fs.descend [] (components p)).map (· ++ [name]) := by
  obtain ⟨body, hjoin, hbody, hhead⟩ := appendPath_name hp hname
  have hne : appendPath p name ≠ [] := by
    intro h
    simp [h] at hhead
  have hcomponents : components (appendPath p name) = components p ++ [name] := by
    rw [hjoin, components_last_slash _ hname.noSlash, hbody, if_neg hname.nonempty]
  have hlast : (appendPath p name).getLast? ≠ some '/' := by
    rw [hjoin]
    exact fun h => hname.nonempty ((getLast?_last_slash _ hname.noSlash).mp h)
  rw [fileLocation_of_components hne hcomponents hname.notDot hname.notDotDot hlast, origin,
    if_pos hhead]

/-- The probe opens its file where the walk along the computed parent ends. -/
theorem probes_iff {rest : Path} (hvalid : isValidPath p = true)
    (hmissing : fileExists fs p = false)
    (habs : absolute fs p = rootName (absolute fs p) ++ '/' :: rest) :
    Probes fs p l ↔ parentPath (absolute fs p) ≠ [] ∧
      ∃ dir, fs.descend [] (components (parentPath (absolute fs p))) = some dir ∧
        l = dir ++ [tempFileName] ∧ fs.accepts l = true := by
  obtain ⟨_, _, _, _, _, hhead⟩ := parentPath_spec habs
  constructor
  · intro h
    obtain ⟨hl, ha⟩ := openForWriting_eq_some_iff.mp h.opens
    rw [probeFile, fileLocation_child (hhead h.parent) tempFileName_proper,
      Option.map_eq_some_iff] at hl
    obtain ⟨dir, hdir, hl⟩ := hl
    exact ⟨h.parent, dir, hdir, hl.symm, ha⟩
  · intro h
    obtain ⟨hparent, dir, hdir, hl, ha⟩ := h
    have horigin : fs.origin (parentPath (absolute fs p)) = [] := by
      rw [origin, if_pos (hhead hparent)]
    have hexists : fileExists fs (parentPath (absolute fs p)) = true := by
      obtain ⟨w, hnode⟩ := node_of_isDirectory (isDirectory_of_descend hdir)
      rw [← horigin] at hdir
      rw [fileExists, lookup_of_descend hparent hdir, hnode]
      rfl
    refine ⟨hvalid, hmissing, hparent, hexists, openForWriting_eq_some_iff.mpr ⟨?_, ha⟩⟩
    rw [probeFile, fileLocation_child (hhead hparent) tempFileName_proper, hdir, hl]
    rfl

theorem probe_yes_iff (hmissing : fileExists fs p = false) :
    ((canWriteToFile p).run fs).1 = .ok true ↔
      ∃ l, Probes fs p l ∧ fs.directoryWritable l.dropLast = true := by
  by_cases hprobes : ∃ l, Probes fs p l
  · obtain ⟨l, hl⟩ := hprobes
    rw [canWriteToFile_of_probes hl]
    constructor
    · intro h
      refine ⟨l, hl, ?_⟩
      by_contra hw
      rw [if_neg hw] at h
      simp at h
    · intro h
      obtain ⟨k, hk, hw⟩ := h
      rw [hl.unique hk] at hw
      rw [if_pos hw]
  · have hno : ∀ l, ¬ Probes fs p l := fun l hl => hprobes ⟨l, hl⟩
    rw [canWriteToFile_of_not_probes hno, hmissing]
    refine iff_of_false (by simp) ?_
    intro h
    obtain ⟨l, hl, _⟩ := h
    exact hno l hl

/-- The walk along all of a missing path does not succeed. -/
theorem descend_of_missing (hmissing : fileExists fs p = false) (hne : p ≠ []) :
    fs.descend (fs.origin p) (components p) = none := by
  cases hdir : fs.descend (fs.origin p) (components p) with
  | none => rfl
  | some dir =>
    obtain ⟨w, hnode⟩ := node_of_isDirectory (isDirectory_of_descend hdir)
    rw [fileExists, lookup_of_descend hne hdir, hnode] at hmissing
    simp at hmissing

/-- For a path that is neither empty nor a bare root name the probe says yes exactly if the walk
to the last name succeeds and the temporary file can be created there. -/
theorem probe_yes_iff_walk (hwf : fs.WellFormed) (hvalid : isValidPath p = true)
    (hmissing : fileExists fs p = false) (hne : p ≠ []) (hroot : rootName p ≠ p) :
    ((canWriteToFile p).run fs).1 = .ok true ↔
      p.getLast? ≠ some '/' ∧ ∃ dir,
        fs.descend (fs.origin p) (components p).dropLast = some dir ∧
        fs.accepts (dir ++ [tempFileName]) = true ∧ fs.directoryWritable dir = true := by
  have horigin := hwf.isDirectory_origin p
  obtain ⟨⟨rest, habs⟩, _, _⟩ := absolute_spec hwf hne hroot
  have hparent := parent_components hwf hne hroot
  rw [probe_yes_iff hmissing]
  by_cases hslash : p.getLast? = some '/'
  · rw [if_pos hslash] at hparent
    refine iff_of_false ?_ (fun h => h.1 hslash)
    intro h
    obtain ⟨l, hprobes, _⟩ := h
    obtain ⟨_, dir, hdir, _⟩ := (probes_iff hvalid hmissing habs).mp hprobes
    -- the walk along the whole path would end in an existing directory
    rw [hparent, hwf.descend_under horigin, descend_of_missing hmissing hne] at hdir
    simp at hdir
  · rw [if_neg hslash] at hparent
    obtain ⟨hparentNe, hcomponents⟩ := hparent
    simp only [probes_iff hvalid hmissing habs, hcomponents, hwf.descend_under horigin]
    constructor
    · intro h
      obtain ⟨l, ⟨_, dir, hdir, rfl, ha⟩, hw⟩ := h
      rw [List.dropLast_concat] at hw
      exact ⟨hslash, dir, hdir, ha, hw⟩
    · intro h
      obtain ⟨_, dir, hdir, ha, hw⟩ := h
      refine ⟨dir ++ [tempFileName], ⟨hparentNe, dir, hdir, rfl, ha⟩, ?_⟩
      rw [List.dropLast_concat]
      exact hw

theorem node_of_missing (hmissing : fileExists fs p = false) (hl : fs.fileLocation p = some l) :
    fs.node l = none := by
  rw [← lookup_of_fileLocation hl]
  simpa [fileExists] using hmissing

/-- A missing target can be opened exactly if it is a place in a writable directory. -/
theorem openForWriting_of_missing (hmissing : fileExists fs p = false) :
    fs.openForWriting p = some l ↔
      fs.fileLocation p = some l ∧ fs.directoryWritable l.dropLast = true := by
  rw [openForWriting_eq_some_iff]
  constructor
  · intro h
    obtain ⟨hl, ha⟩ := h
    rw [FileSystem.accepts, node_of_missing hmissing hl] at ha
    exact ⟨hl, ha⟩
  · intro h
    obtain ⟨hl, hw⟩ := h
    refine ⟨hl, ?_⟩
    rw [FileSystem.accepts, node_of_missing hmissing hl]
    exact hw

/-- Something in the way of a file that is to be created. -/
def Occupied (fs : FileSystem) (l : Location) : Prop :=
  (∃ w, fs.node l = some (.directory w)) ∨ ∃ c, fs.node l = some (.file c false)

theorem occupied_iff {name : List Char} (hw : fs.directoryWritable l = true) :
    Occupied fs (l ++ [name]) ↔ fs.accepts (l ++ [name]) = false := by
  unfold Occupied FileSystem.accepts
  rw [List.dropLast_concat, hw]
  cases fs.node (l ++ [name]) with
  | none => simp
  | some n =>
    cases n with
    | file c w => simp
    | directory w => simp

/-- The walk of the probe gives away what the open will do, unless the temporary file is
occupied. -/
theorem walk_of_opens (hmissing : fileExists fs p = false) (ho : fs.openForWriting p = some l) :
    p.getLast? ≠ some '/' ∧ fs.descend (fs.origin p) (components p).dropLast = some l.dropLast := by
  obtain ⟨hl, _⟩ := (openForWriting_of_missing hmissing).mp ho
  obtain ⟨xs, name, dir, hc, _, _, hlast, hdir, rfl⟩ := fileLocation_inv hl
  rw [hc, List.dropLast_concat, List.dropLast_concat]
  exact ⟨hlast, hdir⟩

theorem opens_of_walk (hwf : fs.WellFormed) (hmissing : fileExists fs p = false) (hne : p ≠ [])
    (hlast : p.getLast? ≠ some '/') {dir : Location}
    (hdir : fs.descend (fs.origin p) (components p).dropLast = some dir)
    (hw : fs.directoryWritable dir = true) : ∃ l, fs.openForWriting p = some l := by
  obtain ⟨xs, name, hc⟩ := exists_last_component hne hlast
  rw [hc, List.dropLast_concat] at hdir
  have hname : ¬ (name = ['.'] ∨ name = ['.', '.']) := by
    intro hdots
    have hsome := lookup_of_dots hwf hne hc hdots hdir
    rw [fileExists, hsome] at hmissing
    simp at hmissing
  obtain ⟨hdot, hdotdot⟩ := not_or.mp hname
  have hl : fs.fileLocation p = (fs.descend (fs.origin p) xs).map (· ++ [name]) :=
    fileLocation_of_components hne hc hdot hdotdot hlast
  rw [hdir, Option.map_some] at hl
  refine ⟨dir ++ [name], (openForWriting_of_missing hmissing).mpr ⟨hl, ?_⟩⟩
  rw [List.dropLast_concat]
  exact hw

theorem origin_of_bare_root (hne : p ≠ []) (hroot : rootName p = p) : fs.origin p = [] := by
  have hhead := (rootName_head p).resolve_left (by rw [hroot]; exact hne)
  rw [hroot] at hhead
  rw [origin, if_pos hhead]

theorem bare_root_long (hwf : fs.WellFormed) (hmissing : fileExists fs p = false) :
    p ≠ ['/', '/'] := by
  intro h
  subst h
  have hwalk := descend_of_missing hmissing (List.cons_ne_nil _ _)
  simp [origin, descend, hwf.root] at hwalk

/-- A missing path that is nothing but a root name is taken for one under the current directory,
and no probe is made there. -/
theorem probe_of_bare_root (hwf : fs.WellFormed) (hmissing : fileExists fs p = false)
    (hne : p ≠ []) (hroot : rootName p = p) (l : Location) : ¬ Probes fs p l := by
  intro hprobes
  have hwalk := descend_of_missing hmissing hne
  rw [origin_of_bare_root hne hroot] at hwalk
  obtain ⟨⟨rest, hsplit⟩, ws, hws⟩ := bare_root_parent fs hne hroot
    (bare_root_long hwf hmissing)
  obtain ⟨_, dir, hdir, _⟩ := (probes_iff hprobes.valid hmissing hsplit).mp hprobes
  rw [hws, descend_append, hwalk] at hdir
  simp at hdir

theorem fileExists_empty (fs : FileSystem) : fileExists fs [] = false := rfl

theorem openForWriting_empty (fs : FileSystem) : fs.openForWriting [] = none := rfl

/-- The empty path is taken for the current directory, so the probe is made in its parent. -/
theorem probe_yes_of_empty_iff (hwf : fs.WellFormed) :
    ((canWriteToFile []).run fs).1 = .ok true ↔
      fs.currentDirectory ≠ [] ∧ fs.directoryWritable fs.currentDirectory.dropLast = true ∧
        ¬ Occupied fs (fs.currentDirectory.dropLast ++ [tempFileName]) := by
  have hvalid : isValidPath [] = true := by decide
  have habs : absolute fs [] = currentPath fs := rfl
  rw [probe_yes_iff (fileExists_empty fs)]
  rcases currentPath_shape hwf with ⟨hdir, hcur⟩ | ⟨hdir, hlast, c, rest, hc, hcur⟩
  · refine iff_of_false ?_ (fun h => h.1 hdir)
    intro h
    obtain ⟨l, hprobes, _⟩ := h
    apply hprobes.parent
    rw [habs, hcur]
    rfl
  · have hroot : rootName (currentPath fs) = [] := by
      rw [hcur]
      exact rootName_of_one_slash (by simpa using hc)
    have hsplit : absolute fs [] = rootName (absolute fs []) ++ '/' :: c :: rest := by
      rw [habs, hroot, hcur]
      rfl
    obtain ⟨name, _, hend, hparent, hempty, _⟩ := parentPath_spec hsplit
    rw [habs] at hend hparent hempty
    have hname : name ≠ [] := fun h => hlast (hend.mpr h)
    rw [components_currentPath hwf, if_neg hname] at hparent
    have hcomponents : components (parentPath (currentPath fs)) =
        fs.currentDirectory.dropLast := by
      rw [hparent, List.dropLast_concat]
    have hparentNe : parentPath (currentPath fs) ≠ [] := by
      intro h
      have hnil := hempty h
      rw [components_currentPath hwf] at hnil
      exact hdir hnil
    have hwalk := hwf.descend_self (hwf.isDirectory_dropLast hwf.current)
    simp only [probes_iff hvalid (fileExists_empty fs) hsplit]
    rw [habs, hcomponents, hwalk]
    constructor
    · intro h
      obtain ⟨l, ⟨_, dir, hsome, rfl, ha⟩, hw⟩ := h
      rw [← Option.some.inj hsome] at ha hw
      rw [List.dropLast_concat] at hw
      refine ⟨hdir, hw, ?_⟩
      rw [occupied_iff hw, ha]
      simp
    · intro h
      obtain ⟨_, hw, hfree⟩ := h
      rw [occupied_iff hw] at hfree
      refine ⟨_, ⟨hparentNe, _, rfl, rfl, Bool.of_not_eq_false hfree⟩, ?_⟩
      rw [List.dropLast_concat]
      exact hw

/-- The probe says yes to the empty path for the sake of the directory above the current one.
It says no to a place in a writable directory if the path is a bare root name, or if something in
that directory occupies the name of the temporary file. -/
def Misleads (fs : FileSystem) (p : Path) : Prop :=
  (p = [] ∧ fs.currentDirectory ≠ [] ∧
    fs.directoryWritable fs.currentDirectory.dropLast = true ∧
    ¬ Occupied fs (fs.currentDirectory.dropLast ++ [tempFileName])) ∨
  ∃ l, fs.fileLocation p = some l ∧ fs.node l = none ∧
    fs.directoryWritable l.dropLast = true ∧
    (rootName p = p ∨ Occupied fs (l.dropLast ++ [tempFileName]))

theorem not_misleads_of_exists (h : fileExists fs p = true) : ¬ Misleads fs p := by
  intro hm
  rcases hm with ⟨rfl, _⟩ | ⟨l, hl, hnode, _⟩
  · rw [fileExists_empty] at h
    simp at h
  · rw [fileExists, lookup_of_fileLocation hl, hnode] at h
    simp at h

theorem isValidPath_of_short (h : p.length < pathMax) : isValidPath p = true := by
  have hname : (filename p).length < filenameMax := by
    unfold filename
    have hsuffix := (List.rtakeWhile_suffix (fun c => decide (c ≠ '/')) p).length_le
    simp only [pathMax] at h
    simp only [filenameMax]
    split
    · omega
    · split
      · simp
      · have htake := List.length_take_le 1 p
        omega
  unfold isValidPath
  rw [if_neg (Nat.not_le.mpr h), if_neg (Nat.not_le.mpr hname)]

theorem misleads_empty_iff (fs : FileSystem) : Misleads fs [] ↔
    fs.currentDirectory ≠ [] ∧ fs.directoryWritable fs.currentDirectory.dropLast = true ∧
      ¬ Occupied fs (fs.currentDirectory.dropLast ++ [tempFileName]) := by
  constructor
  · intro h
    rcases h with ⟨_, h⟩ | ⟨l, hl, _⟩
    · exact h
    · exact absurd hl (by simp [fileLocation, locate])
  · exact fun h => Or.inl ⟨rfl, h⟩

theorem misleads_iff_of_missing (hne : p ≠ []) (hmissing : fileExists fs p = false) :
    Misleads fs p ↔ ∃ l, fs.openForWriting p = some l ∧
      (rootName p = p ∨ Occupied fs (l.dropLast ++ [tempFileName])) := by
  simp only [openForWriting_of_missing hmissing]
  constructor
  · intro h
    rcases h with ⟨hnil, _⟩ | ⟨l, hl, _, hw, hcause⟩
    · exact (hne hnil).elim
    · exact ⟨l, ⟨hl, hw⟩, hcause⟩
  · intro h
    obtain ⟨l, ⟨hl, hw⟩, hcause⟩ := h
    exact Or.inr ⟨l, hl, node_of_missing hmissing hl, hw, hcause⟩

/-- The probe says yes exactly when the open that follows it succeeds, unless it misleads. -/
theorem probe_predicts_open_iff (hwf : fs.WellFormed) (hshort : p.length < pathMax) :
    (((canWriteToFile p).run fs).1 = .ok true ↔
      ∃ l, ((openOutputFile p).run ((canWriteToFile p).run fs).2).1 = .ok (some l)) ↔
      ¬ Misleads fs p := by
  have hvalid := isValidPath_of_short hshort
  have hopen : (∃ l, ((openOutputFile p).run ((canWriteToFile p).run fs).2).1 = .ok (some l)) ↔
      ∃ l, fs.openForWriting p = some l := by
    rw [openOutputFile_run, (canWriteToFile_steady p fs).openForWriting_eq]
    cases fs.openForWriting p <;> simp
  rw [hopen]
  cases hexists : fileExists fs p with
  | true =>
    refine iff_of_true ?_ (not_misleads_of_exists hexists)
    rw [canWriteToFile_run]
    simp [hvalid, hexists, Option.isSome_iff_exists]
  | false =>
    by_cases hempty : p = []
    · subst p
      rw [probe_yes_of_empty_iff hwf, misleads_empty_iff, openForWriting_empty]
      simp
    rw [misleads_iff_of_missing hempty hexists]
    by_cases hroot : rootName p = p
    · have hno : ¬ ((canWriteToFile p).run fs).1 = .ok true := by
        rw [probe_yes_iff hexists]
        intro h
        obtain ⟨l, hprobes, _⟩ := h
        exact probe_of_bare_root hwf hexists hempty hroot l hprobes
      simp [hno, hroot]
    rw [probe_yes_iff_walk hwf hvalid hexists hempty hroot]
    cases ho : fs.openForWriting p with
    | none =>
      refine iff_of_true (iff_of_false ?_ (by simp)) (by simp)
      intro h
      obtain ⟨hlast, dir, hdir, _, hw⟩ := h
      obtain ⟨l, hl⟩ := opens_of_walk hwf hexists hempty hlast hdir hw
      rw [ho] at hl
      simp at hl
    | some l =>
      obtain ⟨hlast, hwalk⟩ := walk_of_opens hexists ho
      have hw := ((openForWriting_of_missing hexists).mp ho).2
      have hoccupied : Occupied fs (l.dropLast ++ [tempFileName]) ↔
          fs.accepts (l.dropLast ++ [tempFileName]) = false := occupied_iff hw
      simp [hlast, hwalk, hw, hroot, hoccupied]

theorem empty_wellFormed : FileSystem.empty.WellFormed where
  root := rfl
  parent l name h := by simp [FileSystem.empty] at h
  proper l name h := by simp [FileSystem.empty] at h
  current := rfl

theorem probe_predicts_open_iff_root :
    (((canWriteToFile ['p']).run .empty).1 = .ok true ↔
      ∃ l, ((openOutputFile ['p']).run ((canWriteToFile ['p']).run .empty).2).1 = .ok (some l)) ↔
      ¬ Misleads .empty ['p'] :=
  probe_predicts_open_iff empty_wellFormed (by decide)

/-- A home directory, which is the current one, under a root directory that is writable too. -/
def homeFiles : FileSystem where
  currentDirectory := [['h']]
  node l := if l = [] ∨ l = [['h']] then some (.directory true) else none
  journal := []

theorem homeFiles_wellFormed : homeFiles.WellFormed where
  root := rfl
  parent l name h := by
    have hl : l = [] ∧ name = ['h'] := by
      by_contra hne
      simp [homeFiles, List.append_eq_singleton_iff, hne] at h
    rw [hl.1]
    rfl
  proper l name h := by
    have hl : l = [] ∧ name = ['h'] := by
      by_contra hne
      simp [homeFiles, List.append_eq_singleton_iff, hne] at h
    rw [hl.2]
    exact ⟨by decide, by decide, by decide, by decide⟩
  current := rfl

/-- The empty path passes the probe and cannot be opened. -/
theorem probe_misjudges_empty_path :
    ¬ ∀ (fs : FileSystem) (p : Path), fs.WellFormed → p.length < pathMax →
      (((canWriteToFile p).run fs).1 = .ok true ↔
        ∃ l, ((openOutputFile p).run ((canWriteToFile p).run fs).2).1 = .ok (some l)) := by
  intro h
  have hname : tempFileName ≠ ['h'] := by decide
  have hfree : homeFiles.node (homeFiles.currentDirectory.dropLast ++ [tempFileName]) = none := by
    simp [homeFiles, hname]
  have hyes : ((canWriteToFile []).run homeFiles).1 = .ok true := by
    apply (probe_yes_of_empty_iff homeFiles_wellFormed).mpr
    refine ⟨by decide, rfl, ?_⟩
    simp [Occupied, hfree]
  obtain ⟨l, hl⟩ := (h homeFiles [] homeFiles_wellFormed (by decide)).mp hyes
  exact absurd hl (by simp [openOutputFile_run, openForWriting_empty])

end ProofProducer
