import ProofProducer.FileOperations
import ProofProducer.Shared.Resolution

/-!
# What `absolute` and `parent_path` make of a path

In terms of components: the absolute path has those of the current directory in front, and the
parent lacks the name behind the last slash.
-/

namespace ProofProducer

open Effects Files Files.FileSystem

set_option autoImplicit false

variable {fs : FileSystem} {p q : Path}

theorem rootName_of_relative (h : p.head? ≠ some '/') : rootName p = [] := by
  unfold rootName
  split
  · simp at h
  · simp at h
  · rfl

theorem rootName_of_one_slash (h : q.head? ≠ some '/') : rootName ('/' :: q) = [] := by
  unfold rootName
  split
  · rename_i heq
    simp_all
  · rename_i heq
    simp_all
  · rfl

theorem head_dropWhile_slash {s rest : List Char} {c : Char}
    (h : s.dropWhile (· ≠ '/') = c :: rest) : c = '/' := by
  have hhead := List.head?_dropWhile_not (fun c => decide (c ≠ '/')) s
  rw [h] at hhead
  simpa using hhead

/-- Behind a root name that is not all of the path comes a slash. -/
theorem rootName_split (h : p.head? = some '/') (hroot : rootName p ≠ p) :
    ∃ rest, p = rootName p ++ '/' :: rest := by
  unfold rootName at hroot ⊢
  split
  · simp at hroot
  · rename_i c q
    split
    · exact ⟨_, rfl⟩
    · rename_i hc
      simp only [hc, if_false] at hroot
      cases hdrop : (c :: q).dropWhile (· ≠ '/') with
      | nil =>
        have htake := List.takeWhile_append_dropWhile (p := fun c => decide (c ≠ '/')) (l := c :: q)
        rw [hdrop, List.append_nil] at htake
        rw [htake] at hroot
        exact (hroot rfl).elim
      | cons s rest =>
        have htake := List.takeWhile_append_dropWhile (p := fun c => decide (c ≠ '/')) (l := c :: q)
        rw [hdrop, head_dropWhile_slash hdrop] at htake
        refine ⟨rest, ?_⟩
        rw [List.cons_append, List.cons_append, htake]
  · cases p with
    | nil => simp at h
    | cons c q =>
      have hc : c = '/' := by simpa using h
      exact ⟨q, by rw [hc]; rfl⟩

/-- A bare root name is the root name of every path it begins. -/
theorem rootName_append_slash (hroot : rootName p = p) (hne : p ≠ []) (hlong : p ≠ ['/', '/'])
    (q : Path) : rootName (p ++ '/' :: q) = p := by
  unfold rootName at hroot
  split at hroot
  · exact (hlong rfl).elim
  · rename_i c r
    split at hroot
    · simp at hroot
    · rename_i hc
      have htake : (c :: r).takeWhile (· ≠ '/') = c :: r := by simpa using hroot
      have hall := List.takeWhile_eq_self_iff.mp htake
      have happend : (c :: r ++ '/' :: q).takeWhile (· ≠ '/') = c :: r := by
        rw [List.takeWhile_append_of_pos hall]
        simp
      simp only [List.cons_append] at happend ⊢
      simp only [rootName, hc, if_false, happend]
  · exact (hne hroot.symm).elim

theorem rootName_head (p : Path) : rootName p = [] ∨ (rootName p).head? = some '/' := by
  unfold rootName
  split
  · exact Or.inr rfl
  · split
    · exact Or.inl rfl
    · exact Or.inr rfl
  · exact Or.inl rfl

/-- The parent of a path with a root directory has all components but the name behind the last
slash. It is empty for a path of slashes only, and begins with a slash otherwise. -/
theorem parentPath_spec {rest : Path} (h : p = rootName p ++ '/' :: rest) :
    ∃ name : List Char, '/' ∉ name ∧ (p.getLast? = some '/' ↔ name = []) ∧
      components p = components (parentPath p) ++ (if name = [] then [] else [name]) ∧
      (parentPath p = [] → components p = []) ∧
      (parentPath p ≠ [] → (parentPath p).head? = some '/') := by
  have hstart := rootName_head p
  generalize hroot : rootName p = root at h hstart
  obtain ⟨body, name, hrest, hname⟩ := exists_last_slash (p := '/' :: rest) List.mem_cons_self
  have hp : p = (root ++ body) ++ '/' :: name := by rw [h, hrest, List.append_assoc]
  have hdrop : p.drop root.length = body ++ '/' :: name := by
    rw [h, hrest, List.drop_left]
  have hbody : body = [] ∨ body.head? = some '/' := by
    cases body with
    | nil => exact Or.inl rfl
    | cons c body =>
      have hc : '/' = c := (List.cons.inj hrest).1
      exact Or.inr (by rw [hc]; rfl)
  generalize htrail : (body ++ ['/']).rdropWhile (· = '/') = trail
  have htrailComponents : components trail = components body := by
    rw [← htrail, components_rdropWhile_slash, components_concat_slash]
  have htrailHead : trail = [] ∨ trail.head? = some '/' := by
    have hprefix : trail <+: body ++ ['/'] := htrail ▸ List.rdropWhile_prefix _ _
    cases trail with
    | nil => exact Or.inl rfl
    | cons c trail =>
      obtain ⟨tail, htail⟩ := hprefix
      have hhead : (body ++ ['/']).head? = some '/' := by
        rcases hbody with rfl | hb
        · rfl
        · rw [List.head?_append, hb]
          rfl
      rw [← htail] at hhead
      exact Or.inr hhead
  have hparent : parentPath p =
      if trail ≠ [] then root ++ trail else if name ≠ [] then root ++ ['/'] else root := by
    unfold parentPath
    simp only [hroot, hdrop, rtakeWhile_last_slash body hname, rdropWhile_last_slash body hname,
      htrail]
    simp
  have hcomponents : components p =
      components root ++ components body ++ (if name = [] then [] else [name]) := by
    have hmeet : components (root ++ body) = components root ++ components body :=
      components_append_of_meet (Or.inr hbody)
    rw [hp, components_last_slash _ hname, hmeet]
  refine ⟨name, hname, ?_, ?_, ?_, ?_⟩
  · rw [hp]
    exact getLast?_last_slash _ hname
  · rw [hcomponents, hparent, ← htrailComponents]
    congr 1
    by_cases hnil : trail = []
    · by_cases hempty : name = []
      · simp [hnil, hempty]
      · simp [hnil, hempty]
    · rw [if_pos hnil, components_append_of_meet (Or.inr htrailHead)]
  · intro he
    rw [hparent] at he
    by_cases hnil : trail = []
    · by_cases hempty : name = []
      · have hrootNil : root = [] := by simpa [hnil, hempty] using he
        rw [hcomponents, ← htrailComponents, hnil, hrootNil, hempty]
        simp
      · simp [hnil, hempty] at he
    · simp [hnil] at he
  · intro hne
    rw [hparent] at hne ⊢
    by_cases hnil : trail = []
    · by_cases hempty : name = []
      · simp only [hnil, hempty] at hne ⊢
        exact hstart.resolve_left (by simpa using hne)
      · rw [if_neg (not_not.mpr hnil), if_pos hempty, List.head?_append]
        rcases hstart with rfl | hs
        · rfl
        · rw [hs]
          rfl
    · rw [if_pos hnil, List.head?_append]
      rcases hstart with rfl | hs
      · exact htrailHead.resolve_left hnil
      · rw [hs]
        rfl

theorem components_currentPath (hwf : fs.WellFormed) :
    components (currentPath fs) = fs.currentDirectory := by
  have hproper : ∀ name ∈ fs.currentDirectory, Proper name :=
    fun name hm => hwf.proper_of_mem hwf.current hm
  unfold currentPath
  split
  · rename_i hroot
    rw [hroot]
    simp
  · generalize fs.currentDirectory = names at hproper
    induction names with
    | nil => simp
    | cons name names ih =>
      obtain ⟨hname, hnames⟩ := List.forall_mem_cons.mp hproper
      have hmeet : components (name ++ names.flatMap fun name => '/' :: name) =
          components name ++ components (names.flatMap fun name => '/' :: name) := by
        apply components_append_of_meet
        cases names with
        | nil => exact Or.inr (Or.inl rfl)
        | cons next names => exact Or.inr (Or.inr rfl)
      rw [List.flatMap_cons, List.cons_append, components_slash, hmeet,
        components_of_name hname.nonempty hname.noSlash, ih hnames]
      rfl

/-- The current directory as a string: a slash, and no slash behind it or at its end. -/
theorem currentPath_shape (hwf : fs.WellFormed) :
    fs.currentDirectory = [] ∧ currentPath fs = ['/'] ∨
      fs.currentDirectory ≠ [] ∧ (currentPath fs).getLast? ≠ some '/' ∧
        ∃ c rest, c ≠ '/' ∧ currentPath fs = '/' :: c :: rest := by
  have hproper : ∀ name ∈ fs.currentDirectory, Proper name :=
    fun name hm => hwf.proper_of_mem hwf.current hm
  unfold currentPath
  split
  · rename_i hroot
    exact Or.inl ⟨hroot, rfl⟩
  · rename_i hne
    refine Or.inr ⟨hne, ?_, ?_⟩
    · obtain ⟨names, name, hlast⟩ := (List.eq_nil_or_concat _).resolve_left hne
      rw [List.concat_eq_append] at hlast
      have hname := hproper name (by simp [hlast])
      rw [hlast, List.flatMap_append, List.flatMap_singleton]
      intro hslash
      exact hname.nonempty ((getLast?_last_slash _ hname.noSlash).mp hslash)
    · cases hdir : fs.currentDirectory with
      | nil => exact (hne hdir).elim
      | cons name names =>
        have hname := hproper name (by simp [hdir])
        cases hn : name with
        | nil => exact (hname.nonempty hn).elim
        | cons c name' =>
          refine ⟨c, name' ++ names.flatMap fun name => '/' :: name, ?_, rfl⟩
          intro hc
          exact hname.noSlash (by rw [hn, hc]; exact List.mem_cons_self)

/-- An absolute path has a root directory, and behind the current directory, if that comes first,
the components of the path it was made from. -/
theorem absolute_spec (hwf : fs.WellFormed) (hne : p ≠ []) (hroot : rootName p ≠ p) :
    (∃ rest, absolute fs p = rootName (absolute fs p) ++ '/' :: rest) ∧
      components (absolute fs p) = fs.origin p ++ components p ∧
      ((absolute fs p).getLast? = some '/' ↔ p.getLast? = some '/') := by
  by_cases hslash : p.head? = some '/'
  · obtain ⟨rest, hp⟩ := rootName_split hslash hroot
    have hbehind : ∀ root, p = root ++ '/' :: rest → (p.drop root.length).head? = some '/' := by
      intro root h
      rw [h, List.drop_left]
      rfl
    have hdrop := hbehind _ hp
    have habs : absolute fs p = p := by
      unfold absolute
      simp only [hne, if_false, hdrop, if_true]
    rw [habs]
    refine ⟨⟨rest, hp⟩, ?_, Iff.rfl⟩
    rw [origin, if_pos hslash, List.nil_append]
  · have hrel := rootName_of_relative hslash
    have habs : absolute fs p = appendPath (currentPath fs) p := by
      unfold absolute
      simp only [hne, if_false, hrel, List.length_nil, List.drop_zero, hslash, if_true]
    rw [habs, origin, if_neg hslash]
    rcases currentPath_shape hwf with ⟨hdir, hcur⟩ | ⟨_, hlast, c, rest, hc, hcur⟩
    · have hjoin : appendPath (currentPath fs) p = '/' :: p := by
        simp [appendPath, hne, hcur]
      rw [hjoin, rootName_of_one_slash hslash, hdir]
      refine ⟨⟨p, rfl⟩, by simp, ?_⟩
      rw [← List.nil_append ('/' :: p), getLast?_append_slash [] hne]
    · have hjoin : appendPath (currentPath fs) p = currentPath fs ++ '/' :: p := by
        have hcurNe : currentPath fs ≠ [] := by simp [hcur]
        simp [appendPath, hne, hcurNe, hslash, hlast]
      rw [hjoin, components_append, components_currentPath hwf]
      refine ⟨⟨c :: rest ++ '/' :: p, ?_⟩, rfl, ?_⟩
      · rw [hcur, List.cons_append, rootName_of_one_slash (by simpa using hc)]
        rfl
      · rw [getLast?_append_slash _ hne]

/-- The parent of the absolute path lacks the last name, or nothing but the trailing slash. -/
theorem parent_components (hwf : fs.WellFormed) (hne : p ≠ []) (hroot : rootName p ≠ p) :
    if p.getLast? = some '/' then
      components (parentPath (absolute fs p)) = fs.origin p ++ components p
    else
      parentPath (absolute fs p) ≠ [] ∧
        components (parentPath (absolute fs p)) = fs.origin p ++ (components p).dropLast := by
  obtain ⟨⟨rest, habs⟩, hcomponents, hlast⟩ := absolute_spec hwf hne hroot
  obtain ⟨name, _, hend, hparent, hempty, _⟩ := parentPath_spec habs
  rw [hcomponents] at hparent hempty
  split
  · rename_i hslash
    rw [if_pos (hend.mp (hlast.mpr hslash)), List.append_nil] at hparent
    exact hparent.symm
  · rename_i hslash
    have hname : name ≠ [] := fun h => hslash (hlast.mp (hend.mpr h))
    obtain ⟨xs, last, hxs⟩ := exists_last_component hne hslash
    constructor
    · intro h
      have hnil := hempty h
      simp [hxs] at hnil
    · rw [if_neg hname, hxs, ← List.append_assoc] at hparent
      rw [hxs, List.dropLast_concat]
      exact (List.append_inj' hparent rfl).1.symm

/-- The parent that is computed for a bare root name lies under that name. -/
theorem bare_root_parent (fs : FileSystem) (hne : p ≠ []) (hroot : rootName p = p)
    (hlong : p ≠ ['/', '/']) :
    (∃ rest, absolute fs p = rootName (absolute fs p) ++ '/' :: rest) ∧
      ∃ ws, components (parentPath (absolute fs p)) = components p ++ ws := by
  obtain ⟨z, habs⟩ : ∃ z, absolute fs p = p ++ '/' :: z := by
    refine ⟨(currentPath fs).dropWhile (· = '/'), ?_⟩
    have hnone : (p.drop p.length).head? ≠ some '/' := by simp
    unfold absolute
    simp only [hroot, hne, hnone, if_false]
    unfold appendPath
    by_cases hz : (currentPath fs).dropWhile (· = '/') = []
    · simp [hz]
    · simp [hz]
  have hrootAbs : rootName (absolute fs p) = p := by
    rw [habs]
    exact rootName_append_slash hroot hne hlong z
  have hsplit : absolute fs p = rootName (absolute fs p) ++ '/' :: z := by rw [hrootAbs, habs]
  obtain ⟨name, _, hend, hparent, _, _⟩ := parentPath_spec hsplit
  have hcomponents : components (absolute fs p) = components p ++ components z := by
    rw [habs, components_append]
  rw [hcomponents] at hparent
  refine ⟨⟨z, hsplit⟩, ?_⟩
  by_cases hname : name = []
  · rw [hname, if_pos rfl, List.append_nil] at hparent
    exact ⟨_, hparent.symm⟩
  · have hz : z ≠ [] := by
      intro h
      apply hname
      apply hend.mp
      rw [habs, h, List.getLast?_concat]
    have hlast : z.getLast? ≠ some '/' := by
      intro h
      apply hname
      apply hend.mp
      rw [habs, getLast?_append_slash p hz, h]
    obtain ⟨xs, last, hc⟩ := exists_last_component hz hlast
    rw [if_neg hname, hc, ← List.append_assoc] at hparent
    exact ⟨xs, (List.append_inj' hparent rfl).1.symm⟩

end ProofProducer
