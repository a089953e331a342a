import ProofProducer.Shared.FileSystem
import Mathlib.Data.List.DropRight

/-!
# Path strings and the directories they go through

The components of a string that is put together or cut at slashes, and resolution as a walk
through directories. In a well-formed file system the walk from the root to the current
directory succeeds, so that a relative path and its absolute form lead to the same place.
-/

namespace Files
namespace FileSystem

set_option autoImplicit false

theorem components_append (p q : Path) :
    components (p ++ '/' :: q) = components p ++ components q := by
  unfold components
  rw [List.splitOn_append_cons_self, List.filter_append]

@[simp] theorem components_nil : components [] = [] := by
  simp [components]

@[simp] theorem components_slash (q : Path) : components ('/' :: q) = components q := by
  have h := components_append [] q
  rw [components_nil] at h
  exact h

@[simp] theorem components_concat_slash (p : Path) : components (p ++ ['/']) = components p := by
  rw [components_append, components_nil, List.append_nil]

theorem components_of_name {name : List Char} (hne : name ≠ []) (h : '/' ∉ name) :
    components name = [name] := by
  simp [components, List.splitOn_eq_singleton h, hne]

/-- Strings that meet at a slash do not share a component. -/
theorem components_append_of_meet {p q : Path}
    (h : p = [] ∨ q = [] ∨ q.head? = some '/') :
    components (p ++ q) = components p ++ components q := by
  rcases h with rfl | rfl | hq
  · simp
  · simp
  · cases q with
    | nil => simp at hq
    | cons c q =>
      have hc : c = '/' := by simpa using hq
      rw [hc, components_append, components_slash]

theorem components_rdropWhile_slash (p : Path) :
    components (p.rdropWhile (· = '/')) = components p := by
  induction p using List.reverseRecOn with
  | nil => rfl
  | append_singleton p c ih =>
    by_cases hc : c = '/'
    · subst c
      rw [List.rdropWhile_concat_pos (fun c => decide (c = '/')) p '/' rfl, ih,
        components_concat_slash]
    · rw [List.rdropWhile_concat_neg (fun c => decide (c = '/')) p c (by simpa using hc)]

theorem exists_last_slash {p : Path} (h : '/' ∈ p) :
    ∃ body name, p = body ++ '/' :: name ∧ '/' ∉ name := by
  obtain ⟨name, body, heq, hname⟩ := List.eq_append_cons_of_mem (List.mem_reverse.mpr h)
  refine ⟨body.reverse, name.reverse, ?_, by simpa using hname⟩
  rw [← List.reverse_reverse p, heq]
  simp

theorem rtakeWhile_last_slash (body : Path) {name : List Char} (h : '/' ∉ name) :
    (body ++ '/' :: name).rtakeWhile (· ≠ '/') = name := by
  have hname : ∀ c ∈ name.reverse, (decide (c ≠ '/')) = true := by
    intro c hc
    apply decide_eq_true
    intro he
    exact h (he ▸ List.mem_reverse.mp hc)
  unfold List.rtakeWhile
  rw [List.reverse_append, List.reverse_cons, List.append_assoc,
    List.takeWhile_append_of_pos hname]
  simp

theorem rdropWhile_last_slash (body : Path) {name : List Char} (h : '/' ∉ name) :
    (body ++ '/' :: name).rdropWhile (· ≠ '/') = body ++ ['/'] := by
  have hname : ∀ c ∈ name.reverse, (decide (c ≠ '/')) = true := by
    intro c hc
    apply decide_eq_true
    intro he
    exact h (he ▸ List.mem_reverse.mp hc)
  unfold List.rdropWhile
  rw [List.reverse_append, List.reverse_cons, List.append_assoc,
    List.dropWhile_append_of_pos hname]
  simp

theorem getLast?_last_slash (body : Path) {name : List Char} (h : '/' ∉ name) :
    (body ++ '/' :: name).getLast? = some '/' ↔ name = [] := by
  rw [List.getLast?_append, List.getLast?_cons]
  cases hlast : name.getLast? with
  | none => simp [List.getLast?_eq_none_iff.mp hlast]
  | some c =>
    have hmem : c ∈ name := List.mem_of_getLast? hlast
    have hne : name ≠ [] := List.ne_nil_of_mem hmem
    have hc : c ≠ '/' := fun he => h (he ▸ hmem)
    simp [hne, hc]

theorem getLast?_append_slash (p : Path) {q : Path} (h : q ≠ []) :
    (p ++ '/' :: q).getLast? = q.getLast? := by
  have hlast : q.getLast? = some (q.getLast h) := List.getLast?_eq_some_getLast h
  rw [List.getLast?_append, List.getLast?_cons, hlast]
  rfl

theorem components_last_slash (body : Path) {name : List Char} (h : '/' ∉ name) :
    components (body ++ '/' :: name) =
      components body ++ (if name = [] then [] else [name]) := by
  rw [components_append]
  split
  · rename_i hnil
    rw [hnil, components_nil]
  · rename_i hne
    rw [components_of_name hne h]

/-- A string that does not end in a slash has a last component. -/
theorem exists_last_component {p : Path} (hne : p ≠ []) (hlast : p.getLast? ≠ some '/') :
    ∃ xs name, components p = xs ++ [name] := by
  by_cases hslash : '/' ∈ p
  · obtain ⟨body, name, rfl, hname⟩ := exists_last_slash hslash
    have hnil : name ≠ [] := fun h => hlast ((getLast?_last_slash body hname).mpr h)
    refine ⟨components body, name, ?_⟩
    rw [components_last_slash body hname, if_neg hnil]
  · exact ⟨[], p, components_of_name hne hslash⟩

variable {fs : FileSystem} {l m : Location} {xs ys : List (List Char)} {p : Path}

theorem descend_of_not_directory (h : fs.isDirectory l = false) : fs.descend l xs = none := by
  cases xs <;> simp [descend, h]

theorem isDirectory_of_descend (h : fs.descend l xs = some m) : fs.isDirectory m = true := by
  induction xs generalizing l with
  | nil =>
    simp only [descend] at h
    split at h
    · rename_i hl
      rw [← Option.some.inj h, hl]
    · simp at h
  | cons name xs ih =>
    simp only [descend] at h
    split at h
    · exact ih h
    · simp at h

theorem descend_append :
    fs.descend l (xs ++ ys) = (fs.descend l xs).bind fun m => fs.descend m ys := by
  induction xs generalizing l with
  | nil =>
    cases hl : fs.isDirectory l with
    | true => simp [descend, hl]
    | false => simp [descend, hl, descend_of_not_directory hl]
  | cons name xs ih =>
    cases hl : fs.isDirectory l with
    | true => simp [descend, hl, ih]
    | false => simp [descend, hl]

theorem descend_concat {name : List Char} :
    fs.descend l (xs ++ [name]) =
      (fs.descend l xs).bind fun m =>
        if fs.isDirectory (move m name) then some (move m name) else none := by
  rw [descend_append]
  cases h : fs.descend l xs with
  | none => rfl
  | some m => simp [descend, isDirectory_of_descend h]

/-- A file name: `.` and `..` are not. -/
structure Proper (name : List Char) : Prop where
  nonempty : name ≠ []
  noSlash : '/' ∉ name
  notDot : name ≠ ['.']
  notDotDot : name ≠ ['.', '.']

theorem Proper.move_eq {name : List Char} (h : Proper name) (l : Location) :
    move l name = l ++ [name] := by
  simp [move, h.notDot, h.notDotDot]

/-- Everything is in a directory under a proper name, and the current directory exists. -/
structure WellFormed (fs : FileSystem) : Prop where
  root : fs.isDirectory [] = true
  parent : ∀ l name, fs.node (l ++ [name]) ≠ none → fs.isDirectory l = true
  proper : ∀ l name, fs.node (l ++ [name]) ≠ none → Proper name
  current : fs.isDirectory fs.currentDirectory = true

theorem node_of_isDirectory (h : fs.isDirectory l = true) :
    ∃ w, fs.node l = some (.directory w) := by
  unfold isDirectory at h
  split at h
  · rename_i w hn
    exact ⟨w, hn⟩
  · simp at h

namespace WellFormed

theorem node_ne_none (h : fs.isDirectory l = true) : fs.node l ≠ none := by
  obtain ⟨w, hn⟩ := node_of_isDirectory h
  simp [hn]

theorem isDirectory_dropLast (hwf : fs.WellFormed) (h : fs.isDirectory l = true) :
    fs.isDirectory l.dropLast = true := by
  induction l using List.reverseRecOn with
  | nil => exact h
  | append_singleton l name _ =>
    rw [List.dropLast_concat]
    exact hwf.parent l name (node_ne_none h)

/-- The walk to an existing directory along its own names. -/
theorem descend_self (hwf : fs.WellFormed) (h : fs.isDirectory l = true) :
    fs.descend [] l = some l := by
  induction l using List.reverseRecOn with
  | nil => simp [descend, h]
  | append_singleton l name ih =>
    have hnode := node_ne_none h
    rw [descend_concat, ih (hwf.parent l name hnode), Option.bind_some,
      (hwf.proper l name hnode).move_eq, if_pos h]

theorem descend_under (hwf : fs.WellFormed) (h : fs.isDirectory l = true) :
    fs.descend [] (l ++ xs) = fs.descend l xs := by
  rw [descend_append, hwf.descend_self h, Option.bind_some]

theorem proper_of_mem (hwf : fs.WellFormed) (h : fs.isDirectory l = true) {name : List Char}
    (hm : name ∈ l) : Proper name := by
  induction l using List.reverseRecOn with
  | nil => simp at hm
  | append_singleton l last ih =>
    have hnode := node_ne_none h
    rcases List.mem_append.mp hm with hm | hm
    · exact ih (hwf.parent l last hnode) hm
    · rw [List.mem_singleton.mp hm]
      exact hwf.proper l last hnode

end WellFormed

/-- The directory that the walk along a path begins in. -/
def origin (fs : FileSystem) (p : Path) : Location :=
  if p.head? = some '/' then [] else fs.currentDirectory

theorem WellFormed.isDirectory_origin (hwf : fs.WellFormed) (p : Path) :
    fs.isDirectory (fs.origin p) = true := by
  unfold origin
  split
  · exact hwf.root
  · exact hwf.current

theorem locate_of_components {name : List Char} (hne : p ≠ [])
    (h : components p = xs ++ [name]) :
    fs.locate p = (fs.descend (fs.origin p) xs).map fun l =>
      ⟨move l name, name = ['.'] || name = ['.', '.'] || p.getLast? = some '/'⟩ := by
  unfold locate origin
  rw [if_neg hne]
  simp [h]

theorem lookup_of_descend (hne : p ≠ []) (h : fs.descend (fs.origin p) (components p) = some l) :
    fs.lookup p = fs.node l := by
  obtain ⟨w, hnode⟩ := node_of_isDirectory (isDirectory_of_descend h)
  have hlocate : ∃ t, fs.locate p = some t ∧ t.location = l := by
    rcases List.eq_nil_or_concat (components p) with hnil | ⟨xs, name, hc⟩
    · rw [hnil] at h
      simp only [descend] at h
      split at h
      · refine ⟨⟨fs.origin p, true⟩, ?_, Option.some.inj h⟩
        simp [locate, hne, hnil, origin]
      · simp at h
    · rw [List.concat_eq_append] at hc
      rw [hc, descend_concat, Option.bind_eq_some_iff] at h
      obtain ⟨m, hm, hdir⟩ := h
      split at hdir
      · refine ⟨⟨move m name, name = ['.'] || name = ['.', '.'] || p.getLast? = some '/'⟩, ?_,
          Option.some.inj hdir⟩
        rw [locate_of_components hne hc, hm]
        rfl
      · simp at hdir
  obtain ⟨t, ht, hl⟩ := hlocate
  simp only [lookup, ht, hl, hnode]

theorem fileLocation_of_components {name : List Char} (hne : p ≠ [])
    (h : components p = xs ++ [name]) (hdot : name ≠ ['.']) (hdotdot : name ≠ ['.', '.'])
    (hlast : p.getLast? ≠ some '/') :
    fs.fileLocation p = (fs.descend (fs.origin p) xs).map (· ++ [name]) := by
  unfold fileLocation
  rw [locate_of_components hne h]
  cases fs.descend (fs.origin p) xs with
  | none => rfl
  | some l => simp [hdot, hdotdot, hlast, move]

/-- A path that leads to the place of a file goes through existing directories to a name. -/
theorem fileLocation_inv (h : fs.fileLocation p = some l) :
    ∃ xs name m, components p = xs ++ [name] ∧ name ≠ ['.'] ∧ name ≠ ['.', '.'] ∧
      p.getLast? ≠ some '/' ∧ fs.descend (fs.origin p) xs = some m ∧ l = m ++ [name] := by
  rw [fileLocation_eq_some_iff] at h
  have hne : p ≠ [] := by
    intro hnil
    simp [locate, hnil] at h
  rcases List.eq_nil_or_concat (components p) with hnil | ⟨xs, name, hc⟩
  · simp [locate, hne, hnil] at h
  · rw [List.concat_eq_append] at hc
    rw [locate_of_components hne hc, Option.map_eq_some_iff] at h
    obtain ⟨m, hm, ht⟩ := h
    simp only [Target.mk.injEq, Bool.or_eq_false_iff, decide_eq_false_iff_not] at ht
    obtain ⟨hl, ⟨hdot, hdotdot⟩, hlast⟩ := ht
    refine ⟨xs, name, m, hc, hdot, hdotdot, hlast, hm, ?_⟩
    rw [← hl, move, if_neg hdot, if_neg hdotdot]

/-- Nothing is missing behind a walk that ends with `.` or `..`. -/
theorem lookup_of_dots (hwf : fs.WellFormed) {name : List Char} (hne : p ≠ [])
    (h : components p = xs ++ [name]) (hdots : name = ['.'] ∨ name = ['.', '.'])
    (hwalk : fs.descend (fs.origin p) xs = some m) : (fs.lookup p).isSome := by
  have hm := isDirectory_of_descend hwalk
  have hmove : fs.isDirectory (move m name) = true := by
    rcases hdots with rfl | rfl
    · exact hm
    · exact hwf.isDirectory_dropLast hm
  have hend : fs.descend (fs.origin p) (components p) = some (move m name) := by
    rw [h, descend_concat, hwalk, Option.bind_some, if_pos hmove]
  obtain ⟨w, hnode⟩ := node_of_isDirectory hmove
  rw [lookup_of_descend hne hend, hnode]
  rfl

end FileSystem
end Files
