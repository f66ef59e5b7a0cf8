/-
SpringDome.Lib.FileTree — finite directory trees, and a walk through one.

A `Listing` is what is in a directory: files, and directories with a listing
of their own, in the order in which they are listed. A file is named by its
path, the names from the root down. In a `DirTree` the names in a directory
differ, and none has a separator in it, so every file has one path
(`nodup_files`).

`walk_eq_filter` is about a walk that goes by names: what it finds are the
files all of whose names pass, those of the directories above them included.
-/
import Mathlib.Data.List.Nodup

namespace SpringDome.Lib.FileTree

/-! ## 1. Trees -/

inductive Listing where
  | nil
  | file (name : String) (rest : Listing)
  | dir (name : String) (inside rest : Listing)
  deriving DecidableEq, Repr

namespace Listing

/-- The names in the directory itself. -/
def names : Listing → List String
  | .nil => []
  | .file name rest => name :: rest.names
  | .dir name _ rest => name :: rest.names

/-- The paths of the files at any depth. -/
def files : Listing → List (List String)
  | .nil => []
  | .file name rest => [name] :: rest.files
  | .dir name inside rest => inside.files.map (name :: ·) ++ rest.files

/-- The files that are found by taking up only what has a name that passes. -/
def walk (keep : String → Bool) : Listing → List (List String)
  | .nil => []
  | .file name rest => (if keep name then [[name]] else []) ++ rest.walk keep
  | .dir name inside rest =>
      (if keep name then (inside.walk keep).map (name :: ·) else []) ++ rest.walk keep

/-- Siblings have different names, and no name has a separator. -/
def WellFormed (separator : Char) : Listing → Prop
  | .nil => True
  | .file name rest => separator ∉ name.toList ∧ name ∉ rest.names ∧ rest.WellFormed separator
  | .dir name inside rest =>
      separator ∉ name.toList ∧ name ∉ rest.names ∧ inside.WellFormed separator ∧
        rest.WellFormed separator

instance decidableWellFormed (separator : Char) : ∀ l : Listing, Decidable (l.WellFormed separator)
  | .nil => isTrue trivial
  | .file name rest =>
      have := decidableWellFormed separator rest
      inferInstanceAs (Decidable (separator ∉ name.toList ∧ name ∉ rest.names ∧
        rest.WellFormed separator))
  | .dir name inside rest =>
      have := decidableWellFormed separator inside
      have := decidableWellFormed separator rest
      inferInstanceAs (Decidable (separator ∉ name.toList ∧ name ∉ rest.names ∧
        inside.WellFormed separator ∧ rest.WellFormed separator))

end Listing

structure DirTree (separator : Char) where
  entries : Listing
  wellFormed : entries.WellFormed separator

/-- A path as text. -/
def joinPath (separator : String) : List String → String
  | [] => ""
  | [name] => name
  | name :: next :: path => name ++ separator ++ joinPath separator (next :: path)

/-! ## 2. Paths -/

namespace Listing

/-- A path starts in the directory itself. -/
theorem exists_of_mem_files {l : Listing} {path : List String} (h : path ∈ l.files) :
    ∃ name below, path = name :: below ∧ name ∈ l.names := by
  induction l with
  | nil => cases h
  | file name rest ih =>
      rcases List.mem_cons.mp h with rfl | h
      · exact ⟨name, [], rfl, List.mem_cons_self⟩
      · obtain ⟨first, below, rfl, hfirst⟩ := ih h
        exact ⟨first, below, rfl, List.mem_cons_of_mem _ hfirst⟩
  | dir name inside rest _ ih =>
      rcases List.mem_append.mp h with h | h
      · obtain ⟨below, -, rfl⟩ := List.mem_map.mp h
        exact ⟨name, below, rfl, List.mem_cons_self⟩
      · obtain ⟨first, below, rfl, hfirst⟩ := ih h
        exact ⟨first, below, rfl, List.mem_cons_of_mem _ hfirst⟩

theorem ne_nil_of_mem_files {l : Listing} {path : List String} (h : path ∈ l.files) :
    path ≠ [] := by
  obtain ⟨name, below, rfl, -⟩ := exists_of_mem_files h
  exact List.cons_ne_nil _ _

/-- No file has two paths. -/
theorem nodup_files {separator : Char} {l : Listing} (h : l.WellFormed separator) :
    l.files.Nodup := by
  have hapart : ∀ {name : String} {below : List String} {rest : Listing}, name ∉ rest.names →
      name :: below ∉ rest.files := by
    intro name below rest hname hmem
    obtain ⟨first, _, hpath, hfirst⟩ := exists_of_mem_files hmem
    obtain ⟨rfl, -⟩ := List.cons.inj hpath
    exact hname hfirst
  induction l with
  | nil => exact List.nodup_nil
  | file name rest ih =>
      obtain ⟨-, hname, hrest⟩ := h
      exact List.nodup_cons.mpr ⟨hapart hname, ih hrest⟩
  | dir name inside rest ihinside ihrest =>
      obtain ⟨-, hname, hinside, hrest⟩ := h
      refine List.Nodup.append ((ihinside hinside).map (List.cons_injective)) (ihrest hrest) ?_
      intro path hpath hmem
      obtain ⟨below, -, rfl⟩ := List.mem_map.mp hpath
      exact hapart hname hmem

/-- No name on a path has a separator. -/
theorem separator_notMem {separator : Char} {l : Listing} (h : l.WellFormed separator)
    {path : List String} (hpath : path ∈ l.files) {name : String} (hname : name ∈ path) :
    separator ∉ name.toList := by
  induction l generalizing path with
  | nil => cases hpath
  | file first rest ih =>
      obtain ⟨hfirst, -, hrest⟩ := h
      rcases List.mem_cons.mp hpath with rfl | hpath
      · rw [List.mem_singleton.mp hname]
        exact hfirst
      · exact ih hrest hpath hname
  | dir first inside rest ihinside ihrest =>
      obtain ⟨hfirst, -, hinside, hrest⟩ := h
      rcases List.mem_append.mp hpath with hpath | hpath
      · obtain ⟨below, hbelow, rfl⟩ := List.mem_map.mp hpath
        rcases List.mem_cons.mp hname with rfl | hname
        · exact hfirst
        · exact ihinside hinside hbelow hname
      · exact ihrest hrest hpath hname

/-- **What a walk finds.** -/
theorem walk_eq_filter (keep : String → Bool) (l : Listing) :
    l.walk keep = l.files.filter fun path => path.all keep := by
  induction l with
  | nil => rfl
  | file name rest ih =>
      rw [walk, files, List.filter_cons, ih]
      cases hname : keep name <;> simp [hname]
  | dir name inside rest ihinside ihrest =>
      rw [walk, files, List.filter_append, List.filter_map, ihinside, ihrest]
      cases hname : keep name with
      | false => simp [Function.comp_def, hname]
      | true => simp [Function.comp_def, hname]

end Listing

theorem joinPath_singleton (separator name : String) : joinPath separator [name] = name := rfl

/-- A path of two names or more has a separator. -/
theorem separator_mem_joinPath {separator : Char} {path : List String} (h : 1 < path.length) :
    separator ∈ (joinPath (String.singleton separator) path).toList := by
  match path, h with
  | name :: next :: path, _ =>
      rw [joinPath, String.toList_append, String.toList_append]
      simp

end SpringDome.Lib.FileTree
