import Mathlib.Data.List.Basic

/-!
# Paths and their components

Unix paths as texts, with the operations of `std::path`.  A text denotes the
sequence of its components: separators that are repeated or trail, and `.`
components behind the first position, are not part of it.
-/

namespace Schtest.Path

/-- A path as it is written. -/
abbrev PathBuf := List Char

/-- The components of a path, as `std::path` splits it. -/
inductive Component
  | rootDir
  | curDir
  | parentDir
  | normal (name : List Char)
  deriving DecidableEq, Repr

/-- `Path::is_absolute`. -/
def isAbsolute (path : PathBuf) : Bool :=
  path.head? = some '/'

/-- The component between two separators. -/
def parseComponent (piece : List Char) : Option Component :=
  if piece = [] ∨ piece = ['.'] then none
  else if piece = ['.', '.'] then some .parentDir
  else some (.normal piece)

/-- The components that come after the root directory, or after a leading `.`. -/
def body (path : PathBuf) : List Component :=
  (path.splitOn '/').filterMap parseComponent

/-- `path.components()`. -/
def components (path : PathBuf) : List Component :=
  (if isAbsolute path then [.rootDir]
    else if (path.splitOn '/').head? = some ['.'] then [.curDir] else []) ++ body path

example : components "/usr//./lib/../".toList =
    [.rootDir, .normal "usr".toList, .normal "lib".toList, .parentDir] := by
  decide

/-- `base.join(path)`: an absolute path replaces the base. -/
def join (base path : PathBuf) : PathBuf :=
  if isAbsolute path then path
  else if base = [] ∨ base.getLast? = some '/' then base ++ path
  else base ++ '/' :: path

/-- The components of `path.parent()`. -/
def parent (path : PathBuf) : Option (List Component) :=
  match (components path).getLast? with
  | none => none
  | some .rootDir => none
  | some _ => some (components path).dropLast

/-- A text that is one component of a path. -/
structure IsName (name : List Char) : Prop where
  separator : '/' ∉ name
  nonempty : name ≠ []
  curDir : name ≠ ['.']
  parentDir : name ≠ ['.', '.']

theorem components_of_absolute {path : PathBuf} (absolute : isAbsolute path = true) :
    components path = .rootDir :: body path := by
  simp [components, absolute]

theorem body_append_separator (front back : PathBuf) :
    body (front ++ '/' :: back) = body front ++ body back := by
  rw [body, List.splitOn_append_cons_self, List.filterMap_append, body, body]

theorem IsName.body {name : List Char} (isName : IsName name) :
    body name = [.normal name] := by
  rw [Path.body, List.splitOn_eq_singleton isName.separator]
  simp [parseComponent, isName.nonempty, isName.curDir, isName.parentDir]

theorem IsName.not_absolute {name : List Char} (isName : IsName name) :
    isAbsolute name = false := by
  rw [isAbsolute, decide_eq_false_iff_not]
  intro head
  exact isName.separator (List.mem_of_head? head)

/-- A character at the end, other than a separator or a dot, takes no component
away. -/
theorem body_length_le_concat {path : PathBuf} {last : Char} (not_separator : last ≠ '/')
    (not_dot : last ≠ '.') : (body path).length ≤ (body (path ++ [last])).length := by
  have parsed (piece : List Char) : parseComponent (piece ++ [last]) =
      some (.normal (piece ++ [last])) := by
    have not_curDir : piece ++ [last] ≠ ['.'] := by
      intro same
      exact not_dot (by simpa using congrArg List.getLast? same)
    have not_parentDir : piece ++ [last] ≠ ['.', '.'] := by
      intro same
      exact not_dot (by simpa using congrArg List.getLast? same)
    simp [parseComponent, not_curDir, not_parentDir]
  -- only the piece behind the last separator changes
  have pieces (piece : List Char) (no_separator : '/' ∉ piece) :
      (body piece).length ≤ (body (piece ++ [last])).length := by
    have still : '/' ∉ piece ++ [last] := by
      simpa [no_separator] using not_separator.symm
    rw [body, body, List.splitOn_eq_singleton no_separator, List.splitOn_eq_singleton still]
    simp only [List.filterMap_cons, List.filterMap_nil, parsed, List.length_singleton]
    cases parseComponent piece <;> simp
  by_cases separated : '/' ∈ path
  · obtain ⟨piece, front, split, no_separator⟩ :=
      List.eq_append_cons_of_mem (List.mem_reverse.mpr separated)
    have path_eq : path = front.reverse ++ '/' :: piece.reverse := by
      rw [← List.reverse_reverse path, split]
      simp
    rw [path_eq, List.append_assoc, List.cons_append, body_append_separator,
      body_append_separator, List.length_append, List.length_append]
    exact Nat.add_le_add_left (pieces _ (by simpa using no_separator)) _
  · exact pieces path separated

/-! ## Joining -/

theorem join_of_absolute {base path : PathBuf} (absolute : isAbsolute path = true) :
    join base path = path := by
  simp [join, absolute]

theorem isAbsolute_join {base path : PathBuf} (absolute : isAbsolute base = true) :
    isAbsolute (join base path) = true := by
  cases base with
  | nil => contradiction
  | cons first rest =>
      unfold join
      split
      · assumption
      · split
        · simpa [isAbsolute] using absolute
        · simpa [isAbsolute] using absolute

/-- A relative path is walked from the base. -/
theorem components_join_of_relative {base path : PathBuf} (absolute : isAbsolute base = true)
    (relative : isAbsolute path = false) :
    components (join base path) = components base ++ body path := by
  rw [components_of_absolute (isAbsolute_join absolute), components_of_absolute absolute,
    List.cons_append]
  congr 1
  unfold join
  rw [relative, if_neg (by simp)]
  split
  · rename_i ends
    rcases ends with empty | trailing
    · subst empty
      contradiction
    · obtain ⟨front, rfl⟩ := List.getLast?_eq_some_iff.mp trailing
      rw [List.append_assoc, List.singleton_append, body_append_separator, body_append_separator]
      simp [body, parseComponent]
  · exact body_append_separator base path

theorem components_join_name {base name : PathBuf} (absolute : isAbsolute base = true)
    (isName : IsName name) : components (join base name) = components base ++ [.normal name] := by
  rw [components_join_of_relative absolute isName.not_absolute, isName.body]

/-- The parent of a directory made under a base is the base. -/
theorem parent_of_components {path : PathBuf} {front : List Component} {name : List Char}
    (path_components : components path = front ++ [.normal name]) : parent path = some front := by
  simp [parent, path_components]

end Schtest.Path
