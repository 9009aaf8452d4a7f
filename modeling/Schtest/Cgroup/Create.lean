import Schtest.Path.Components
import Mathlib.Data.List.DropRight

/-!
# Where a new cgroup is made

`Cgroup::create` reads the cgroup of the process from `/proc/self/cgroup`, and
makes a directory with a random name.  `Drop` moves the tasks of that cgroup to
the parent of the directory.
-/

namespace Schtest.Cgroup

open Schtest.Path

/-! ## The source -/

/-- A line without the carriage return at its end. -/
def stripReturn (line : List Char) : List Char :=
  if line.getLast? = some '\r' then line.dropLast else line

/-- `reader.lines()`. -/
def lines (text : List Char) : List (List Char) :=
  let pieces := text.splitOn '\n'
  pieces.dropLast.map stripReturn ++
    (if pieces.getLast? = some [] then [] else pieces.getLast?.toList)

/-- `line[(pos + 1)..]`, with the position of the last colon, if there is one. -/
def afterColon (line : List Char) : Option (List Char) :=
  if ':' ∈ line then some (line.rtakeWhile (· ≠ ':')) else none

/-- The cgroup path in the first line with a colon. -/
def currentCgroup (procSelfCgroup : List Char) : Option PathBuf :=
  (lines procSelfCgroup).findSome? afterColon

/-- `format!("schtest-{}", random)`. -/
def name (random : UInt32) : List Char :=
  "schtest-".toList ++ Nat.toDigits 10 random.toNat

/-- `PathBuf::from("/sys/fs/cgroup")`. -/
def cgroupMount : PathBuf :=
  "/sys/fs/cgroup".toList

/-- The directory that `Cgroup::create` makes, by the test for the root cgroup. -/
def newCgroupPath (currentCgroup : PathBuf) (name : List Char) : PathBuf :=
  if currentCgroup = "/".toList then join cgroupMount name
  else join (join cgroupMount currentCgroup) name

/-- The directory that `Cgroup::create` makes. -/
def create (procSelfCgroup : List Char) (random : UInt32) : Except String PathBuf :=
  match currentCgroup procSelfCgroup with
  | none => .error "failed to determine current cgroup"
  | some current => .ok (newCgroupPath current (name random))

/-- The directory, by its components, to which `Drop` moves the tasks. -/
def dropTarget (path : PathBuf) : List Component :=
  (parent path).getD (components "/".toList)

/-! ## Reading the cgroup of the process -/

theorem stripReturn_cases (line : List Char) :
    line = stripReturn line ++ ['\r'] ∨
      stripReturn line = line ∧ line.getLast? ≠ some '\r' := by
  unfold stripReturn
  split
  case isTrue ends =>
    obtain ⟨front, rfl⟩ := List.getLast?_eq_some_iff.mp ends
    rw [List.dropLast_concat]
    exact Or.inl rfl
  case isFalse stays => exact Or.inr ⟨rfl, stays⟩

theorem stripReturn_subset (line : List Char) : stripReturn line ⊆ line := by
  rcases stripReturn_cases line with ends | ⟨same, _⟩
  · intro c member
    rw [ends]
    exact List.mem_append_left _ member
  · rw [same]
    exact List.Subset.refl line

theorem lines_cons {line : List Char} (no_newline : '\n' ∉ line) (rest : List Char) :
    lines (line ++ '\n' :: rest) = stripReturn line :: lines rest := by
  have more := List.splitOn_ne_nil '\n' rest
  rw [lines, List.splitOn_append_cons_self_of_not_mem no_newline]
  simp only [List.dropLast_cons_of_ne_nil more, List.map_cons, List.cons_append,
    List.getLast?_cons_of_ne_nil more]
  rfl

theorem afterColon_append {path : List Char} (no_colon : ':' ∉ path) (fields : List Char) :
    afterColon (fields ++ ':' :: path) = some path := by
  have behind : (fields ++ ':' :: path).rtakeWhile (· ≠ ':') = path := by
    have all : ∀ c ∈ path.reverse, decide (c ≠ ':') = true := by
      intro c member
      have other : c ≠ ':' := by
        rintro rfl
        exact no_colon (List.mem_reverse.mp member)
      simpa using other
    simp only [List.rtakeWhile, List.reverse_append, List.reverse_cons, List.append_assoc]
    rw [List.takeWhile_append_of_pos all]
    simp
  rw [afterColon, if_pos (by simp), behind]

theorem stripReturn_append {path : List Char} (nonempty : path ≠ []) (fields : List Char) :
    stripReturn (fields ++ path) = fields ++ stripReturn path := by
  simp only [stripReturn, List.getLast?_append_of_ne_nil fields nonempty,
    List.dropLast_append_of_ne_nil nonempty]
  split <;> rfl

/-- The path is found whatever comes before its colon. -/
theorem currentCgroup_eq {fields path : List Char} (absolute : isAbsolute path = true)
    (fields_line : '\n' ∉ fields) (path_line : '\n' ∉ path) (no_colon : ':' ∉ path)
    (rest : List Char) :
    currentCgroup (fields ++ ':' :: path ++ '\n' :: rest) = some (stripReturn path) := by
  have line : '\n' ∉ fields ++ ':' :: path := by
    simp [fields_line, path_line]
  have still : ':' ∉ stripReturn path :=
    fun member => no_colon (stripReturn_subset path member)
  have stripped : stripReturn (fields ++ ':' :: path) = fields ++ ':' :: stripReturn path := by
    have nonempty : path ≠ [] := by
      rintro rfl
      contradiction
    simpa using stripReturn_append nonempty (fields ++ [':'])
  rw [currentCgroup, lines_cons line, stripped, List.findSome?_cons,
    afterColon_append still]

/-! ## Where the directory is -/

theorem name_eq (random : UInt32) :
    name random = 's' :: ("chtest-".toList ++ Nat.toDigits 10 random.toNat) := by
  have label : "schtest-".toList = 's' :: "chtest-".toList := by
    decide
  unfold name
  rw [label]
  exact List.cons_append

theorem isName_name (random : UInt32) : IsName (name random) := by
  constructor
  case separator =>
    intro member
    unfold name at member
    rcases List.mem_append.mp member with label | digit
    · exact absurd label (by decide)
    · have isDigit := Nat.isDigit_of_mem_toDigits (by decide) (by decide) digit
      exact absurd isDigit (by decide)
  case nonempty =>
    rw [name_eq]
    exact List.cons_ne_nil _ _
  case curDir =>
    rw [name_eq]
    intro same
    exact absurd (List.cons.inj same).1 (by decide)
  case parentDir =>
    rw [name_eq]
    intro same
    exact absurd (List.cons.inj same).1 (by decide)

/-- The directory is below the cgroup mount, in the directory of the cgroup
`path`, to which the tasks go back. -/
structure MadeInside (path : PathBuf) (name : List Char) (made : PathBuf) : Prop where
  located : components made = components cgroupMount ++ body path ++ [.normal name]
  below : components cgroupMount <+: components made
  strictly : components made ≠ components cgroupMount
  tasks : dropTarget made = components cgroupMount ++ body path

/-- The components decide. -/
theorem MadeInside.of_located {path made : PathBuf} {name : List Char}
    (located : components made = components cgroupMount ++ body path ++ [.normal name]) :
    MadeInside path name made := by
  constructor
  case located => exact located
  case below =>
    rw [located, List.append_assoc]
    exact List.prefix_append _ _
  case strictly =>
    intro same
    have lengths := congrArg List.length (located.symm.trans same)
    rw [List.length_append, List.length_append, List.length_singleton] at lengths
    omega
  case tasks => rw [dropTarget, parent_of_components located, Option.getD_some]

/-- Stripping a carriage return takes no component more than there is. -/
theorem body_stripReturn_le (path : PathBuf) :
    (body (stripReturn path)).length ≤ (body path).length := by
  rcases stripReturn_cases path with ends | ⟨same, _⟩
  · have longer : (body (stripReturn path)).length ≤ (body (stripReturn path ++ ['\r'])).length :=
      body_length_le_concat (by decide) (by decide)
    rwa [← ends] at longer
  · rw [same]

theorem isAbsolute_stripReturn {path : PathBuf} (absolute : isAbsolute path = true) :
    isAbsolute (stripReturn path) = true := by
  rcases stripReturn_cases path with ends | ⟨same, _⟩
  · rw [ends] at absolute
    cases front : stripReturn path with
    | nil => simp [front, isAbsolute] at absolute
    | cons first rest => simpa [front, isAbsolute] using absolute
  · rwa [same]

/-- Only the root itself becomes the root and has no components. -/
theorem eq_root_of_stripReturn {path : PathBuf} (root : stripReturn path = "/".toList)
    (empty : body path = []) : path = "/".toList := by
  rcases stripReturn_cases path with ends | ⟨same, _⟩
  · rw [ends, root] at empty
    exact absurd empty (by decide)
  · rw [← same, root]

/-- A cgroup other than the root replaces the mount. -/
theorem components_newCgroupPath {current : PathBuf} {name : List Char} (isName : IsName name)
    (absolute : isAbsolute current = true) (not_root : current ≠ "/".toList) :
    components (newCgroupPath current name) = components current ++ [.normal name] := by
  rw [newCgroupPath, if_neg not_root, join_of_absolute absolute,
    components_join_name absolute isName]

/-- At the root, the name is joined to the mount alone. -/
theorem components_newCgroupPath_root {name : List Char} (isName : IsName name) :
    components (newCgroupPath "/".toList name) = components cgroupMount ++ [.normal name] := by
  rw [newCgroupPath, if_pos rfl, components_join_name (by decide) isName]

/-- The directory is inside the mount for the root cgroup only. -/
theorem madeInside_newCgroupPath_iff {path : PathBuf} {name : List Char} (isName : IsName name)
    (absolute : isAbsolute path = true) :
    MadeInside path name (newCgroupPath (stripReturn path) name) ↔ path = "/".toList := by
  constructor
  case mp =>
    intro inside
    have located := inside.located
    by_cases root : stripReturn path = "/".toList
    · rw [root, components_newCgroupPath_root isName] at located
      have empty : body path = [] := by
        simpa using located
      exact eq_root_of_stripReturn root empty
    · -- the mount has three components more than the root directory
      rw [components_newCgroupPath isName (isAbsolute_stripReturn absolute) root,
        components_of_absolute (isAbsolute_stripReturn absolute)] at located
      have lengths := congrArg List.length located
      have stripped := body_stripReturn_le path
      have mount : (components cgroupMount).length = 4 := by
        decide
      simp only [List.length_append, List.length_cons, List.length_nil, mount] at lengths
      omega
  case mpr =>
    rintro rfl
    apply MadeInside.of_located
    have unchanged : stripReturn "/".toList = "/".toList := by
      decide
    have empty : body "/".toList = [] := by
      decide
    rw [unchanged, components_newCgroupPath_root isName, empty, List.append_nil]

/-- A new cgroup is made inside the mount, below the cgroup of the process, for
the root cgroup only. -/
theorem made_inside_iff (fields path : List Char) (absolute : isAbsolute path = true)
    (fields_line : '\n' ∉ fields) (path_line : '\n' ∉ path) (no_colon : ':' ∉ path)
    (rest : List Char) (random : UInt32) :
    ∃ made, create (fields ++ ':' :: path ++ '\n' :: rest) random = .ok made ∧
      (MadeInside path (name random) made ↔ path = "/".toList) := by
  have current := currentCgroup_eq absolute fields_line path_line no_colon rest
  refine ⟨newCgroupPath (stripReturn path) (name random), ?_, ?_⟩
  · rw [create, current]
  · exact madeInside_newCgroupPath_iff (isName_name random) absolute

theorem made_inside_iff_root :
    ∃ made, create "0::/\n".toList 7 = .ok made ∧ MadeInside "/".toList (name 7) made := by
  obtain ⟨made, created, inside_iff⟩ := made_inside_iff "0:".toList "/".toList (by decide)
    (by decide) (by decide) (by decide) [] 7
  exact ⟨made, created, inside_iff.mpr rfl⟩

/-- The cgroup of a process in `/user.slice` is made outside the mount. -/
theorem made_outside_mount :
    create "0::/user.slice\n".toList 7 = .ok "/user.slice/schtest-7".toList ∧
      ¬ MadeInside "/user.slice".toList (name 7) "/user.slice/schtest-7".toList := by
  constructor
  · rfl
  · intro inside
    exact absurd inside.located (by decide)

end Schtest.Cgroup
