import Schtest.Cgroup.Create

/-!
# What is read from the cgroup file

Each line of `/proc/self/cgroup` has the three fields of
`hierarchy-ID:controller-list:cgroup-path`.  The reader takes what is behind the
last colon of the first line, and `lines` takes a carriage return away in front
of a line feed.
-/

namespace Schtest.Cgroup

open Schtest.Path

/-- A line of `/proc/self/cgroup`. -/
structure ProcLine where
  id : List Char
  controllers : List Char
  path : PathBuf
  id_nonempty : id ≠ []
  id_digits : ∀ c ∈ id, c.isDigit = true
  controllers_colon : ':' ∉ controllers
  controllers_line : '\n' ∉ controllers
  path_absolute : isAbsolute path = true
  path_line : '\n' ∉ path

namespace ProcLine

/-- The two fields before the path. -/
def fields (line : ProcLine) : List Char :=
  line.id ++ ':' :: line.controllers

/-- The line as it stands in the file. -/
def text (line : ProcLine) : List Char :=
  line.fields ++ ':' :: line.path

theorem newline_notMem_fields (line : ProcLine) : '\n' ∉ line.fields := by
  intro member
  rcases List.mem_append.mp member with digit | later
  · exact absurd (line.id_digits _ digit) (by decide)
  · rcases List.mem_cons.mp later with same | controller
    · exact absurd same (by decide)
    · exact line.controllers_line controller

theorem newline_notMem_text (line : ProcLine) : '\n' ∉ line.text := by
  simp [text, line.newline_notMem_fields, line.path_line]

end ProcLine

/-- The file with these lines.  Its last line may lack the line feed. -/
def content : List ProcLine → Bool → List Char
  | [], _ => []
  | line :: others, terminated =>
      line.text ++
        if others.isEmpty && !terminated then [] else '\n' :: content others terminated

/-! ## What the reader takes -/

/-- The last line is read as it stands when no line feed ends it. -/
theorem lines_singleton {line : List Char} (no_newline : '\n' ∉ line) (nonempty : line ≠ []) :
    lines line = [line] := by
  rw [lines, List.splitOn_eq_singleton no_newline]
  simp [nonempty]

theorem colon_notMem_of_afterColon {line path : List Char} (found : afterColon line = some path) :
    ':' ∉ path := by
  unfold afterColon at found
  split at found
  case isTrue =>
    cases found
    intro member
    have other := List.mem_rtakeWhile_imp member
    exact absurd other (by decide)
  case isFalse => contradiction

/-- Whatever the file holds, what is taken from it holds no colon. -/
theorem colon_notMem_of_currentCgroup {text : List Char} {path : PathBuf}
    (found : currentCgroup text = some path) : ':' ∉ path := by
  obtain ⟨line, _, taken⟩ := List.exists_of_findSome?_eq_some found
  exact colon_notMem_of_afterColon taken

theorem stripReturn_eq_self_iff (line : List Char) :
    stripReturn line = line ↔ line.getLast? ≠ some '\r' := by
  constructor
  case mp =>
    intro same
    rcases stripReturn_cases line with ends | ⟨_, stays⟩
    · rw [same] at ends
      simp at ends
    · exact stays
  case mpr => exact fun stays => if_neg stays

theorem currentCgroup_singleton (line : ProcLine) (no_colon : ':' ∉ line.path) :
    currentCgroup line.text = some line.path := by
  have nonempty : line.text ≠ [] := by
    simp [ProcLine.text]
  rw [currentCgroup, lines_singleton line.newline_notMem_text nonempty, List.findSome?_cons,
    ProcLine.text, afterColon_append no_colon]

/-- The path of the first line is taken when it holds no colon and, before a
line feed, no carriage return ends it. -/
theorem currentCgroup_content_iff (first : ProcLine) (others : List ProcLine)
    (terminated : Bool) :
    currentCgroup (content (first :: others) terminated) = some first.path ↔
      ':' ∉ first.path ∧
        (first.path.getLast? = some '\r' → others = [] ∧ terminated = false) := by
  have only_without_colon (no_colon : ':' ∉ first.path) :
      currentCgroup (content (first :: others) terminated) = some first.path ↔
        (first.path.getLast? = some '\r' → others = [] ∧ terminated = false) := by
    rw [content]
    by_cases last : (others.isEmpty && !terminated) = true
    · have alone : others = [] ∧ terminated = false := by
        simpa using last
      rw [if_pos last, List.append_nil, currentCgroup_singleton first no_colon]
      simp [alone]
    · have more : ¬(others = [] ∧ terminated = false) := by
        simpa using last
      rw [if_neg last, ProcLine.text, currentCgroup_eq first.path_absolute
        first.newline_notMem_fields first.path_line no_colon, Option.some.injEq,
        stripReturn_eq_self_iff]
      constructor
      · intro kept returned
        exact absurd returned kept
      · intro only returned
        exact more (only returned)
  constructor
  case mp =>
    intro taken
    have no_colon := colon_notMem_of_currentCgroup taken
    exact ⟨no_colon, (only_without_colon no_colon).mp taken⟩
  case mpr =>
    rintro ⟨no_colon, returns⟩
    exact (only_without_colon no_colon).mpr returns

/-- The line of a cgroup with a colon in its name. -/
def colonLine : ProcLine where
  id := ['0']
  controllers := []
  path := "/user.slice/a:b".toList
  id_nonempty := by decide
  id_digits := List.forall_mem_singleton.mpr rfl
  controllers_colon := by decide
  controllers_line := by decide
  path_absolute := by decide
  path_line := by decide

/-- Of `0::/user.slice/a:b` the letter behind the last colon is taken. -/
theorem currentCgroup_colon :
    content [colonLine] true = "0::/user.slice/a:b\n".toList ∧
      currentCgroup (content [colonLine] true) = some "b".toList ∧
      currentCgroup (content [colonLine] true) ≠ some colonLine.path := by
  decide

end Schtest.Cgroup
