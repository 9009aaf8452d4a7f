import Schtest.Topology.Core

/-!
# The installed scheduler

`SchedExt::installed` reads the state of `sched_ext` and, when it is enabled, the
name of the scheduler.  Every file is looked at by itself, so that the answers may
be of different instants.
-/

namespace Schtest.Sched

open Schtest.Topology

/-- What the file system says about a file: `exists()` is false, or what opening and
reading it gives. -/
inductive SysFile
  | absent
  | unopenable
  | unreadable
  | text (content : List Char)
  deriving DecidableEq, Repr

/-- The files below `/sys/kernel/sched_ext`, which may be absent itself. -/
structure SysFiles where
  available : Bool
  state : SysFile
  ops : SysFile
  deriving DecidableEq, Repr

/-- The content of a file behind `exists()`, or the error of the step that failed. -/
def SysFile.read (file : SysFile) (what : String) : Except String (Option (List Char)) :=
  match file with
  | .absent => .ok none
  | .unopenable => .error ("Failed to open sched_ext " ++ what ++ " file")
  | .unreadable => .error ("Failed to read sched_ext " ++ what ++ " file")
  | .text content => .ok (some (trim content))

/-- The name of the installed scheduler. -/
abbrev Installed := Except String (Option (List Char))

/-- `SchedExt::installed`. -/
def installed (files : SysFiles) : Installed :=
  if files.available then
    match files.state.read "status" with
    | .error text => .error text
    | .ok none => .ok none
    | .ok (some status) =>
        if status = "disabled".toList ∨ status = "enabling".toList then .ok none
        else if status ≠ "enabled".toList then
          .error ("Unexpected status: " ++ String.ofList status)
        else files.ops.read "ops"
  else .ok none

theorem SysFile.read_eq_some_iff {file : SysFile} {what : String} {content : List Char} :
    file.read what = .ok (some content) ↔ ∃ text, file = .text text ∧ trim text = content := by
  cases file <;> simp [SysFile.read]

/-- A scheduler is found exactly when the state is `enabled` and its name can be
read. -/
theorem installed_eq_some_iff {files : SysFiles} {name : List Char} :
    installed files = .ok (some name) ↔
      files.available = true ∧
        (∃ state, files.state = .text state ∧ trim state = "enabled".toList) ∧
        ∃ ops, files.ops = .text ops ∧ trim ops = name := by
  rw [← @SysFile.read_eq_some_iff files.state "status", ← @SysFile.read_eq_some_iff files.ops "ops"]
  constructor
  case mp =>
    intro found
    unfold installed at found
    split at found
    case isTrue available =>
      split at found
      · cases found
      · cases found
      · rename_i status read
        split at found
        · cases found
        · split at found
          · cases found
          · rename_i enabled
            rw [not_not] at enabled
            exact ⟨available, by rw [read, enabled], found⟩
    case isFalse => cases found
  case mpr =>
    rintro ⟨available, enabled, named⟩
    have started : ¬("enabled".toList = "disabled".toList ∨
        "enabled".toList = "enabling".toList) := by
      decide
    simp only [installed, available, enabled, if_true, if_neg started, ne_eq, not_true, if_false]
    exact named

end Schtest.Sched
