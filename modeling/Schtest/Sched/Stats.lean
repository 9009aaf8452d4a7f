import Schtest.Cgroup.Create
import Schtest.Collections.Assignments
import Schtest.Topology.Core

/-!
# Scheduler statistics of a thread

`Sched::get_thread_stats` reads the lines `key : value` of `/proc/<tid>/sched`.
The keys may come in any order, with any blanks around them and around the
values; lines without a known key, or with a value that does not parse, are
skipped, and of two lines with one key the later one counts.
-/

namespace Schtest.Sched

open Schtest.Cgroup Schtest.Collections Schtest.Topology

/-- `u64`. -/
abbrev U64 := BitVec 64

/-! ## The source -/

/-- The fields that are read as `u64`. -/
inductive Counter
  | nrMigrations
  | nrFailedMigrations
  | nrForcedMigrations
  | nrVoluntarySwitches
  | nrInvoluntarySwitches
  | nrSwitches
  | nrPreemptions
  | nrWakeups
  | nrWakeupsSync
  | nrWakeupsMigrate
  | nrWakeupsLocal
  | nrWakeupsRemote
  | nrYields
  | waitCount
  deriving DecidableEq, Repr

/-- The fields that are read as `f64`. -/
inductive Wait
  | waitSum
  | waitMax
  deriving DecidableEq, Repr

/-- The fields that are read from the file. -/
inductive Field
  | counter (counter : Counter)
  | wait (wait : Wait)
  deriving DecidableEq, Repr

namespace Field

/-- The type of the field, with `F` for `f64`. -/
abbrev Value (F : Type) : Field → Type
  | .counter _ => U64
  | .wait _ => F

/-- The key of the field in the file. -/
def key : Field → List Char
  | .counter .nrMigrations => "nr_migrations".toList
  | .counter .nrFailedMigrations => "nr_failed_migrations".toList
  | .counter .nrForcedMigrations => "nr_forced_migrations".toList
  | .counter .nrVoluntarySwitches => "nr_voluntary_switches".toList
  | .counter .nrInvoluntarySwitches => "nr_involuntary_switches".toList
  | .counter .nrSwitches => "nr_switches".toList
  | .counter .nrPreemptions => "nr_preemptions".toList
  | .counter .nrWakeups => "nr_wakeups".toList
  | .counter .nrWakeupsSync => "nr_wakeups_sync".toList
  | .counter .nrWakeupsMigrate => "nr_wakeups_migrate".toList
  | .counter .nrWakeupsLocal => "nr_wakeups_local".toList
  | .counter .nrWakeupsRemote => "nr_wakeups_remote".toList
  | .counter .nrYields => "nr_yields".toList
  | .wait .waitSum => "wait_sum".toList
  | .wait .waitMax => "wait_max".toList
  | .counter .waitCount => "wait_count".toList

/-- The arms of the `match`, in order. -/
def all : List Field :=
  [.counter .nrMigrations, .counter .nrFailedMigrations, .counter .nrForcedMigrations,
    .counter .nrVoluntarySwitches, .counter .nrInvoluntarySwitches, .counter .nrSwitches,
    .counter .nrPreemptions, .counter .nrWakeups, .counter .nrWakeupsSync,
    .counter .nrWakeupsMigrate, .counter .nrWakeupsLocal, .counter .nrWakeupsRemote,
    .counter .nrYields, .wait .waitSum, .wait .waitMax, .counter .waitCount]

/-- The `match` on the key. -/
def ofKey (key : List Char) : Option Field :=
  all.find? fun field => field.key = key

end Field

/-- `line.find(':')`, with what is before and behind the colon. -/
def splitColon (line : List Char) : Option (List Char × List Char) :=
  if ':' ∈ line then some (line.takeWhile (· ≠ ':'), (line.dropWhile (· ≠ ':')).tail) else none

/-- `text.parse::<u64>()`. -/
def parseU64 (text : List Char) : Option U64 :=
  let digits :=
    match text with
    | '+' :: digits => digits
    | digits => digits
  ((parseDigits digits).filter (· < 2 ^ 64)).map (BitVec.ofNat 64)

variable {F : Type} (parseF64 : List Char → Option F)

/-- The value of the field, where it parses. -/
def Field.parse : (field : Field) → List Char → Option (field.Value F)
  | .counter _, text => parseU64 text
  | .wait _, text => parseF64 text

/-- The field that a line sets. -/
def readLine (line : List Char) : Option (Σ field : Field, field.Value F) :=
  (splitColon line).bind fun (key, value) =>
    (Field.ofKey (trim key)).bind fun field =>
      (field.parse parseF64 (trim value)).map fun parsed => ⟨field, parsed⟩

variable [Zero F]

/-- `SchedStats::default()`. -/
def Field.default : (field : Field) → field.Value F
  | .counter _ => (0 : U64)
  | .wait _ => (0 : F)

/-- The fields of `SchedStats` that are read from the file. -/
abbrev Fields (F : Type) :=
  ∀ field : Field, field.Value F

/-- One turn of the loop over the lines. -/
def readOne (fields : Fields F) (line : List Char) : Fields F :=
  match readLine parseF64 line with
  | some found => Function.update fields found.1 found.2
  | none => fields

/-- The loop over the lines of the file. -/
def readFields (content : List Char) : Fields F :=
  (lines content).foldl (readOne parseF64) Field.default

/-! ## Any file -/

/-- The last line that sets a field decides. -/
theorem readFields_apply (content : List Char) (field : Field) :
    readFields parseF64 content field =
      (lastAssigned ((lines content).filterMap (readLine parseF64)) field).getD field.default := by
  have folded := foldl_eq_assign (readOne parseF64) (readLine parseF64)
    (fun fields line skipped => by rw [readOne, skipped])
    (fun fields line found here => by rw [readOne, here]) Field.default (lines content)
  rw [readFields, folded, assign_apply]

/-! ## Blanks -/

omit [Zero F]

/-- Some blanks within a line. -/
structure Blanks where
  text : List Char
  blank : ∀ c ∈ text, isWhitespace c = true
  one_line : '\n' ∉ text

/-- A word, with no blank in it. -/
structure IsWord (word : List Char) : Prop where
  nonempty : word ≠ []
  solid : ∀ c ∈ word, isWhitespace c = false

theorem dropWhile_blanks {word : List Char} (isWord : IsWord word) (before : List Char)
    (blank : ∀ c ∈ before, isWhitespace c = true) (behind : List Char) :
    (before ++ (word ++ behind)).dropWhile isWhitespace = word ++ behind := by
  rw [List.dropWhile_append_of_pos blank]
  obtain ⟨first, rest, rfl⟩ := List.exists_cons_of_ne_nil isWord.nonempty
  have solid := isWord.solid first List.mem_cons_self
  rw [List.cons_append, List.dropWhile_cons_of_neg (by simp [solid])]

theorem IsWord.reverse {word : List Char} (isWord : IsWord word) : IsWord word.reverse where
  nonempty := by simpa using isWord.nonempty
  solid c member := isWord.solid c (List.mem_reverse.mp member)

theorem trim_blanks {word : List Char} (isWord : IsWord word) {before behind : List Char}
    (blankBefore : ∀ c ∈ before, isWhitespace c = true)
    (blankBehind : ∀ c ∈ behind, isWhitespace c = true) :
    trim (before ++ (word ++ behind)) = word := by
  have blankReverse : ∀ c ∈ behind.reverse, isWhitespace c = true :=
    fun c member => blankBehind c (List.mem_reverse.mp member)
  rw [trim, dropWhile_blanks isWord before blankBefore, List.reverse_append]
  have again := dropWhile_blanks isWord.reverse behind.reverse blankReverse []
  rw [List.append_nil] at again
  rw [again, List.reverse_reverse]

/-- What is no blank is kept. -/
theorem mem_trim {text : List Char} {c : Char} (member : c ∈ text)
    (solid : isWhitespace c = false) : c ∈ trim text := by
  have kept {rest : List Char} (inside : c ∈ rest) : c ∈ rest.dropWhile isWhitespace := by
    rw [← @List.takeWhile_append_dropWhile _ isWhitespace rest] at inside
    rcases List.mem_append.mp inside with blank | later
    · rw [List.mem_takeWhile_imp blank] at solid
      contradiction
    · exact later
  rw [trim, List.mem_reverse]
  exact kept (List.mem_reverse.mpr (kept member))

theorem eq_of_splitColon {line front behind : List Char}
    (split : splitColon line = some (front, behind)) : line = front ++ ':' :: behind := by
  unfold splitColon at split
  split at split
  case isTrue member =>
    cases split
    have parts := @List.takeWhile_append_dropWhile _ (fun c => decide (c ≠ ':')) line
    cases later : line.dropWhile (fun c => decide (c ≠ ':')) with
    | nil =>
        rw [later, List.append_nil] at parts
        rw [← parts] at member
        have other := List.mem_takeWhile_imp member
        exact absurd other (by decide)
    | cons first rest =>
        have colon := List.head?_dropWhile_not (fun c => decide (c ≠ ':')) line
        rw [later] at colon
        have same : first = ':' := by
          simpa using colon
        rw [later, same] at parts
        exact parts.symm
  case isFalse => contradiction

theorem notMem_of_splitColon {line front behind : List Char}
    (split : splitColon line = some (front, behind)) : ':' ∉ front := by
  unfold splitColon at split
  split at split
  case isTrue _ =>
    cases split
    intro member
    have other := List.mem_takeWhile_imp member
    exact absurd other (by decide)
  case isFalse => contradiction

theorem splitColon_append {front : List Char} (no_colon : ':' ∉ front) (behind : List Char) :
    splitColon (front ++ ':' :: behind) = some (front, behind) := by
  have differ : ∀ c ∈ front, decide (c ≠ ':') = true := by
    intro c member
    have differs : c ≠ ':' := by
      rintro rfl
      exact no_colon member
    simpa using differs
  rw [splitColon, if_pos (by simp), List.takeWhile_append_of_pos differ,
    List.dropWhile_append_of_pos differ]
  simp

/-! ## A file of such lines -/

/-- A line `key : value` for a field, whose value parses. -/
structure Entry where
  field : Field
  value : field.Value F
  word : List Char
  isWord : IsWord word
  parses : field.parse parseF64 word = some value
  beforeKey : Blanks
  behindKey : Blanks
  beforeValue : Blanks
  behindValue : Blanks

/-- A line that sets no field: it has no colon, or what is before the first one
is not the key of a field, or what is behind it is not a value of the field. -/
inductive Foreign (line : List Char) : Prop
  | noColon : ':' ∉ line → Foreign line
  | key (front behind : List Char) : line = front ++ ':' :: behind → ':' ∉ front →
      (∀ field : Field, trim front ≠ field.key) → Foreign line
  | value (field : Field) (front behind : List Char) : line = front ++ ':' :: behind →
      trim front = field.key → field.parse parseF64 (trim behind) = none → Foreign line

/-- A line of the file: one for a field, or another. -/
inductive Line
  | entry (entry : Entry parseF64)
  | other (text : List Char) (one_line : '\n' ∉ text)
      (foreign : Foreign parseF64 (stripReturn text))

variable {parseF64}

namespace Entry

variable (entry : Entry parseF64)

/-- What is before the colon. -/
def front : List Char :=
  entry.beforeKey.text ++ (entry.field.key ++ entry.behindKey.text)

/-- The line, without its end. -/
def text : List Char :=
  entry.front ++ ':' :: (entry.beforeValue.text ++ (entry.word ++ entry.behindValue.text))

/-- What the line sets. -/
def assignment : Σ field : Field, field.Value F :=
  ⟨entry.field, entry.value⟩

end Entry

namespace Line

/-- The line, without its end. -/
def text : Line parseF64 → List Char
  | .entry set => set.text
  | .other text _ _ => text

/-- What the line sets, if anything. -/
def assignment? : Line parseF64 → Option (Σ field : Field, field.Value F)
  | .entry set => some set.assignment
  | .other _ _ _ => none

end Line

/-- The file with these lines. -/
def fileOf (file : List (Line parseF64)) : List Char :=
  file.flatMap fun line => line.text ++ ['\n']

/-! ## What is read from it -/

theorem Blanks.colon_notMem (blanks : Blanks) : ':' ∉ blanks.text :=
  fun member => absurd (blanks.blank _ member) (by decide)

theorem Field.isWord_key (field : Field) : IsWord field.key := by
  constructor
  case nonempty =>
    rcases field with counter | wait
    · cases counter <;> decide
    · cases wait <;> decide
  case solid =>
    have solid : field.key.all (fun c => !isWhitespace c) = true := by
      rcases field with counter | wait
      · cases counter <;> rfl
      · cases wait <;> rfl
    intro c member
    simpa using List.all_eq_true.mp solid c member

theorem Field.notMem_key (field : Field) :
    ':' ∉ field.key ∧ '\n' ∉ field.key ∧ '(' ∉ field.key := by
  rcases field with counter | wait
  · cases counter <;> decide
  · cases wait <;> decide

theorem Field.ofKey_key (field : Field) : Field.ofKey field.key = some field := by
  rcases field with counter | wait
  · cases counter <;> decide
  · cases wait <;> decide

/-- The arms of the `match` have no other keys. -/
theorem Field.ofKey_eq_none {key : List Char} (other : ∀ field : Field, key ≠ field.key) :
    Field.ofKey key = none := by
  rw [Field.ofKey, List.find?_eq_none]
  intro field _ same
  exact other field (of_decide_eq_true same).symm

theorem Field.key_eq_of_ofKey {key : List Char} {field : Field}
    (found : Field.ofKey key = some field) : key = field.key := by
  unfold Field.ofKey at found
  have named := List.find?_some found
  exact (of_decide_eq_true named).symm

/-- A carriage return at the end of the line is a blank like the others. -/
def Blanks.strip (blanks : Blanks) : Blanks where
  text := stripReturn blanks.text
  blank c member := blanks.blank c (stripReturn_subset _ member)
  one_line member := blanks.one_line (stripReturn_subset _ member)

theorem IsWord.newline_notMem {word : List Char} (isWord : IsWord word) : '\n' ∉ word :=
  fun member => absurd (isWord.solid _ member) (by decide)

theorem IsWord.stripReturn_append {word : List Char} (isWord : IsWord word) (behind : List Char) :
    stripReturn (word ++ behind) = word ++ stripReturn behind := by
  by_cases bare : behind = []
  · subst bare
    have last : word.getLast? ≠ some '\r' := by
      intro returns
      have solid := isWord.solid '\r' (List.mem_of_getLast? returns)
      exact absurd solid (by decide)
    rw [List.append_nil, stripReturn, if_neg last]
    exact (List.append_nil word).symm
  · exact Cgroup.stripReturn_append bare word

variable (entry : Entry parseF64)

theorem Entry.newline_notMem_text : '\n' ∉ entry.text := by
  have key := entry.field.notMem_key.2.1
  have word := entry.isWord.newline_notMem
  simp [Entry.text, Entry.front, entry.beforeKey.one_line, entry.behindKey.one_line,
    entry.beforeValue.one_line, entry.behindValue.one_line, key, word]

theorem Entry.stripReturn_text :
    stripReturn entry.text = Entry.text { entry with behindValue := entry.behindValue.strip } := by
  have nonempty : entry.word ++ entry.behindValue.text ≠ [] := by
    simp [entry.isWord.nonempty]
  have stripped := Cgroup.stripReturn_append nonempty
    (entry.front ++ ':' :: entry.beforeValue.text)
  rw [entry.isWord.stripReturn_append] at stripped
  simpa [Entry.text, Entry.front, Blanks.strip] using stripped

theorem Entry.readLine_text : readLine parseF64 entry.text = some entry.assignment := by
  have no_colon : ':' ∉ entry.front := by
    simp [Entry.front, entry.beforeKey.colon_notMem, entry.behindKey.colon_notMem,
      entry.field.notMem_key.1]
  have key : trim entry.front = entry.field.key :=
    trim_blanks entry.field.isWord_key entry.beforeKey.blank entry.behindKey.blank
  have value : trim (entry.beforeValue.text ++ (entry.word ++ entry.behindValue.text)) =
      entry.word :=
    trim_blanks entry.isWord entry.beforeValue.blank entry.behindValue.blank
  simp only [readLine, Entry.text, splitColon_append no_colon, Option.bind_some, key, value,
    entry.field.ofKey_key, entry.parses, Option.map_some, Entry.assignment]

theorem readLine_of_foreign {line : List Char} (foreign : Foreign parseF64 line) :
    readLine parseF64 line = none := by
  cases foreign with
  | noColon absent => rw [readLine, splitColon, if_neg absent, Option.bind_none]
  | key front behind split no_colon other =>
      subst split
      simp only [readLine, splitColon_append no_colon, Option.bind_some, Field.ofKey_eq_none other,
        Option.bind_none]
  | value field front behind split named rejected =>
      subst split
      have no_colon : ':' ∉ front := by
        intro member
        have kept := mem_trim member (by decide)
        rw [named] at kept
        exact field.notMem_key.1 kept
      simp only [readLine, splitColon_append no_colon, Option.bind_some, named, field.ofKey_key,
        rejected, Option.map_none]

/-- Every line is read by itself. -/
theorem Line.readLine_text (line : Line parseF64) :
    readLine parseF64 (stripReturn line.text) = line.assignment? := by
  cases line with
  | entry set =>
      rw [Line.text, set.stripReturn_text]
      exact Entry.readLine_text _
  | other text one_line foreign => exact readLine_of_foreign foreign

theorem Line.newline_notMem_text (line : Line parseF64) : '\n' ∉ line.text := by
  cases line with
  | entry set => exact set.newline_notMem_text
  | other text one_line foreign => exact one_line

theorem lines_fileOf (file : List (Line parseF64)) :
    lines (fileOf file) = file.map fun line => stripReturn line.text := by
  induction file with
  | nil => rfl
  | cons line rest ih =>
      have split : fileOf (line :: rest) = line.text ++ '\n' :: fileOf rest := by
        simp [fileOf]
      rw [split, lines_cons line.newline_notMem_text, ih, List.map_cons]

/-- Every field has the value of its last line in the file, and its default
where there is no such line. -/
theorem readFields_fileOf [Zero F] (parseF64 : List Char → Option F)
    (file : List (Line parseF64)) (field : Field) :
    readFields parseF64 (fileOf file) field =
      (lastAssigned (file.filterMap Line.assignment?) field).getD field.default := by
  rw [readFields_apply, lines_fileOf, List.filterMap_map]
  congr 3
  funext line
  exact line.readLine_text

/-! ## How the kernel writes a counter -/

theorem isDigit_solid {c : Char} (digit : c.isDigit = true) : isWhitespace c = false := by
  have range := Char.isDigit_iff_toNat.mp digit
  have low : 48 ≤ c.toNat := range.1
  have high : c.toNat ≤ 57 := range.2
  have solid : ¬isWhitespace c = true := by
    simp only [isWhitespace, decide_eq_true_eq]
    rintro (control | space | member)
    · omega
    · omega
    · simp only [List.mem_cons, List.not_mem_nil, or_false] at member
      omega
  simpa using solid

theorem parseU64_toDigits (n : U64) : parseU64 (Nat.toDigits 10 n.toNat) = some n := by
  have digits : ∀ c ∈ Nat.toDigits 10 n.toNat, c.isDigit = true :=
    fun c member => Nat.isDigit_of_mem_toDigits (by decide) (by decide) member
  have value : parseDigits (Nat.toDigits 10 n.toNat) = some n.toNat := by
    have nonempty : Nat.toDigits 10 n.toNat ≠ [] := Nat.toDigits_ne_nil
    have all : (Nat.toDigits 10 n.toNat).all Char.isDigit = true := List.all_eq_true.mpr digits
    rw [parseDigits, if_neg (by simp [nonempty, all])]
    exact congrArg some Nat.ofDigitChars_ten_toDigits
  have small : decide (n.toNat < 2 ^ 64) = true := decide_eq_true n.isLt
  unfold parseU64
  split
  · rename_i rest plus
    rw [plus] at digits
    exact absurd (digits '+' List.mem_cons_self) (by decide)
  · dsimp only
    rw [value, Option.filter_some, if_pos small, Option.map_some, BitVec.ofNat_toNat,
      BitVec.setWidth_eq]

theorem isWord_toDigits (n : Nat) : IsWord (Nat.toDigits 10 n) where
  nonempty := Nat.toDigits_ne_nil
  solid _ member :=
    isDigit_solid (Nat.isDigit_of_mem_toDigits (by decide) (by decide) member)

/-- A line for a counter, with its value in decimal. -/
def Entry.ofCounter (parseF64 : List Char → Option F) (counter : Counter) (n : U64)
    (beforeKey behindKey beforeValue behindValue : Blanks) : Entry parseF64 where
  field := .counter counter
  value := n
  word := Nat.toDigits 10 n.toNat
  isWord := isWord_toDigits n.toNat
  parses := parseU64_toDigits n
  beforeKey := beforeKey
  behindKey := behindKey
  beforeValue := beforeValue
  behindValue := behindValue

/-! ## The line of the name

The first line holds the name of the thread, which may be any text: a name such as
`nr_yields:7` sets no field, since the thread's number follows it in brackets. -/

theorem isDigit_of_parseU64 {text : List Char} {n : U64} (parses : parseU64 text = some n) :
    ∀ c ∈ text, c = '+' ∨ c.isDigit = true := by
  have digits {rest : List Char} {value : Nat} (found : parseDigits rest = some value) :
      ∀ c ∈ rest, c.isDigit = true := by
    unfold parseDigits at found
    split at found
    · contradiction
    · rename_i shape
      exact List.all_eq_true.mp (not_not.mp (not_or.mp shape).2)
  unfold parseU64 at parses
  obtain ⟨value, filtered, _⟩ := Option.map_eq_some_iff.mp parses
  have found := (Option.filter_eq_some_iff.mp filtered).1
  split at found
  · rename_i rest
    exact List.forall_mem_cons.mpr ⟨Or.inl rfl, fun c member => Or.inr (digits found c member)⟩
  · exact fun c member => Or.inr (digits found c member)

theorem foreign_of_bracket {line : List Char} (bracket : '(' ∈ line)
    (rejects : ∀ text, '(' ∈ text → parseF64 text = none) : Foreign parseF64 line := by
  cases split : splitColon line with
  | none =>
      unfold splitColon at split
      split at split
      · contradiction
      · rename_i absent
        exact .noColon absent
  | some parts =>
      obtain ⟨front, behind⟩ := parts
      have no_colon := notMem_of_splitColon split
      have whole := eq_of_splitColon split
      cases found : Field.ofKey (trim front) with
      | none =>
          refine .key front behind whole no_colon fun field same => ?_
          rw [same, field.ofKey_key] at found
          contradiction
      | some field =>
          have named := Field.key_eq_of_ofKey found
          refine .value field front behind whole named ?_
          -- the bracket is not in the key, so it is in the value
          rw [whole] at bracket
          have kept : '(' ∈ trim behind := by
            rcases List.mem_append.mp bracket with inKey | inValue
            · have inside := mem_trim inKey (by decide)
              rw [named] at inside
              exact absurd inside field.notMem_key.2.2
            · exact mem_trim ((List.mem_cons.mp inValue).resolve_left (by decide)) (by decide)
          cases field with
          | counter counter =>
              rw [Option.eq_none_iff_forall_ne_some]
              intro parsed parses
              rcases isDigit_of_parseU64 parses _ kept with plus | digit
              · exact absurd plus (by decide)
              · exact absurd digit (by decide)
          | wait wait => exact rejects _ kept

theorem mem_stripReturn {text : List Char} {c : Char} (member : c ∈ text) (other : c ≠ '\r') :
    c ∈ stripReturn text := by
  rcases stripReturn_cases text with ends | ⟨same, _⟩
  · rw [ends] at member
    rcases List.mem_append.mp member with inside | last
    · exact inside
    · exact absurd (List.mem_singleton.mp last) other
  · rwa [same]

/-- The line of a thread's name. -/
def Line.ofName (rejects : ∀ text, '(' ∈ text → parseF64 text = none) (name number : List Char)
    (one_line : '\n' ∉ name ++ '(' :: number) : Line parseF64 :=
  .other (name ++ '(' :: number) one_line
    (foreign_of_bracket (mem_stripReturn (by simp) (by decide)) rejects)

theorem parseDigits_of_bracket (text : List Char) (bracket : '(' ∈ text) :
    parseDigits text = none := by
  rw [parseDigits, if_pos]
  right
  intro digits
  exact absurd (List.all_eq_true.mp digits _ bracket) (by decide)

/-- A thread whose name looks like a line of the file, and a counter with three
lines, of which the second does not parse; `f64` is read as whole numbers. -/
theorem readFields_fileOf_named :
    ∃ file : List (Line parseDigits),
      fileOf file = ("nr_yields:7 (12, #threads: 1)\n-----\n  nr_switches : 5\n" ++
        "nr_switches: many\nnr_switches :9\r\nwait_max : 3\n").toList ∧
      readFields parseDigits (fileOf file) (.counter .nrSwitches) = (9 : U64) ∧
      readFields parseDigits (fileOf file) (.counter .nrYields) = (0 : U64) ∧
      readFields parseDigits (fileOf file) (.wait .waitMax) = (3 : Nat) := by
  let none_ : Blanks := ⟨[], by simp, by simp⟩
  let one : Blanks := ⟨[' '], List.forall_mem_singleton.mpr rfl, by decide⟩
  let two : Blanks :=
    ⟨[' ', ' '], List.forall_mem_cons.mpr ⟨rfl, List.forall_mem_singleton.mpr rfl⟩, by decide⟩
  let return_ : Blanks := ⟨['\r'], List.forall_mem_singleton.mpr rfl, by decide⟩
  let file : List (Line parseDigits) :=
    [.ofName parseDigits_of_bracket "nr_yields:7 ".toList "12, #threads: 1)".toList (by decide),
      .other "-----".toList (by decide) (.noColon (by decide)),
      .entry (.ofCounter parseDigits .nrSwitches 5 two one one none_),
      .other "nr_switches: many".toList (by decide)
        (.value (.counter .nrSwitches) "nr_switches".toList " many".toList rfl rfl rfl),
      .entry (.ofCounter parseDigits .nrSwitches 9 none_ one none_ return_),
      .entry ⟨.wait .waitMax, (3 : Nat), ['3'], ⟨by simp, List.forall_mem_singleton.mpr rfl⟩, rfl,
        none_, one, one, none_⟩]
  refine ⟨file, by decide, ?_, ?_, ?_⟩
  · rw [readFields_fileOf]
    rfl
  · rw [readFields_fileOf]
    rfl
  · rw [readFields_fileOf]
    rfl

end Schtest.Sched
