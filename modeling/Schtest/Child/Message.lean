import Mathlib.Algebra.Group.Nat.Defs

/-!
# Results across the pipe

A child writes the text of its error into a pipe, or nothing, and exits with
code 0 in both cases.  The parent decides from exit status and pipe contents
what the result was.
-/

namespace Schtest.Child

universe u

/-- A `Result<()>` whose error is known by its text. -/
abbrev Result := Except String Unit

/-! ## Text as bytes -/

/-- `text.as_bytes()`. -/
def asBytes (text : String) : List UInt8 :=
  text.toByteArray.data.toList

/-- The number of bytes of a character that begins with this byte, 0 where no
character does. -/
def charWidth (first : UInt8) : Nat :=
  if first < 0x80 then 1
  else if first < 0xC2 then 0
  else if first < 0xE0 then 2
  else if first < 0xF0 then 3
  else if first < 0xF5 then 4
  else 0

/-- The second bytes that may follow a first byte. -/
def secondByte (first second : UInt8) : Bool :=
  if first = 0xE0 then 0xA0 ≤ second && second ≤ 0xBF
  else if first = 0xED then 0x80 ≤ second && second ≤ 0x9F
  else if first = 0xF0 then 0x90 ≤ second && second ≤ 0xBF
  else if first = 0xF4 then 0x80 ≤ second && second ≤ 0x8F
  else 0x80 ≤ second && second ≤ 0xBF

/-- Read `n` continuation bytes, stopping in front of the first other byte. -/
def continuation : Nat → Nat → List UInt8 → Option Nat × List UInt8
  | 0, scalar, bytes => (some scalar, bytes)
  | _ + 1, _, [] => (none, [])
  | n + 1, scalar, byte :: rest =>
      if 0x80 ≤ byte ∧ byte ≤ 0xBF then continuation n (scalar * 64 + byte.toNat % 64) rest
      else (none, byte :: rest)

/-- The first character, or `none` for a maximal invalid sequence, and what
follows it. -/
def decodeFirst (first : UInt8) (rest : List UInt8) : Option Nat × List UInt8 :=
  match charWidth first, rest with
  | 0, _ => (none, rest)
  | 1, _ => (some first.toNat, rest)
  | _ + 2, [] => (none, [])
  | n + 2, second :: rest' =>
      if secondByte first second then
        continuation n (first.toNat % 2 ^ (5 - n) * 64 + second.toNat % 64) rest'
      else (none, rest)

/-- Decode, with one replacement character for each maximal invalid sequence. -/
def replaceInvalid : Nat → List UInt8 → List Char
  | 0, _ => []
  | _ + 1, [] => []
  | fuel + 1, first :: rest =>
      let decoded := decodeFirst first rest
      (decoded.1.map Char.ofNat).getD '\uFFFD' :: replaceInvalid fuel decoded.2

/-- `String::from_utf8_lossy(bytes)`: valid text is taken as it is. -/
def fromUtf8Lossy (bytes : List UInt8) : String :=
  match String.fromUTF8? ⟨bytes.toArray⟩ with
  | some text => text
  | none => String.ofList (replaceInvalid bytes.length bytes)

example : replaceInvalid 4 [0x48, 0xE2, 0x82, 0x21] = ['H', '\uFFFD', '!'] := by
  decide

@[simp]
theorem fromUtf8Lossy_asBytes (text : String) : fromUtf8Lossy (asBytes text) = text := by
  have bytes : (⟨(asBytes text).toArray⟩ : ByteArray) = text.toByteArray := by
    simp [asBytes]
  rw [fromUtf8Lossy, bytes, String.fromUTF8?, dif_pos text.isValidUTF8]
  rfl

theorem asBytes_eq_nil_iff {text : String} : asBytes text = [] ↔ text = "" := by
  constructor
  case mp =>
    intro empty
    rw [← fromUtf8Lossy_asBytes text, empty]
    rw [← fromUtf8Lossy_asBytes ""]
    rfl
  case mpr =>
    rintro rfl
    rfl

/-! ## The two ends of the pipe -/

/-- What a child writes when its function has returned. -/
def encode : Result → List UInt8
  | .ok _ => []
  | .error text => asBytes text

/-- The result the parent concludes from exit code, signal and pipe contents. -/
def conclude {Signal : Type u} [ToString Signal] (exitCode : Option Int) (signal : Option Signal)
    (buffer : List UInt8) : Result :=
  match exitCode, signal with
  | some 0, _ =>
      if buffer.isEmpty then .ok ()
      else .error ("Child process error: " ++ fromUtf8Lossy buffer)
  | some code, _ => .error ("Child process exited with code " ++ toString code)
  | none, some signal => .error ("Child process was killed by signal " ++ toString signal)
  | none, none => .error "Child process exited with unknown status"

/-- The text has the other one in it. -/
def Contains (text part : String) : Prop :=
  ∃ before after, text = before ++ part ++ after

/-- The parent's result tells success from failure, with the whole text. -/
def Survives (result concluded : Result) : Prop :=
  (concluded = .ok () ↔ result = .ok ()) ∧
    ∀ text, result = .error text → ∃ message, concluded = .error message ∧ Contains message text

/-- A result survives the pipe unless it is an error without text. -/
theorem survives_conclude_iff {Signal : Type u} [ToString Signal] (signal : Option Signal)
    (result : Result) :
    Survives result (conclude (some 0) signal (encode result)) ↔ result ≠ .error "" := by
  cases result with
  | ok value =>
      cases value
      simp [Survives, conclude, encode]
  | error text =>
      by_cases empty : text = ""
      · subst empty
        refine iff_of_false ?_ (by simp)
        rintro ⟨success, _⟩
        exact absurd (success.mp rfl) (by simp)
      · have bytes : (asBytes text).isEmpty = false := by
          rw [List.isEmpty_eq_false_iff, Ne, asBytes_eq_nil_iff]
          exact empty
        have concluded : conclude (some 0) signal (encode (.error text)) =
            .error ("Child process error: " ++ text) := by
          simp [conclude, encode, bytes]
        refine iff_of_true ⟨by simp [concluded], ?_⟩ (by simpa using empty)
        intro other same
        cases same
        exact ⟨_, concluded, "Child process error: ", "", by simp⟩

end Schtest.Child
