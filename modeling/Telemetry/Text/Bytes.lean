/-! Texts as bytes. A text is written in UTF-8, and the bytes that are not the UTF-8 form of any
text are told apart. -/

namespace Telemetry

abbrev Bytes := List UInt8

namespace Text

/-- The UTF-8 form of a text. -/
def utf8 (s : String) : Bytes := s.toByteArray.data.toList

/-- How many bytes the UTF-8 form of these characters takes. -/
def utf8Length (cs : List Char) : Nat := (utf8 (String.ofList cs)).length

/-- The text whose UTF-8 form the bytes are. -/
def ofUtf8? (bs : Bytes) : Option String := String.fromUTF8? ⟨bs.toArray⟩

@[simp] theorem ofUtf8?_utf8 (s : String) : ofUtf8? (utf8 s) = some s := by
  simp only [ofUtf8?, utf8, Array.toArray_toList]
  rw [String.fromUTF8?, dif_pos s.isValidUTF8]
  rfl

/-- Only the UTF-8 form of a text is read as that text. -/
theorem utf8_of_ofUtf8? {bs : Bytes} {s : String} (h : ofUtf8? bs = some s) : utf8 s = bs := by
  unfold ofUtf8? String.fromUTF8? at h
  split at h
  · cases h
    simp [utf8, String.fromUTF8]
  · cases h

theorem utf8_injective {s t : String} (h : utf8 s = utf8 t) : s = t := by
  have := congrArg ofUtf8? h
  simpa using this

/-- How many bytes the first character takes, if the bytes start with the UTF-8 form of one. -/
def firstCharLength? (bs : Bytes) : Option Nat :=
  [1, 2, 3, 4].find? fun n => n ≤ bs.length && (ofUtf8? (bs.take n)).isSome

def validLengthFrom : (fuel : Nat) → Bytes → Nat
  | 0, _ => 0
  | fuel + 1, bs =>
    match firstCharLength? bs with
    | none => 0
    | some n => n + validLengthFrom fuel (bs.drop n)

/-- How many bytes at the beginning are the UTF-8 form of a text. -/
def validLength (bs : Bytes) : Nat := validLengthFrom bs.length bs

end Text

end Telemetry
