import Mathlib
import Telemetry.Proofs.Net.IpTexts
import Telemetry.Proofs.Net.UriParts

/-! Hosts as they are written: names of labels, and addresses. In a URI a host either has no colons
or is an address in brackets (`Host.form`). -/

namespace Telemetry

def isLabelChar (c : Char) : Bool := c.isAlphanum || c == '-' || c == '_'

/-- A character of a name, or of the octets and groups of an address. -/
def isHostChar (c : Char) : Bool := isLabelChar c || c == '.'

/-- Labels with points between them that are not four octets. A name with a point at its end, which
stands for the root, is not one of these. -/
structure DomainName where
  labels : List (List Char)
  ne_nil : labels ≠ []
  all_ne_nil : labels.all (!·.isEmpty) = true
  all_isLabelChar : labels.all (·.all isLabelChar) = true
  length_le : (['.'].intercalate labels).length ≤ 253
  ne_octets : ∀ t : Ip.V4Text, t.chars ≠ ['.'].intercalate labels

def DomainName.chars (n : DomainName) : List Char := ['.'].intercalate n.labels

/-- A name or an address as it is written. -/
inductive Host
  | name (n : DomainName)
  | v4 (t : Ip.V4Text)
  | v6 (t : Ip.V6Text)

namespace Host

def chars : Host → List Char
  | .name n => n.chars
  | .v4 t => t.chars
  | .v6 t => t.chars

/-- The host in a URI. -/
def uriChars : Host → List Char
  | .v6 t => '[' :: t.chars ++ [']']
  | h => h.chars

/-- The host and a port in a URI. -/
def withPort (h : Host) (port : Nat) : List Char := h.uriChars ++ ':' :: Text.decimal port

end Host

section HostChar

variable {c x : Char}

theorem isHostChar_iff : isHostChar c = true ↔ (48 ≤ c.toNat ∧ c.toNat ≤ 57) ∨
    (65 ≤ c.toNat ∧ c.toNat ≤ 90) ∨ (97 ≤ c.toNat ∧ c.toNat ≤ 122) ∨ c.toNat = 45 ∨
      c.toNat = 95 ∨ c.toNat = 46 := by
  simp only [isHostChar, isLabelChar, Bool.or_eq_true, isAlphanum_iff, beq_iff_eq,
    ← Char.toNat_inj, Char.reduceToNat]
  omega

theorem isHostChar_of_isDigit (h : c.isDigit = true) : isHostChar c = true :=
  isHostChar_iff.mpr (.inl (isDigit_iff.mp h))

theorem isHostChar_of_isPieceChar (h : Ip.IsPieceChar c) : isHostChar c = true := by
  rw [isHostChar_iff]
  rcases h with h | rfl
  · rw [Ip.isSome_digit?_sixteen] at h
    omega
  · decide

theorem ne_of_isHostChar (h : isHostChar c = true) (hx : isHostChar x = false) : c ≠ x := by
  rintro rfl
  rw [h] at hx
  cases hx

theorem isAllowed_of_isHostChar (h : isHostChar c = true) : Authority.isAllowed c = true := by
  simp only [isHostChar, isLabelChar, Bool.or_eq_true, beq_iff_eq] at h
  rw [Authority.isAllowed, Bool.or_eq_true]
  rcases h with ((h | rfl) | rfl) | rfl
  · exact .inl h
  all_goals exact .inr (by decide)

theorem not_mem_of_isHostChar {cs : List Char} (h : ∀ c ∈ cs, isHostChar c = true)
    (hx : isHostChar x = false) : x ∉ cs := fun hm => ne_of_isHostChar (h x hm) hx rfl

theorem head?_ne_of_isHostChar {cs : List Char} (h : ∀ c ∈ cs, isHostChar c = true)
    (hx : isHostChar x = false) : cs.head? ≠ some x :=
  fun hm => not_mem_of_isHostChar h hx (List.mem_of_head? hm)

theorem count_colon_eq_zero {cs : List Char} (h : ∀ c ∈ cs, isHostChar c = true) :
    cs.count ':' = 0 :=
  List.count_eq_zero.mpr (not_mem_of_isHostChar h rfl)

end HostChar

namespace DomainName

theorem isLabelChar_of_mem {n : DomainName} {l : List Char} {c : Char} (hl : l ∈ n.labels)
    (hc : c ∈ l) : isLabelChar c = true :=
  List.all_eq_true.mp (List.all_eq_true.mp n.all_isLabelChar l hl) c hc

theorem ne_nil_of_mem {n : DomainName} {l : List Char} (hl : l ∈ n.labels) : l ≠ [] := by
  simpa using List.all_eq_true.mp n.all_ne_nil l hl

theorem isHostChar_of_mem {n : DomainName} {c : Char} (h : c ∈ n.chars) : isHostChar c = true := by
  obtain rfl | ⟨l, hl, hc⟩ := mem_intercalate h
  · decide
  · rw [isHostChar, n.isLabelChar_of_mem hl hc, Bool.true_or]

theorem chars_ne_nil (n : DomainName) : n.chars ≠ [] := by
  obtain ⟨l, ls, hl⟩ := List.exists_cons_of_ne_nil n.ne_nil
  rw [chars, hl, intercalate_cons_eq_flatMap]
  exact List.append_ne_nil_of_left_ne_nil (n.ne_nil_of_mem (hl ▸ List.mem_cons_self)) _

theorem head?_ne_dot (n : DomainName) : n.chars.head? ≠ some '.' := by
  obtain ⟨l, ls, hl⟩ := List.exists_cons_of_ne_nil n.ne_nil
  have hmem : l ∈ n.labels := hl ▸ List.mem_cons_self
  rw [chars, hl, intercalate_cons_eq_flatMap,
    List.head?_append_of_ne_nil _ (n.ne_nil_of_mem hmem)]
  exact fun h => absurd (n.isLabelChar_of_mem hmem (List.mem_of_head? h)) (by decide)

theorem ne_star (n : DomainName) : n.chars ≠ ['*'] := by
  intro h
  have hstar : isHostChar '*' = true := n.isHostChar_of_mem (h ▸ List.mem_cons_self)
  exact absurd hstar (by decide)

end DomainName

theorem Ip.V4Text.isHostChar_of_mem {t : V4Text} {c : Char} (h : c ∈ t.chars) :
    isHostChar c = true :=
  isHostChar_of_isPieceChar (V4Text.isPieceChar h)

theorem Ip.V6Text.not_mem (t : V6Text) {x : Char} (hx : isHostChar x = false) (hne : x ≠ ':') :
    x ∉ t.chars := by
  intro hm
  rcases isPieceChar_or_eq hm with h | h
  · exact ne_of_isHostChar (isHostChar_of_isPieceChar h) hx rfl
  · exact hne h

namespace Host

/-- The two forms of a host in a URI. -/
inductive Form : Host → Prop
  | plain {h : Host} (uri : h.uriChars = h.chars) (all : ∀ c ∈ h.chars, isHostChar c = true) :
      Form h
  | bracketed (t : Ip.V6Text) : Form (.v6 t)

theorem form (h : Host) : Form h := by
  cases h with
  | name n => exact .plain rfl fun c => n.isHostChar_of_mem
  | v4 t => exact .plain rfl fun c => t.isHostChar_of_mem
  | v6 t => exact .bracketed t

theorem isHostChar_of_mem {h : Host} {c : Char} (hc : c ∈ h.chars) :
    isHostChar c = true ∨ c = ':' := by
  cases h.form with
  | plain uri all => exact .inl (all c hc)
  | bracketed t => exact (Ip.V6Text.isPieceChar_or_eq hc).imp_left isHostChar_of_isPieceChar

theorem length_chars_le (h : Host) : h.chars.length ≤ 253 := by
  cases h with
  | name n => exact n.length_le
  | v4 t => exact t.length_chars_le.trans (by decide)
  | v6 t => exact t.length_chars_le.trans (by decide)

end Host

end Telemetry
