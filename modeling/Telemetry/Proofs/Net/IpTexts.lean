import Mathlib
import Telemetry.Proofs.Net.IpSpelling

/-! Whole texts as addresses and as networks. Each spelling stands for what it is read as, and a
text without colons that is not four octets is no address (`IpAddress.parse?_eq_none`). -/

namespace Telemetry

namespace Ip

variable {c : Char} {cs rest : List Char} {d : Dialect}

theorem V4Text.length_chars_le (t : V4Text) : t.chars.length ≤ 15 := by
  have hoctet (n : UInt8) : (Text.decimal n.toNat).length ≤ 3 :=
    Text.length_decimal_le (Nat.lt_trans n.toNat_lt (by decide))
  have h₁ := hoctet t.first
  have h₂ := hoctet t.second
  have h₃ := hoctet t.third
  have h₄ := hoctet t.fourth
  simp only [V4Text.chars, List.length_append, List.length_cons]
  omega

/-- A character of a group or of octets. -/
def IsPieceChar (c : Char) : Prop := (digit? 16 c).isSome = true ∨ c = '.'

theorem V4Text.isPieceChar {t : V4Text} (h : c ∈ t.chars) : IsPieceChar c := by
  refine (V4Text.isDigit_or_eq_of_mem h).imp_left fun hc => ?_
  rw [isDigit_iff] at hc
  exact isSome_digit?_sixteen.mpr (.inl hc)

namespace Run

variable {r : Run} {p : List Char}

theorem mem_pieces (h : p ∈ r.pieces) :
    (∃ g ∈ r.groups, p = g.digits) ∨ ∃ t : V4Text, p = t.chars := by
  simp only [pieces, List.mem_append, List.mem_map, Option.mem_toList] at h
  rcases h with ⟨g, hg, rfl⟩ | ⟨t, -, rfl⟩
  · exact .inl ⟨g, hg, rfl⟩
  · exact .inr ⟨t, rfl⟩

theorem isPieceChar (h : p ∈ r.pieces) (hc : c ∈ p) : IsPieceChar c := by
  rcases mem_pieces h with ⟨g, -, rfl⟩ | ⟨t, rfl⟩
  · exact .inl (g.isHex c hc)
  · exact V4Text.isPieceChar hc

theorem length_pieces_le (r : Run) : r.pieces.length ≤ r.values.length := by
  simp only [pieces, values, List.length_append, List.length_map]
  cases r.octets <;> simp [V4Text.groups]

theorem length_values_le (r : Run) : r.values.length ≤ r.pieces.length + 1 := by
  simp only [pieces, values, List.length_append, List.length_map]
  cases r.octets <;> simp [V4Text.groups]

theorem count_colon (r : Run) : r.chars.count ':' = r.pieces.length - 1 := by
  refine count_intercalate fun p hp hm => ?_
  rcases isPieceChar hp hm with h | h
  · exact absurd h (by decide)
  · exact absurd h (by decide)

theorem length_chars_le (r : Run) : r.chars.length ≤ 16 * r.values.length := by
  have hpiece : ∀ p ∈ r.pieces, p.length ≤ 15 := by
    intro p hp
    rcases mem_pieces hp with ⟨g, -, rfl⟩ | ⟨t, rfl⟩
    · exact Nat.le_trans g.length_le (by decide)
    · exact t.length_chars_le
  exact Nat.le_trans (length_intercalate_le hpiece) (Nat.mul_le_mul_left 16 r.length_pieces_le)

end Run

namespace V6Text

theorem count_colon_le (t : V6Text) : t.chars.count ':' ≤ 8 := by
  cases t with
  | full run length =>
    have := run.length_pieces_le
    rw [chars, run.count_colon]
    omega
  | gap head tail length =>
    have := tail.length_pieces_le
    have hhead : (Run.mk head none).pieces.length = head.length := by simp [Run.pieces]
    simp only [chars, List.count_append, List.count_cons_self, Run.count_colon, hhead]
    omega

theorem length_chars_le (t : V6Text) : t.chars.length ≤ 130 := by
  cases t with
  | full run length =>
    have := run.length_chars_le
    rw [chars]
    omega
  | gap head tail length =>
    have htail := tail.length_chars_le
    have hhead := (Run.mk head none).length_chars_le
    have hvalues : (Run.mk head none).values.length = head.length := by simp [Run.values]
    rw [hvalues] at hhead
    simp only [chars, List.length_append, List.length_cons]
    omega

theorem isPieceChar_or_eq {t : V6Text} (h : c ∈ t.chars) : IsPieceChar c ∨ c = ':' := by
  have hrun {r : Run} (h : c ∈ r.chars) : IsPieceChar c ∨ c = ':' := by
    obtain h | ⟨p, hp, h⟩ := mem_intercalate h
    · exact .inr h
    · exact .inl (Run.isPieceChar hp h)
  cases t with
  | full run length => exact hrun h
  | gap head tail length =>
    simp only [chars, List.mem_append, List.mem_cons] at h
    rcases h with h | h | h | h
    · exact hrun h
    · exact .inr h
    · exact .inr h
    · exact hrun h

theorem two_le_count_colon (t : V6Text) : 2 ≤ t.chars.count ':' := by
  cases t with
  | full run length =>
    have := run.length_values_le
    rw [chars, run.count_colon]
    omega
  | gap head tail length =>
    simp only [chars, List.count_append, List.count_cons_self]
    omega

theorem chars_ne_nil (t : V6Text) : t.chars ≠ [] := by
  have h := t.two_le_count_colon
  intro hnil
  rw [hnil] at h
  exact absurd h (by decide)

/-- An address does not start as four octets do. -/
theorem readV4_chars (t : V6Text) (h : Ends rest) : readV4 d (t.chars ++ rest) = none := by
  have hstart {rest : List Char} (g : HexGroup) (gs : List HexGroup) (octets : Option V4Text)
      (h : Stops rest) : readV4 d ((Run.mk (g :: gs) octets).chars ++ rest) = none := by
    obtain ⟨hr, hh⟩ := h.pieces (Run.mk gs octets).pieces
    rw [Run.chars_cons, List.append_assoc]
    exact readV4_eq_none g.not_mem_point (noDigit_ten hr) hh
  cases t with
  | full run length =>
    obtain ⟨gs, octets⟩ := run
    cases gs with
    | nil => cases octets <;> simp [Run.values, V4Text.groups] at length
    | cons g gs => exact hstart g gs octets h.stops
  | gap head tail length =>
    rw [chars, List.append_assoc]
    have hgap : Stops (':' :: ':' :: tail.chars ++ rest) := .gap _
    cases head with
    | nil =>
      have hempty : (Run.mk [] none).chars = [] := rfl
      rw [hempty]
      exact readV4_eq_none (by simp) (noDigit_ten hgap.noDigit) hgap.head?_ne
    | cons g gs => exact hstart g gs none hgap

end V6Text

theorem readGroups_suffix (d : Dialect) (limit : Nat) (first : Bool) (cs : List Char) :
    (readGroups d limit first cs).rest <:+ cs := by
  induction limit generalizing first cs with
  | zero => exact List.suffix_rfl
  | succ limit ih =>
    simp only [readGroups]
    split
    · exact List.suffix_rfl
    · rename_i start hstart
      have hsuffix : start <:+ cs := by
        cases first with
        | true =>
          cases hstart
          exact List.suffix_rfl
        | false =>
          rw [eq_of_expect hstart]
          exact List.suffix_cons ..
      split
      · rename_i hv4
        split at hv4
        · cases hv4
        · exact (readV4_suffix hv4).trans hsuffix
      · split
        · exact List.suffix_rfl
        · rename_i hnum
          exact ((ih false _).trans (readNumber_suffix hnum)).trans hsuffix

theorem readV6_suffix {v : BitVec 128} (h : readV6 d cs = some (v, rest)) : rest <:+ cs := by
  simp only [readV6] at h
  split at h
  · cases h
    exact readGroups_suffix ..
  · split at h
    · cases h
    · simp only [Option.bind_eq_bind, Option.bind_eq_some_iff] at h
      obtain ⟨r₁, h₁, r₂, h₂, h⟩ := h
      have hhead := readGroups_suffix d 8 true cs
      rw [eq_of_expect h₁, eq_of_expect h₂] at hhead
      simp only [Option.pure_def, Option.some.injEq, Prod.mk.injEq] at h
      obtain ⟨-, rfl⟩ := h
      exact (((readGroups_suffix ..).trans (List.suffix_cons ..)).trans
        (List.suffix_cons ..)).trans hhead

/-- Without a colon there is one group at most. -/
theorem readV6_eq_none (h : ':' ∉ cs) : readV6 d cs = none := by
  -- The reader ends after the octets, or after the first group, and finds no colon there.
  have hnone : expect ':' cs = none := expect_eq_none h
  cases hv4 : readV4 d cs with
  | some p =>
    have hhead : readGroups d 8 true cs =
        ⟨[p.1.toNat / Nat.pow 2 16, p.1.toNat % Nat.pow 2 16], true, p.2⟩ := by
      simp [readGroups, hv4]
    simp [readV6, hhead]
  | none =>
    cases hnum : readNumber 16 4 (Nat.pow 2 16) cs with
    | none =>
      have hhead : readGroups d 8 true cs = ⟨[], false, cs⟩ := by simp [readGroups, hv4, hnum]
      simp [readV6, hhead, hnone]
    | some p =>
      have hrest : expect ':' p.2 = none :=
        expect_eq_none fun hm => h ((readNumber_suffix hnum).subset hm)
      have hmore : readGroups d 7 false p.2 = ⟨[], false, p.2⟩ := readGroups_none hrest
      have hhead : readGroups d 8 true cs = ⟨[p.1], false, p.2⟩ := by
        rw [readGroups]
        simp [hv4, hnum, hmore]
      simp [readV6, hhead, hrest]

end Ip

open Ip

theorem IpAddress.parse?_v4 (t : V4Text) : parse? t.chars = some (.v4 t.value) := by
  have h := readV4_chars (d := .address) t noDigit_nil
  rw [List.append_nil] at h
  simp [parse?, h]

theorem IpAddress.parse?_v6 (t : V6Text) : parse? t.chars = some (.v6 t.value) := by
  have hv4 := t.readV4_chars (d := .address) .nil
  have hv6 := readV6_chars (d := .address) t .nil
  rw [List.append_nil] at hv4 hv6
  simp [parse?, hv4, hv6]

/-- A text without colons is an address only if it is four octets. -/
theorem IpAddress.parse?_eq_none {cs : List Char} (hcolon : ':' ∉ cs)
    (h : ∀ t : V4Text, t.chars ≠ cs) : parse? cs = none := by
  simp only [parse?, readV6_eq_none hcolon]
  cases hv4 : readV4 .address cs with
  | none => rfl
  | some p =>
    obtain ⟨t, -, rfl⟩ := exists_of_readV4 hv4
    have hne : p.2 ≠ [] := fun he => h t (by rw [he, List.append_nil])
    simp [hne]

/-- A network has a slash. -/
theorem IpNetwork.parse?_eq_none {cs : List Char} (h : '/' ∉ cs) : parse? cs = none := by
  have hv4 : ∀ p, readV4 .network cs = some p → expect '/' p.2 = none :=
    fun p hp => expect_eq_none fun hm => h ((readV4_suffix hp).subset hm)
  have hv6 : ∀ p, readV6 .network cs = some p → expect '/' p.2 = none :=
    fun p hp => expect_eq_none fun hm => h ((readV6_suffix hp).subset hm)
  simp only [parse?]
  cases h4 : readV4 .network cs <;> cases h6 : readV6 .network cs <;> simp_all

theorem IpNetwork.parse?_v4 (t : V4Text) {n : Nat} (h : n ≤ 32) :
    parse? (t.chars ++ '/' :: Text.decimal n) = some (.v4 t.value n) := by
  have hlen : (Text.decimal n).length ≤ 2 := Text.length_decimal_le (by omega)
  have hnum := readNumber_decimal hlen (Nat.lt_succ_of_le h) noDigit_nil
  have hslash : NoDigit 10 ('/' :: Text.decimal n) := noDigit_cons rfl
  have hv4 := readV4_chars (d := .network) t hslash
  rw [List.append_nil] at hnum
  simp [parse?, hv4, expect_cons, hnum]

theorem IpNetwork.parse?_v6 (t : V6Text) {n : Nat} (h : n ≤ 128) :
    parse? (t.chars ++ '/' :: Text.decimal n) = some (.v6 t.value n) := by
  have hlen : (Text.decimal n).length ≤ 3 := Text.length_decimal_le (by omega)
  have hnum := readNumber_decimal hlen (Nat.lt_succ_of_le h) noDigit_nil
  have hv4 := t.readV4_chars (d := .network) (.slash (Text.decimal n))
  have hv6 := readV6_chars (d := .network) t (.slash (Text.decimal n))
  rw [List.append_nil] at hnum
  simp [parse?, hv4, hv6, expect_cons, hnum]

end Telemetry
