import Mathlib
import Telemetry.Proofs.Net.IpNumbers
import Telemetry.Proofs.Text.Parts

/-! The spellings of IPv6 addresses, by a grammar of their own: eight groups, or fewer around a
double colon, the last two possibly written as octets. Every spelling is read as the address that it
stands for (`Ip.readV6_chars`), by itself and in front of the length of a network. -/

namespace Telemetry

namespace Ip

variable {base limit : Nat} {c : Char} {ds cs rest : List Char} {d : Dialect} {first : Bool}

theorem valueOf_lt (hb : 0 < base) : valueOf base ds < base ^ ds.length := by
  induction ds using List.reverseRecOn with
  | nil => simp [valueOf]
  | append_singleton ds c ih =>
    have hc : (digit? base c).getD 0 < base := by
      cases h : digit? base c with
      | none => exact hb
      | some n =>
        simp only [digit?] at h
        split_ifs at h <;> simp_all
    rw [valueOf_concat, List.length_append, List.length_singleton, Nat.pow_succ]
    calc valueOf base ds * base + (digit? base c).getD 0
        < valueOf base ds * base + base := Nat.add_lt_add_left hc _
      _ = (valueOf base ds + 1) * base := (Nat.succ_mul ..).symm
      _ ≤ base ^ ds.length * base := Nat.mul_le_mul_right base ih

/-- A group of sixteen bits as it is written. -/
structure HexGroup where
  digits : List Char
  all_isHex : digits.all (fun c => (digit? 16 c).isSome) = true
  ne_nil : digits ≠ []
  length_le : digits.length ≤ 4

theorem HexGroup.isHex (g : HexGroup) : ∀ c ∈ g.digits, (digit? 16 c).isSome = true :=
  List.all_eq_true.mp g.all_isHex

theorem HexGroup.not_mem_point (g : HexGroup) : '.' ∉ g.digits :=
  fun hm => absurd (g.isHex _ hm) (by decide)

def HexGroup.value (g : HexGroup) : Nat := valueOf 16 g.digits

theorem HexGroup.value_lt (g : HexGroup) : g.value < Nat.pow 2 16 :=
  calc g.value < 16 ^ g.digits.length := valueOf_lt (by decide)
    _ ≤ 16 ^ 4 := Nat.pow_le_pow_right (by decide) g.length_le

/-- The two groups in whose place the octets stand. -/
def V4Text.groups (t : V4Text) : List Nat :=
  [t.value.toNat / Nat.pow 2 16, t.value.toNat % Nat.pow 2 16]

/-- Groups with colons between them, and possibly octets in the place of the last two. -/
structure Run where
  groups : List HexGroup
  octets : Option V4Text

namespace Run

def pieces (r : Run) : List (List Char) :=
  r.groups.map HexGroup.digits ++ r.octets.toList.map V4Text.chars

def chars (r : Run) : List Char := [':'].intercalate r.pieces

theorem chars_cons (g : HexGroup) (gs : List HexGroup) (octets : Option V4Text) :
    (Run.mk (g :: gs) octets).chars =
      g.digits ++ (Run.mk gs octets).pieces.flatMap (':' :: ·) :=
  intercalate_cons_eq_flatMap ':' g.digits _

def values (r : Run) : List Nat :=
  r.groups.map HexGroup.value ++ (r.octets.map V4Text.groups).getD []

end Run

/-- An IPv6 address as it is written. The double colon stands for one group of zeros or more. -/
inductive V6Text
  | full (run : Run) (length : run.values.length = 8)
  | gap (head : List HexGroup) (tail : Run) (length : head.length + tail.values.length ≤ 7)

namespace V6Text

def chars : V6Text → List Char
  | .full run _ => run.chars
  | .gap head tail _ => (Run.mk head none).chars ++ ':' :: ':' :: tail.chars

def value : V6Text → BitVec 128
  | .full run _ => ofGroups run.values []
  | .gap head tail _ => ofGroups (head.map HexGroup.value) tail.values

end V6Text

/-- What groups are not continued by: the end, the length of a network, or a double colon. -/
inductive Stops : List Char → Prop
  | nil : Stops []
  | slash (after : List Char) : Stops ('/' :: after)
  | gap (after : List Char) : Stops (':' :: ':' :: after)

theorem readNumber_eq_none (h : NoDigit base cs) (width : Nat) :
    readNumber base width limit cs = none := by
  cases hn : readNumber base width limit cs with
  | none => rfl
  | some p =>
    obtain ⟨ds, rfl, hne, hd, -⟩ := readNumber_eq_some hn
    obtain ⟨e, ds, rfl⟩ := List.exists_cons_of_ne_nil hne
    have := hd e List.mem_cons_self
    rw [h e rfl] at this
    cases this

theorem noDigit_ten (h : NoDigit 16 rest) : NoDigit 10 rest := by
  intro c hc
  have hc := h c hc
  rw [← Option.not_isSome_iff_eq_none] at hc ⊢
  rw [isSome_digit?_sixteen] at hc
  rw [isSome_digit?_ten, isDigit_iff]
  omega

theorem Stops.noDigit (h : Stops rest) : NoDigit 16 rest := by
  cases h with
  | nil => exact noDigit_nil
  | slash => exact noDigit_cons rfl
  | gap => exact noDigit_cons rfl

theorem Stops.head?_ne (h : Stops rest) : rest.head? ≠ some '.' := by
  cases h <;> simp

theorem readGroups_none (h : (if first then some cs else expect ':' cs) = none) :
    readGroups d limit first cs = ⟨[], false, cs⟩ := by
  cases limit with
  | zero => rfl
  | succ limit => simp only [readGroups, h]

theorem readGroups_no_group (start : List Char)
    (h : (if first then some cs else expect ':' cs) = some start) (hr : NoDigit 16 start)
    (hh : start.head? ≠ some '.') : readGroups d limit first cs = ⟨[], false, cs⟩ := by
  have hv4 : readV4 d ([] ++ start) = none := readV4_eq_none (by simp) (noDigit_ten hr) hh
  rw [List.nil_append] at hv4
  cases limit with
  | zero => rfl
  | succ limit => simp only [readGroups, h, hv4, ite_self, readNumber_eq_none hr]

theorem readGroups_stop (h : Stops rest) (limit : Nat) (first : Bool) :
    readGroups d limit first rest = ⟨[], false, rest⟩ := by
  cases first with
  | true => exact readGroups_no_group _ rfl h.noDigit h.head?_ne
  | false =>
    cases h with
    | nil => exact readGroups_none rfl
    | slash => exact readGroups_none rfl
    | gap after =>
      exact readGroups_no_group (':' :: after) rfl (noDigit_cons rfl) (by simp)

theorem readGroups_group (g : HexGroup)
    (h : (if first then some cs else expect ':' cs) = some (g.digits ++ rest))
    (hr : NoDigit 16 rest) (hh : rest.head? ≠ some '.') :
    readGroups d (limit + 1) first cs =
      { readGroups d limit false rest with
        groups := g.value :: (readGroups d limit false rest).groups } := by
  have hv4 : readV4 d (g.digits ++ rest) = none :=
    readV4_eq_none g.not_mem_point (noDigit_ten hr) hh
  have hnum := readNumber_append g.ne_nil g.isHex g.length_le g.value_lt hr
  simp only [readGroups, h, hv4, ite_self, hnum]
  rfl

theorem readGroups_octets (t : V4Text)
    (h : (if first then some cs else expect ':' cs) = some (t.chars ++ rest))
    (hr : NoDigit 10 rest) :
    readGroups d (limit + 2) first cs = ⟨t.groups, true, rest⟩ := by
  simp only [readGroups, h, readV4_chars t hr, if_neg (Nat.succ_ne_zero limit)]
  rfl

/-- Neither groups nor what they are not continued by go on with a number. -/
theorem Stops.pieces (h : Stops rest) (ps : List (List Char)) :
    NoDigit 16 (ps.flatMap (':' :: ·) ++ rest) ∧
      (ps.flatMap (':' :: ·) ++ rest).head? ≠ some '.' := by
  cases ps with
  | nil => exact ⟨h.noDigit, h.head?_ne⟩
  | cons p ps => exact ⟨noDigit_cons rfl, by simp⟩

/-- Groups that follow a colon each. -/
theorem readGroups_pieces {r : Run} (hsize : r.values.length ≤ limit) (h : Stops rest) :
    readGroups d limit false (r.pieces.flatMap (':' :: ·) ++ rest) =
      ⟨r.values, r.octets.isSome, rest⟩ := by
  obtain ⟨gs, octets⟩ := r
  induction gs generalizing limit with
  | nil =>
    cases octets with
    | none => exact readGroups_stop h limit false
    | some t =>
      -- Octets count as two groups, so the last place, where none are read, is not theirs.
      obtain ⟨limit, rfl⟩ := Nat.exists_eq_add_of_le' (show 2 ≤ limit from hsize)
      have hstart : ([t.chars].flatMap (':' :: ·) ++ rest) = ':' :: (t.chars ++ rest) := by simp
      simp only [Run.pieces, List.map_nil, Option.toList_some, List.map_cons, List.nil_append,
        hstart]
      exact readGroups_octets t rfl (noDigit_ten h.noDigit)
  | cons g gs ih =>
    obtain ⟨limit, rfl⟩ := Nat.exists_eq_add_one_of_ne_zero (Nat.ne_zero_of_lt hsize)
    have ih := @ih limit (by simpa [Run.values] using hsize)
    obtain ⟨hr, hh⟩ := h.pieces (Run.mk gs octets).pieces
    have hstart : (Run.mk (g :: gs) octets).pieces.flatMap (':' :: ·) ++ rest =
        ':' :: (g.digits ++ ((Run.mk gs octets).pieces.flatMap (':' :: ·) ++ rest)) := by
      simp [Run.pieces]
    rw [hstart, readGroups_group g rfl hr hh, ih]
    rfl

/-- Groups of which the first stands by itself. -/
theorem readGroups_run {r : Run} (hsize : r.values.length ≤ limit) (h : Stops rest) :
    readGroups d limit true (r.chars ++ rest) = ⟨r.values, r.octets.isSome, rest⟩ := by
  obtain ⟨gs, octets⟩ := r
  cases gs with
  | nil =>
    cases octets with
    | none => exact readGroups_stop h limit true
    | some t =>
      obtain ⟨limit, rfl⟩ := Nat.exists_eq_add_of_le' (show 2 ≤ limit from hsize)
      exact readGroups_octets t (by simp [Run.chars, Run.pieces]) (noDigit_ten h.noDigit)
  | cons g gs =>
    obtain ⟨limit, rfl⟩ := Nat.exists_eq_add_one_of_ne_zero (Nat.ne_zero_of_lt hsize)
    have hsize : (Run.mk gs octets).values.length ≤ limit := by simpa [Run.values] using hsize
    obtain ⟨hr, hh⟩ := h.pieces (Run.mk gs octets).pieces
    rw [Run.chars_cons, List.append_assoc, readGroups_group g rfl hr hh, readGroups_pieces hsize h]
    rfl

/-- The end of an address, or the length of a network. -/
inductive Ends : List Char → Prop
  | nil : Ends []
  | slash (after : List Char) : Ends ('/' :: after)

theorem Ends.stops (h : Ends rest) : Stops rest := by
  cases h with
  | nil => exact .nil
  | slash after => exact .slash after

/-- Every spelling of an address is read as that address, in both dialects. -/
theorem readV6_chars (t : V6Text) (h : Ends rest) :
    readV6 d (t.chars ++ rest) = some (t.value, rest) := by
  cases t with
  | full run length =>
    simp only [readV6, V6Text.chars, readGroups_run length.le h.stops, length, if_true]
    rfl
  | gap head tail length =>
    have hhead : (Run.mk head none).values = head.map HexGroup.value := by simp [Run.values]
    have hsize : (Run.mk head none).values.length ≤ 8 := by
      rw [hhead, List.length_map]
      omega
    have hlen : (head.map HexGroup.value).length ≠ 8 := by
      rw [List.length_map]
      omega
    -- The gap stands for one group at least, so both dialects have room for the tail.
    have hroom : tail.values.length ≤
        if d.emptyGap then 8 - (head.map HexGroup.value).length
        else 8 - (head.map HexGroup.value).length - 1 := by
      rw [List.length_map]
      split <;> omega
    have hstart : V6Text.chars (.gap head tail length) ++ rest =
        (Run.mk head none).chars ++ ':' :: ':' :: (tail.chars ++ rest) := by
      simp [V6Text.chars]
    simp only [readV6, hstart, readGroups_run hsize (.gap _), hhead, if_neg hlen, expect_cons,
      Option.bind_eq_bind, Option.bind_some, readGroups_run hroom h.stops]
    rfl

end Ip

end Telemetry
