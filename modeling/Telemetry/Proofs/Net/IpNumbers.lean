import Mathlib
import Telemetry.Net.Ip
import Telemetry.Proofs.Text.Digits

/-! The numbers in the spellings of addresses. Octets in decimal are read as what they are
(`Ip.readV4_chars`), and a text that is read as an IPv4 address is four octets
(`Ip.exists_of_readV4`). -/

namespace Telemetry.Ip

variable {base width limit n : Nat} {c : Char} {ds cs rest : List Char} {d : Dialect}

theorem char_le_iff {a b : Char} : a ≤ b ↔ a.toNat ≤ b.toNat := by
  rw [Char.le_def, UInt32.le_iff_toNat_le]
  rfl

theorem isSome_digit?_ten : (digit? 10 c).isSome = c.isDigit := by
  rw [Bool.eq_iff_iff, isDigit_iff]
  simp only [digit?, char_le_iff, Bool.and_eq_true, decide_eq_true_eq, Char.reduceToNat]
  split_ifs <;> simp <;> omega

theorem isSome_digit?_sixteen : (digit? 16 c).isSome = true ↔
    (48 ≤ c.toNat ∧ c.toNat ≤ 57) ∨ (97 ≤ c.toNat ∧ c.toNat ≤ 102) ∨
      (65 ≤ c.toNat ∧ c.toNat ≤ 70) := by
  simp only [digit?, char_le_iff, Bool.and_eq_true, decide_eq_true_eq, Char.reduceToNat]
  split_ifs <;> simp <;> omega

/-- A decimal digit is the one with its value. -/
theorem ofNat_of_digit? (h : digit? 10 c = some n) : n < 10 ∧ c = Char.ofNat ('0'.toNat + n) := by
  have hc : c.isDigit = true := by rw [← isSome_digit?_ten, h, Option.isSome_some]
  rw [isDigit_iff] at hc
  have hn : digit? 10 c = some (c.toNat - 48) := by
    simp only [digit?, char_le_iff, Bool.and_eq_true, decide_eq_true_eq, Char.reduceToNat,
      if_pos hc]
    rw [if_pos (by omega)]
  obtain rfl : c.toNat - 48 = n := Option.some.inj (hn.symm.trans h)
  refine ⟨by omega, ?_⟩
  rw [show '0'.toNat = 48 from rfl, Nat.add_sub_cancel' hc.1, Char.ofNat_toNat]

theorem digit?_ofNat (h : n < 10) : digit? 10 (Char.ofNat ('0'.toNat + n)) = some n := by
  revert n
  decide

theorem valueOf_singleton : valueOf base [c] = (digit? base c).getD 0 := by
  simp [valueOf]

theorem valueOf_concat :
    valueOf base (ds ++ [c]) = valueOf base ds * base + (digit? base c).getD 0 := by
  simp [valueOf]

theorem valueOf_decimal (n : Nat) : valueOf 10 (Text.decimal n) = n := by
  fun_induction Text.decimal n with
  | case1 n hn => rw [valueOf_singleton, digit?_ofNat hn, Option.getD_some]
  | case2 n hn ih =>
    rw [valueOf_concat, ih, digit?_ofNat (Nat.mod_lt n (by decide)), Option.getD_some]
    omega

/-- Digits that do not start with a needless zero are those of their value. -/
theorem decimal_valueOf (hne : ds ≠ []) (hd : ∀ c ∈ ds, (digit? 10 c).isSome = true)
    (hz : ds.head? = some '0' → ds.length = 1) : Text.decimal (valueOf 10 ds) = ds := by
  induction ds using List.reverseRecOn with
  | nil => exact absurd rfl hne
  | append_singleton ds c ih =>
    obtain ⟨n, hn⟩ := Option.isSome_iff_exists.mp (hd c (by simp))
    obtain ⟨hlt, rfl⟩ := ofNat_of_digit? hn
    rw [valueOf_concat, hn, Option.getD_some]
    rcases List.eq_nil_or_concat ds with rfl | ⟨ds', c', rfl⟩
    · rw [Text.decimal, if_pos (by simpa [valueOf] using hlt)]
      simp [valueOf]
    · generalize hds : ds'.concat c' = ds at *
      have hne : ds ≠ [] := by simp [← hds]
      have hzero : ds.head? ≠ some '0' := by
        intro h0
        have := hz (by rw [List.head?_append, h0]; rfl)
        rw [List.length_append, List.length_singleton] at this
        exact hne (List.length_eq_zero_iff.mp (by omega))
      have ih := ih hne (fun c hc => hd c (List.mem_append_left _ hc)) (absurd · hzero)
      have hpos : valueOf 10 ds ≠ 0 := by
        intro h0
        rw [h0] at ih
        exact hzero (by rw [← ih]; decide +kernel)
      rw [Text.decimal, if_neg (by omega)]
      have hdiv : (valueOf 10 ds * 10 + n) / 10 = valueOf 10 ds := by omega
      have hmod : (valueOf 10 ds * 10 + n) % 10 = n := by omega
      rw [hdiv, hmod, ih]

/-- What follows a number does not go on with a digit. -/
def NoDigit (base : Nat) (rest : List Char) : Prop := ∀ c ∈ rest.head?, digit? base c = none

theorem takeWhile_digits (hd : ∀ c ∈ ds, (digit? base c).isSome = true) (hr : NoDigit base rest) :
    (ds ++ rest).takeWhile (fun c => (digit? base c).isSome) = ds := by
  rw [List.takeWhile_append_of_pos hd]
  cases rest with
  | nil => simp
  | cons c rest => simp [hr c rfl]

/-- Digits are read as their value, whatever follows them. -/
theorem readNumber_append (hne : ds ≠ []) (hd : ∀ c ∈ ds, (digit? base c).isSome = true)
    (hw : ds.length ≤ width) (hl : valueOf base ds < limit) (hr : NoDigit base rest) :
    readNumber base width limit (ds ++ rest) = some (valueOf base ds, rest) := by
  have hfit : ¬(ds.isEmpty || width < ds.length || limit ≤ valueOf base ds) = true := by
    simp [hne]
    omega
  simp only [readNumber, takeWhile_digits hd hr, if_neg hfit, List.drop_left]

theorem readNumber_decimal (hw : (Text.decimal n).length ≤ width) (hl : n < limit)
    (hr : NoDigit 10 rest) :
    readNumber 10 width limit (Text.decimal n ++ rest) = some (n, rest) := by
  have hd : ∀ c ∈ Text.decimal n, (digit? 10 c).isSome = true := fun c hc => by
    rw [isSome_digit?_ten, Text.isDigit_of_mem_decimal hc]
  have h := readNumber_append (Text.decimal_ne_nil n) hd hw (by rwa [valueOf_decimal]) hr
  rwa [valueOf_decimal] at h

/-- What a number is read from. -/
theorem readNumber_eq_some (h : readNumber base width limit cs = some (n, rest)) :
    ∃ ds, cs = ds ++ rest ∧ ds ≠ [] ∧ (∀ c ∈ ds, (digit? base c).isSome = true) ∧
      ds.length ≤ width ∧ valueOf base ds = n ∧ n < limit := by
  simp only [readNumber] at h
  split at h
  · cases h
  · rename_i hfit
    cases h
    simp only [Bool.or_eq_true, not_or, decide_eq_true_eq, Nat.not_lt, Nat.not_le,
      List.isEmpty_iff] at hfit
    have hsplit := List.prefix_iff_eq_append.mp
      (List.takeWhile_prefix (l := cs) fun c => (digit? base c).isSome)
    refine ⟨_, hsplit.symm, hfit.1.1, fun c hc => ?_, hfit.1.2, rfl, hfit.2⟩
    exact List.mem_takeWhile_imp (p := fun c => (digit? base c).isSome) hc

theorem noDigit_nil : NoDigit base [] := by
  intro c hc
  cases hc

theorem noDigit_cons (h : digit? base c = none) : NoDigit base (c :: rest) := by
  intro e he
  cases he
  exact h

theorem expect_cons : expect c (c :: rest) = some rest := if_pos rfl

theorem readOctet_decimal (h : n < 256) (hr : NoDigit 10 rest) :
    readOctet d (Text.decimal n ++ rest) = some (n, rest) := by
  have hw : (Text.decimal n).length ≤ 3 := Text.length_decimal_le (Nat.lt_trans h (by decide))
  have hz : ∀ n < 256, (Text.decimal n).head? = some '0' → (Text.decimal n).length = 1 := by
    decide +kernel
  simp only [readOctet, readNumber_decimal hw h hr, Option.bind_eq_bind, Option.bind_some]
  refine if_neg ?_
  simp only [Bool.and_eq_true, beq_iff_eq, bne_iff_ne, ne_eq, not_and, not_not, and_imp,
    List.length_append, Nat.add_sub_cancel]
  intro _ h0
  rw [List.head?_append_of_ne_nil _ (Text.decimal_ne_nil n)] at h0
  exact hz n h h0

/-- An octet without needless zeros is a number in decimal. -/
theorem readOctet_address (h : readOctet .address cs = some (n, rest)) :
    n < 256 ∧ cs = Text.decimal n ++ rest := by
  simp only [readOctet, Option.bind_eq_bind, Option.bind_eq_some_iff, Prod.exists] at h
  obtain ⟨m, r, hread, h⟩ := h
  split at h
  · cases h
  · rename_i hz
    cases h
    obtain ⟨ds, rfl, hne, hd, -, rfl, hlt⟩ := readNumber_eq_some hread
    refine ⟨hlt, ?_⟩
    rw [decimal_valueOf hne hd]
    intro h0
    simpa [Dialect.address, h0, List.head?_append] using hz

theorem readNumber_suffix (h : readNumber base width limit cs = some (n, rest)) : rest <:+ cs := by
  obtain ⟨ds, rfl, -⟩ := readNumber_eq_some h
  exact List.suffix_append ds rest

theorem readOctet_eq_some (h : readOctet d cs = some (n, rest)) :
    readNumber 10 3 256 cs = some (n, rest) := by
  simp only [readOctet, Option.bind_eq_bind, Option.bind_eq_some_iff, Prod.exists] at h
  obtain ⟨m, r, hread, h⟩ := h
  split at h
  · cases h
  · cases h
    exact hread

theorem eq_of_expect (h : expect c cs = some rest) : cs = c :: rest := by
  cases cs with
  | nil => cases h
  | cons e cs =>
    simp only [expect] at h
    split at h
    · rename_i he
      cases h
      rw [he]
    · cases h

theorem expect_eq_none (h : c ∉ cs) : expect c cs = none := by
  cases he : expect c cs with
  | none => rfl
  | some rest =>
    rw [eq_of_expect he] at h
    exact absurd List.mem_cons_self h

/-- What four octets are read from. -/
theorem readV4_eq_some {v : BitVec 32} (h : readV4 d cs = some (v, rest)) :
    ∃ n₁ n₂ n₃ n₄ r₁ r₂ r₃, readOctet d cs = some (n₁, '.' :: r₁) ∧
      readOctet d r₁ = some (n₂, '.' :: r₂) ∧ readOctet d r₂ = some (n₃, '.' :: r₃) ∧
      readOctet d r₃ = some (n₄, rest) ∧
      v = BitVec.ofNat 32 (((n₁ * 256 + n₂) * 256 + n₃) * 256 + n₄) := by
  simp only [readV4, Option.bind_eq_bind, Option.bind_eq_some_iff, Prod.exists] at h
  obtain ⟨n₁, t₁, h₁, r₁, he₁, n₂, t₂, h₂, r₂, he₂, n₃, t₃, h₃, r₃, he₃, n₄, t₄, h₄, h⟩ := h
  obtain rfl := eq_of_expect he₁
  obtain rfl := eq_of_expect he₂
  obtain rfl := eq_of_expect he₃
  cases h
  exact ⟨n₁, n₂, n₃, n₄, r₁, r₂, r₃, h₁, h₂, h₃, h₄, rfl⟩

theorem readV4_suffix {v : BitVec 32} (h : readV4 d cs = some (v, rest)) : rest <:+ cs := by
  obtain ⟨n₁, n₂, n₃, n₄, r₁, r₂, r₃, h₁, h₂, h₃, h₄, -⟩ := readV4_eq_some h
  have h₁ := List.IsSuffix.trans (List.suffix_cons ..) (readNumber_suffix (readOctet_eq_some h₁))
  have h₂ := List.IsSuffix.trans (List.suffix_cons ..) (readNumber_suffix (readOctet_eq_some h₂))
  have h₃ := List.IsSuffix.trans (List.suffix_cons ..) (readNumber_suffix (readOctet_eq_some h₃))
  exact (((readNumber_suffix (readOctet_eq_some h₄)).trans h₃).trans h₂).trans h₁

/-- Octets start with a decimal number and a point. -/
theorem readV4_eq_none {ds : List Char} (hdot : '.' ∉ ds) (hr : NoDigit 10 rest)
    (hh : rest.head? ≠ some '.') : readV4 d (ds ++ rest) = none := by
  rw [Option.eq_none_iff_forall_ne_some]
  rintro ⟨v, r⟩ h
  obtain ⟨n, -, -, -, r₁, -, -, h₁, -⟩ := readV4_eq_some h
  obtain ⟨ds₁, heq, -, hd, -⟩ := readNumber_eq_some (readOctet_eq_some h₁)
  rcases List.append_eq_append_iff.mp heq with ⟨m, rfl, rfl⟩ | ⟨m, rfl, hm⟩
  · cases m with
    | nil => exact hh rfl
    | cons c m =>
      have := hd c (by simp)
      rw [hr c rfl] at this
      cases this
  · cases m with
    | nil => exact hh (by rw [← List.nil_append rest, ← hm]; rfl)
    | cons c m =>
      cases hm
      exact hdot (by simp)

/-- Four octets as they are written. -/
structure V4Text where
  first : UInt8
  second : UInt8
  third : UInt8
  fourth : UInt8
  deriving DecidableEq, Repr

namespace V4Text

def chars (t : V4Text) : List Char :=
  Text.decimal t.first.toNat ++ '.' :: (Text.decimal t.second.toNat ++ '.' ::
    (Text.decimal t.third.toNat ++ '.' :: Text.decimal t.fourth.toNat))

def value (t : V4Text) : BitVec 32 :=
  BitVec.ofNat 32 <| ((t.first.toNat * 256 + t.second.toNat) * 256 + t.third.toNat) * 256 +
    t.fourth.toNat

theorem isDigit_or_eq_of_mem {t : V4Text} (h : c ∈ t.chars) : c.isDigit = true ∨ c = '.' := by
  simp only [chars, List.mem_append, List.mem_cons] at h
  rcases h with h | h | h | h | h | h | h
  · exact .inl (Text.isDigit_of_mem_decimal h)
  · exact .inr h
  · exact .inl (Text.isDigit_of_mem_decimal h)
  · exact .inr h
  · exact .inl (Text.isDigit_of_mem_decimal h)
  · exact .inr h
  · exact .inl (Text.isDigit_of_mem_decimal h)

theorem chars_ne_of_mem (t : V4Text) (hc : c ∈ cs) (h : c.isDigit = false ∧ c ≠ '.') :
    t.chars ≠ cs := by
  rintro rfl
  rcases isDigit_or_eq_of_mem hc with hd | hd
  · rw [h.1] at hd
    cases hd
  · exact h.2 hd

theorem chars_ne_nil (t : V4Text) : t.chars ≠ [] :=
  List.append_ne_nil_of_left_ne_nil (Text.decimal_ne_nil _) _

theorem head?_ne (t : V4Text) (h : c.isDigit = false) : t.chars.head? ≠ some c := by
  obtain ⟨e, ds, he⟩ := List.exists_cons_of_ne_nil (Text.decimal_ne_nil t.first.toNat)
  have hdigit : e.isDigit = true := Text.isDigit_of_mem_decimal (he ▸ List.mem_cons_self)
  rw [chars, he, List.cons_append, List.head?_cons, ne_eq, Option.some.injEq]
  rintro rfl
  rw [h] at hdigit
  cases hdigit

end V4Text

/-- Octets are read in both dialects, whatever follows them. -/
theorem readV4_chars (t : V4Text) (hr : NoDigit 10 rest) :
    readV4 d (t.chars ++ rest) = some (t.value, rest) := by
  have hdot {rest : List Char} : NoDigit 10 ('.' :: rest) := noDigit_cons rfl
  simp only [V4Text.chars, List.append_assoc, List.cons_append, readV4, Option.bind_eq_bind,
    readOctet_decimal t.first.toNat_lt hdot, readOctet_decimal t.second.toNat_lt hdot,
    readOctet_decimal t.third.toNat_lt hdot, readOctet_decimal t.fourth.toNat_lt hr,
    Option.bind_some, expect_cons]
  rfl

/-- An address that stands by itself is read from nothing but four octets. -/
theorem exists_of_readV4 {v : BitVec 32} (h : readV4 .address cs = some (v, rest)) :
    ∃ t : V4Text, v = t.value ∧ cs = t.chars ++ rest := by
  obtain ⟨n₁, n₂, n₃, n₄, r₁, r₂, r₃, h₁, h₂, h₃, h₄, rfl⟩ := readV4_eq_some h
  obtain ⟨hlt₁, rfl⟩ := readOctet_address h₁
  obtain ⟨hlt₂, rfl⟩ := readOctet_address h₂
  obtain ⟨hlt₃, rfl⟩ := readOctet_address h₃
  obtain ⟨hlt₄, rfl⟩ := readOctet_address h₄
  have hoctet {n : Nat} (h : n < 256) : (UInt8.ofNat n).toNat = n := by
    rw [UInt8.toNat_ofNat', Nat.mod_eq_of_lt h]
  refine ⟨⟨.ofNat n₁, .ofNat n₂, .ofNat n₃, .ofNat n₄⟩, ?_, ?_⟩
  · simp only [V4Text.value, hoctet hlt₁, hoctet hlt₂, hoctet hlt₃, hoctet hlt₄]
  · simp only [V4Text.chars, hoctet hlt₁, hoctet hlt₂, hoctet hlt₃, hoctet hlt₄, List.append_assoc,
      List.cons_append]

end Telemetry.Ip
