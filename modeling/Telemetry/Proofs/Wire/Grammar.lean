import Mathlib
import Telemetry.Proofs.Results
import Telemetry.Wire.Field

/-! The grammar of fields, and that it is what the readers of numbers, keys and skipped payloads
follow: each takes the bytes that the grammar has for its result, whatever comes behind them, and
nothing else. A number may be written with more bytes than it needs. -/

namespace Telemetry.Wire

/-! ## Numbers -/

/-- Seven bits of a number in each byte, the lowest first, with the top bit set in all but the
last. -/
inductive Spells : Bytes → Nat → Prop
  | last {b : UInt8} : b < 128 → Spells [b] b.toNat
  | more {b : UInt8} {bs : Bytes} {n : Nat} : ¬b < 128 → Spells bs n →
    Spells (b :: bs) (b.toNat % 128 + 128 * n)

theorem Spells.length_pos {bs : Bytes} {n : Nat} (h : Spells bs n) : 0 < bs.length := by
  cases h <;> exact Nat.succ_pos _

/-- The bytes of a number of 64 bits. -/
structure IsVarint (bs : Bytes) (n : Nat) : Prop where
  spells : Spells bs n
  length_le : bs.length ≤ maxVarintLength
  lt : n < 2 ^ 64

theorem readVarintFrom_of_spells {bs : Bytes} {n k : Nat} (h : Spells bs n)
    (hlen : bs.length ≤ k + 1) (hn : n < 2 * 128 ^ k) (r : Bytes) :
    readVarintFrom (k + 1) (bs ++ r) = some (n, r) := by
  induction h generalizing k with
  | @last b hb =>
    rw [List.singleton_append, readVarintFrom, if_pos hb, if_neg]
    simp only [Bool.and_eq_true, decide_eq_true_eq, not_and, UInt8.not_lt]
    rintro rfl
    rw [UInt8.le_iff_toNat_le]
    exact Nat.le_of_lt_succ hn
  | @more b bs n hb h ih =>
    have hpos := h.length_pos
    rw [List.length_cons] at hlen
    obtain ⟨k, rfl⟩ := Nat.exists_eq_succ_of_ne_zero (by omega : k ≠ 0)
    rw [Nat.pow_succ] at hn
    rw [List.cons_append, readVarintFrom, if_neg hb, ih (by omega) (by omega)]
    rfl

theorem exists_spells_of_readVarintFrom {s r : Bytes} {n k : Nat}
    (h : readVarintFrom (k + 1) s = some (n, r)) :
    ∃ bs, s = bs ++ r ∧ Spells bs n ∧ bs.length ≤ k + 1 ∧ n < 2 * 128 ^ k := by
  induction k generalizing s n with
  | zero =>
    cases s with
    | nil => cases h
    | cons b s =>
      simp only [readVarintFrom, Option.map_none, Bool.and_eq_true, decide_eq_true_eq, true_and,
        decide_true] at h
      obtain ⟨hb, hle, heq⟩ : b < 128 ∧ ¬1 < b ∧ some (b.toNat, s) = some (n, r) := by
        split at h <;> simp_all
      cases heq
      rw [UInt8.not_lt, UInt8.le_iff_toNat_le] at hle
      exact ⟨[b], rfl, .last hb, Nat.le_refl _, Nat.lt_succ_of_le hle⟩
  | succ k ih =>
    cases s with
    | nil => cases h
    | cons b s =>
      have hpow : 128 ^ (k + 1) = 128 ^ k * 128 := Nat.pow_succ ..
      rw [readVarintFrom] at h
      split at h
      · rename_i hb
        rw [if_neg (by simp)] at h
        cases h
        refine ⟨[b], rfl, .last hb, by simp, ?_⟩
        have hle := Nat.one_le_pow k 128 (by decide)
        have hlt : b.toNat < 128 := UInt8.lt_iff_toNat_lt.mp hb
        omega
      · rename_i hb
        rw [Option.map_eq_some_iff] at h
        obtain ⟨⟨n, r⟩, h, heq⟩ := h
        cases heq
        obtain ⟨bs, rfl, hspells, hlen, hn⟩ := ih h
        exact ⟨b :: bs, rfl, .more hb hspells, Nat.succ_le_succ hlen, by omega⟩

theorem readNumber_of_isVarint {bs : Bytes} {n : Nat} (h : IsVarint bs n) (r : Bytes) :
    readNumber (bs ++ r) = .ok (UInt64.ofNat n, r) := by
  rw [readNumber, readVarint, maxVarintLength,
    readVarintFrom_of_spells h.spells h.length_le (h.lt.trans_eq (by decide))]
  rfl

theorem exists_isVarint_of_readNumber {s r : Bytes} {n : UInt64}
    (h : readNumber s = .ok (n, r)) : ∃ bs, s = bs ++ r ∧ IsVarint bs n.toNat := by
  have hread : readVarint s = some (n, r) := by
    rw [readNumber] at h
    split at h <;> cases h
    assumption
  rw [readVarint, Option.map_eq_some_iff] at hread
  obtain ⟨⟨n, r⟩, hread, heq⟩ := hread
  obtain ⟨bs, rfl, hspells, hlen, hn⟩ := exists_spells_of_readVarintFrom hread
  have hlt : n < 2 ^ 64 := hn.trans_eq (by decide)
  cases heq
  refine ⟨bs, rfl, ?_, hlen, UInt64.toNat_lt _⟩
  rwa [UInt64.toNat_ofNat_of_lt' hlt]

theorem readNumber_varint (n : UInt64) (r : Bytes) : readNumber (varint n ++ r) = .ok (n, r) := by
  rw [readNumber, readVarint_varint]

theorem isVarint_varint (n : UInt64) : IsVarint (varint n) n.toNat := by
  obtain ⟨bs, heq, h⟩ := exists_isVarint_of_readNumber (readNumber_varint n [])
  rwa [List.append_cancel_right heq]

theorem isVarint_unique {p q r s : Bytes} {m n : Nat} (hp : IsVarint p m) (hq : IsVarint q n)
    (h : p ++ r = q ++ s) : p = q ∧ m = n := by
  have hread := readNumber_of_isVarint hp r
  rw [h, readNumber_of_isVarint hq s] at hread
  simp only [Except.ok.injEq, Prod.mk.injEq] at hread
  obtain ⟨hn, rfl⟩ := hread
  have htoNat := congrArg UInt64.toNat hn
  rw [UInt64.toNat_ofNat_of_lt' hp.lt, UInt64.toNat_ofNat_of_lt' hq.lt] at htoNat
  exact ⟨List.append_cancel_right h, htoNat.symm⟩

/-! ## Keys -/

/-- The numbers that a field may have. -/
def Key.IsValid (k : Key) : Prop := 0 < k.number ∧ k.number < 2 ^ 29

instance (k : Key) : Decidable k.IsValid := inferInstanceAs (Decidable (_ ∧ _))

structure IsKey (bs : Bytes) (k : Key) : Prop where
  isVarint : IsVarint bs (k.number * 8 + k.wireType.code)
  isValid : k.IsValid

theorem IsKey.length_pos {bs : Bytes} {k : Key} (h : IsKey bs k) : 0 < bs.length :=
  h.isVarint.spells.length_pos

theorem isKey_encode {k : Key} (h : k.IsValid) : IsKey k.encode k := by
  have hcode := k.wireType.code_lt
  have hlt := h.2
  have hn : k.number * 8 + k.wireType.code < 2 ^ 64 := by omega
  refine ⟨?_, h⟩
  have hkey := isVarint_varint (UInt64.ofNat (k.number * 8 + k.wireType.code))
  rwa [UInt64.toNat_ofNat_of_lt' hn] at hkey

theorem readKey_of_isKey {bs : Bytes} {k : Key} (h : IsKey bs k) (r : Bytes) :
    readKey (bs ++ r) = .ok (k, r) := by
  obtain ⟨number, w⟩ := k
  obtain ⟨hvarint, hpos, hlt⟩ := h
  dsimp only at hvarint hpos hlt
  have hw := w.code_lt
  have hn : (UInt64.ofNat (number * 8 + w.code)).toNat = number * 8 + w.code :=
    UInt64.toNat_ofNat_of_lt' hvarint.lt
  have hmod : (number * 8 + w.code) % 8 = w.code := by omega
  have hdiv : (number * 8 + w.code) / 8 = number := by omega
  rw [readKey, readNumber_of_isVarint hvarint]
  simp only [bind, Except.bind, hn, hmod, hdiv, WireType.ofCode?_code]
  rw [if_neg (by show ¬2 ^ 32 ≤ _; omega), if_neg (by omega)]
  rfl

theorem WireType.code_of_ofCode? {n : Nat} {w : WireType} (h : ofCode? n = some w) :
    w.code = n := by
  unfold ofCode? at h
  split at h <;> cases h <;> rfl

theorem exists_isKey_of_readKey {s r : Bytes} {k : Key} (h : readKey s = .ok (k, r)) :
    ∃ bs, s = bs ++ r ∧ IsKey bs k := by
  obtain ⟨⟨n, rest⟩, hn, hkey⟩ := exists_of_bind_eq_ok h
  obtain ⟨bs, rfl, hvarint⟩ := exists_isVarint_of_readNumber hn
  dsimp only at hkey
  split at hkey
  · cases hkey
  · rename_i hlt
    split at hkey
    · cases hkey
    · rename_i w hw
      split at hkey
      · cases hkey
      · rename_i hpos
        cases hkey
        have hlt : n.toNat < 2 ^ 32 := Nat.not_le.mp hlt
        have hsum : n.toNat / 8 * 8 + w.code = n.toNat := by
          rw [WireType.code_of_ofCode? hw]
          omega
        exact ⟨bs, rfl, by rwa [hsum], Nat.pos_of_ne_zero hpos, Nat.div_lt_of_lt_mul hlt⟩

/-! ## Lengths -/

/-- A length and as many bytes behind it. -/
def IsDelimited (payload body : Bytes) : Prop :=
  ∃ length, payload = length ++ body ∧ IsVarint length body.length

theorem readLength_of_isVarint {bs : Bytes} {n : Nat} (h : IsVarint bs n) {s : Bytes}
    (hs : n ≤ s.length) : readLength (bs ++ s) = .ok (n, s) := by
  have htoNat : (UInt64.ofNat n).toNat = n := UInt64.toNat_ofNat_of_lt' h.lt
  rw [readLength, readNumber_of_isVarint h]
  simp only [bind, Except.bind, htoNat]
  rw [if_neg (Nat.not_lt.mpr hs)]
  rfl

theorem exists_isVarint_of_readLength {s r : Bytes} {n : Nat} (h : readLength s = .ok (n, r)) :
    n ≤ r.length ∧ ∃ bs, s = bs ++ r ∧ IsVarint bs n := by
  obtain ⟨⟨m, rest⟩, hm, h⟩ := exists_of_bind_eq_ok h
  dsimp only at h
  split at h
  · cases h
  · rename_i hle
    cases h
    exact ⟨Nat.not_lt.mp hle, exists_isVarint_of_readNumber hm⟩

theorem readLength_of_isDelimited {payload body : Bytes} (h : IsDelimited payload body)
    (r : Bytes) : readLength (payload ++ r) = .ok (body.length, body ++ r) := by
  obtain ⟨length, rfl, hlength⟩ := h
  rw [List.append_assoc, readLength_of_isVarint hlength (by simp)]

theorem isDelimited_varint {body : Bytes} (h : body.length < 2 ^ 64) :
    IsDelimited (varint (UInt64.ofNat body.length) ++ body) body := by
  have hlength := isVarint_varint (UInt64.ofNat body.length)
  rw [UInt64.toNat_ofNat_of_lt' h] at hlength
  exact ⟨_, rfl, hlength⟩

theorem exists_isDelimited_of_readLength {s r : Bytes} {n : Nat}
    (h : readLength s = .ok (n, r)) :
    ∃ payload, s = payload ++ r.drop n ∧ IsDelimited payload (r.take n) := by
  obtain ⟨hle, bs, rfl, hvarint⟩ := exists_isVarint_of_readLength h
  refine ⟨bs ++ r.take n, ?_, bs, rfl, ?_⟩
  · rw [List.append_assoc, List.take_append_drop]
  · rwa [List.length_take_of_le hle]

theorem IsDelimited.unique {p q r s body body' : Bytes} (hp : IsDelimited p body)
    (hq : IsDelimited q body') (heq : p ++ r = q ++ s) : p = q ∧ body = body' := by
  obtain ⟨length, rfl, hlength⟩ := hp
  obtain ⟨length', rfl, hlength'⟩ := hq
  rw [List.append_assoc, List.append_assoc] at heq
  obtain ⟨rfl, hsize⟩ := isVarint_unique hlength hlength' heq
  obtain ⟨rfl, -⟩ := List.append_inj (List.append_cancel_left heq) hsize
  exact ⟨rfl, rfl⟩

/-! ## Payloads of skipped fields -/

/-- The payload of a field that is not a group. -/
inductive IsPlain : WireType → Bytes → Prop
  | varint {payload : Bytes} {n : Nat} : IsVarint payload n → IsPlain .varint payload
  | fixed64 {payload : Bytes} : payload.length = 8 → IsPlain .fixed64 payload
  | delimited {payload body : Bytes} : IsDelimited payload body → IsPlain .delimited payload
  | fixed32 {payload : Bytes} : payload.length = 4 → IsPlain .fixed32 payload

/-- Fields one after another, of any numbers, with how many levels they take: a plain field takes
one, and a group one more than the fields in it. -/
inductive GroupFields : (height : Nat) → Bytes → Prop
  | nil : GroupFields 0 []
  | plain {k : Key} {key payload rest : Bytes} {h : Nat} : IsKey key k →
    IsPlain k.wireType payload → GroupFields h rest → GroupFields (max 1 h) (key ++ payload ++ rest)
  | group {number : Nat} {key body close rest : Bytes} {h h' : Nat} :
    IsKey key ⟨number, .startGroup⟩ → GroupFields h body → IsKey close ⟨number, .endGroup⟩ →
    GroupFields h' rest → GroupFields (max (h + 1) h') (key ++ (body ++ close) ++ rest)

/-- What may stand behind a key: a plain payload, or fields and the end of their group. -/
inductive IsPayload : (height : Nat) → Key → Bytes → Prop
  | plain {k : Key} {payload : Bytes} : IsPlain k.wireType payload → IsPayload 1 k payload
  | group {number : Nat} {body close : Bytes} {h : Nat} : GroupFields h body →
    IsKey close ⟨number, .endGroup⟩ → IsPayload (h + 1) ⟨number, .startGroup⟩ (body ++ close)

theorem skipField_of_isPlain {k : Key} {payload : Bytes} (h : IsPlain k.wireType payload)
    (depth : Nat) (r : Bytes) : skipField (depth + 1) k (payload ++ r) = .ok r := by
  obtain ⟨number, w⟩ := k
  cases h with
  | varint h => simp only [skipField, readNumber_of_isVarint h, Except.map]
  | fixed64 h => simp [skipField, h]
  | delimited h =>
    simp only [skipField, readLength_of_isDelimited h, Except.map, List.drop_left]
  | fixed32 h => simp [skipField, h]

theorem skipGroup_cons {skip : Key → Bytes → Except Fault Bytes} {number fuel : Nat} {k : Key}
    {key : Bytes} (hk : IsKey key k) (hw : k.wireType ≠ .endGroup) (s : Bytes) :
    skipGroup skip number (fuel + 1) (key ++ s) =
      (skip k s).bind (skipGroup skip number fuel) := by
  rw [skipGroup, readKey_of_isKey hk]
  simp only [bind, Except.bind, if_neg hw]

/-- The fields of a group are skipped if and only if enough levels are left for them. -/
theorem skipGroup_of_groupFields {h : Nat} {body : Bytes} (hbody : GroupFields h body)
    {number : Nat} {close : Bytes} (hclose : IsKey close ⟨number, .endGroup⟩) {depth fuel : Nat}
    (r : Bytes) (hfuel : (body ++ close).length ≤ fuel) :
    skipGroup (skipField depth) number fuel (body ++ close ++ r) =
      if h ≤ depth then .ok r else fault .tooDeep := by
  induction hbody generalizing number close depth fuel r with
  | nil =>
    have hpos := hclose.length_pos
    rw [List.nil_append] at hfuel ⊢
    obtain ⟨fuel, rfl⟩ := Nat.exists_eq_succ_of_ne_zero (by omega : fuel ≠ 0)
    rw [skipGroup, readKey_of_isKey hclose]
    simp [bind, Except.bind, pure, Except.pure]
  | @plain k key payload rest h hk hplain _ ih =>
    have hpos := hk.length_pos
    simp only [List.length_append] at hfuel
    obtain ⟨fuel, rfl⟩ := Nat.exists_eq_succ_of_ne_zero (by omega : fuel ≠ 0)
    have hw : k.wireType ≠ .endGroup := fun hw => by rw [hw] at hplain; cases hplain
    simp only [List.append_assoc]
    rw [skipGroup_cons hk hw]
    cases depth with
    | zero => simp [skipField, fault, Except.bind]
    | succ depth =>
      rw [skipField_of_isPlain hplain, Except.bind, ← List.append_assoc,
        ih hclose r (by simp only [List.length_append]; omega)]
      congr 1
      simp
  | @group number' key body close' rest h h' hk _ hclose' _ ihbody ihrest =>
    have hpos := hk.length_pos
    simp only [List.length_append] at hfuel
    obtain ⟨fuel, rfl⟩ := Nat.exists_eq_succ_of_ne_zero (by omega : fuel ≠ 0)
    rw [List.append_assoc, List.append_assoc, List.append_assoc, skipGroup_cons hk nofun]
    cases depth with
    | zero => simp [skipField, fault, Except.bind]
    | succ depth =>
      rw [skipField]
      dsimp only
      rw [ihbody hclose' _ (by simp only [List.length_append]; omega)]
      split
      · rename_i hle
        rw [Except.bind, ← List.append_assoc,
          ihrest hclose r (by simp only [List.length_append]; omega)]
        congr 1
        simp [hle]
      · rename_i hle
        rw [if_neg (by omega)]
        rfl

/-- A field is skipped if and only if as many levels are left as its payload takes. -/
theorem skipField_of_isPayload {h : Nat} {k : Key} {payload : Bytes} (hp : IsPayload h k payload)
    (depth : Nat) (r : Bytes) :
    skipField depth k (payload ++ r) = if h ≤ depth then .ok r else fault .tooDeep := by
  cases depth with
  | zero =>
    rw [if_neg (by cases hp <;> simp)]
    rfl
  | succ depth =>
    cases hp with
    | plain hplain => rw [skipField_of_isPlain hplain, if_pos (by omega)]
    | group hbody hclose =>
      rw [skipField]
      dsimp only
      rw [skipGroup_of_groupFields hbody hclose r (by simp)]
      congr 1
      simp

/-- A reader of payloads that leaves behind what is no part of a payload of at most so many
levels. -/
def SkipsWithin (depth : Nat) (skip : Key → Bytes → Except Fault Bytes) : Prop :=
  ∀ k s r, skip k s = .ok r → ∃ h ≤ depth, ∃ payload, s = payload ++ r ∧ IsPayload h k payload

theorem GroupFields.cons {h h' : Nat} {k : Key} {key payload rest : Bytes} (hk : IsKey key k)
    (hp : IsPayload h k payload) (hrest : GroupFields h' rest) :
    GroupFields (max h h') (key ++ payload ++ rest) := by
  cases hp with
  | plain hplain => exact .plain hk hplain hrest
  | group hbody hclose => exact .group hk hbody hclose hrest

theorem exists_groupFields_of_skipGroup {skip : Key → Bytes → Except Fault Bytes} {depth : Nat}
    (hskip : SkipsWithin depth skip) {number fuel : Nat} {s r : Bytes}
    (h : skipGroup skip number fuel s = .ok r) :
    ∃ height ≤ depth, ∃ body close, s = body ++ close ++ r ∧ GroupFields height body ∧
      IsKey close ⟨number, .endGroup⟩ := by
  induction fuel generalizing s with
  | zero => cases h
  | succ fuel ih =>
    obtain ⟨⟨⟨number', w⟩, rest⟩, hkey, hread⟩ := exists_of_bind_eq_ok h
    obtain ⟨key, rfl, hk⟩ := exists_isKey_of_readKey hkey
    dsimp only at hread
    split at hread
    · rename_i hw
      split at hread
      · rename_i hnumber
        cases hread
        cases hw
        cases hnumber
        exact ⟨0, Nat.zero_le _, [], key, rfl, .nil, hk⟩
      · cases hread
    · obtain ⟨next, hnext, hrest⟩ := exists_of_bind_eq_ok hread
      obtain ⟨h₁, hle₁, payload, rfl, hpayload⟩ := hskip _ rest next hnext
      obtain ⟨h₂, hle₂, body, close, rfl, hbody, hclose⟩ := ih hrest
      refine ⟨max h₁ h₂, Nat.max_le.mpr ⟨hle₁, hle₂⟩, key ++ payload ++ body, close, ?_,
        .cons hk hpayload hbody, hclose⟩
      simp only [List.append_assoc]

theorem skipField_skipsWithin (depth : Nat) : SkipsWithin depth (skipField depth) := by
  induction depth with
  | zero => exact fun k s r h => nomatch h
  | succ depth ih =>
    intro ⟨number, w⟩ s r h
    have plain {payload : Bytes} (hs : s = payload ++ r) (hp : IsPlain w payload) :
        ∃ h ≤ depth + 1, ∃ payload, s = payload ++ r ∧ IsPayload h ⟨number, w⟩ payload :=
      ⟨1, by omega, payload, hs, .plain hp⟩
    rw [skipField] at h
    cases w with
    | varint =>
      obtain ⟨⟨n, r⟩, hn, rfl⟩ := exists_of_map_eq_ok h
      obtain ⟨bs, hs, hvarint⟩ := exists_isVarint_of_readNumber hn
      exact plain hs (.varint hvarint)
    | fixed64 =>
      dsimp only at h
      split at h
      · cases h
      · rename_i hlen
        cases h
        exact plain (List.take_append_drop 8 s).symm
          (.fixed64 (List.length_take_of_le (Nat.not_lt.mp hlen)))
    | fixed32 =>
      dsimp only at h
      split at h
      · cases h
      · rename_i hlen
        cases h
        exact plain (List.take_append_drop 4 s).symm
          (.fixed32 (List.length_take_of_le (Nat.not_lt.mp hlen)))
    | delimited =>
      obtain ⟨⟨n, rest⟩, hn, rfl⟩ := exists_of_map_eq_ok h
      obtain ⟨payload, hs, hp⟩ := exists_isDelimited_of_readLength hn
      exact plain hs (.delimited hp)
    | startGroup =>
      obtain ⟨height, hle, body, close, hs, hbody, hclose⟩ := exists_groupFields_of_skipGroup ih h
      exact ⟨height + 1, Nat.succ_le_succ hle, body ++ close, hs, .group hbody hclose⟩
    | endGroup => cases h

theorem IsPayload.unique {h h' : Nat} {k : Key} {p q r s : Bytes} (hp : IsPayload h k p)
    (hq : IsPayload h' k q) (heq : p ++ r = q ++ s) : p = q := by
  have hread := skipField_of_isPayload hp (max h h') r
  rw [heq, skipField_of_isPayload hq, if_pos (Nat.le_max_right ..),
    if_pos (Nat.le_max_left ..)] at hread
  cases hread
  exact List.append_cancel_right heq

end Telemetry.Wire
