import Telemetry.Proofs.Wire.Grammar
import Telemetry.Wire.Encode
import Telemetry.Wire.Decode

/-! Fields that are read as they were written. `FieldRun` is a run of fields from one state of a
message to another; a reader goes along it whatever follows (`FieldRun.readFields`), and each kind
of field that is written is such a run. Lengths are numbers of 64 bits, so that all is stated of
bytes that they can count (`Reads`). How long a field is follows from its number and from what it
holds (`length_delimitedField`). -/

namespace Telemetry.Wire

/-- Fields one after another, of which each takes a message from one state to the next, whatever
bytes follow it. -/
inductive FieldRun {σ : Type} (field : FieldReader σ) : σ → Bytes → σ → Prop
  | nil (st : σ) : FieldRun field st [] st
  | cons {st st' st'' : σ} {k : Key} {key payload rest : Bytes} : IsKey key k →
    (∀ r, field k st (payload ++ r) = .ok (st', r)) → FieldRun field st' rest st'' →
    FieldRun field st (key ++ payload ++ rest) st''

namespace FieldRun

variable {σ : Type} {field : FieldReader σ} {st st' st'' : σ}

theorem append {bs bs' : Bytes} (h : FieldRun field st bs st') (h' : FieldRun field st' bs' st'') :
    FieldRun field st (bs ++ bs') st'' := by
  induction h with
  | nil => exact h'
  | cons hk hf _ ih =>
    rw [List.append_assoc]
    exact .cons hk hf (ih h')

theorem eq_of_nil (h : FieldRun field st [] st') : st' = st := by
  generalize hbs : ([] : Bytes) = bs at h
  cases h with
  | nil => rfl
  | cons hk _ _ =>
    have hpos := hk.length_pos
    have hlen := congrArg List.length hbs
    simp only [List.length_append, List.length_nil] at hlen
    omega

/-- A run is read to its end. The fuel suffices, because every field has a key. -/
theorem readFields {bs : Bytes} (h : FieldRun field st bs st') {fuel : Nat}
    (hfuel : bs.length ≤ fuel) (r : Bytes) :
    readFields field r.length fuel st (bs ++ r) = .ok (st', r) := by
  induction h generalizing fuel with
  | nil st =>
    cases fuel with
    | zero => rfl
    | succ fuel => simp [Wire.readFields]
  | cons hk hf _ ih =>
    have hpos := hk.length_pos
    simp only [List.length_append] at hfuel
    obtain ⟨fuel, rfl⟩ := Nat.exists_eq_succ_of_ne_zero (by omega : fuel ≠ 0)
    rw [Wire.readFields, if_neg (by simp only [List.length_append]; omega), List.append_assoc,
      List.append_assoc, readKey_of_isKey hk]
    simp only [bind, Except.bind, hf]
    exact ih (by omega)

end FieldRun

/-- The body of a message behind its length. -/
theorem readDelimited_run {σ : Type} {field : FieldReader σ} {st st' : σ} {payload bs : Bytes}
    (h : FieldRun field st bs st') (hp : IsDelimited payload bs) (r : Bytes) :
    readDelimited field st (payload ++ r) = .ok (st', r) := by
  have hlimit : (bs ++ r).length - bs.length = r.length := by simp
  rw [readDelimited, readLength_of_isDelimited hp]
  simp only [bind, Except.bind, hlimit]
  rw [h.readFields (by simp)]
  exact if_pos rfl

theorem readMessage_run {σ : Type} {field : Nat → FieldReader σ} {empty st : σ} {bs : Bytes}
    (h : FieldRun (field maxDepth) empty bs st) : readMessage field empty bs = .ok st := by
  have hread := h.readFields (Nat.le_refl _) []
  rw [List.append_nil] at hread
  rw [readMessage]
  exact congrArg _ hread

theorem readVarintField_varint (n : UInt64) (r : Bytes) :
    readVarintField .varint (varint n ++ r) = .ok (n, r) := readNumber_varint n r

theorem readBytesField_delimited {payload bs : Bytes} (h : IsDelimited payload bs) (r : Bytes) :
    readBytesField .delimited (payload ++ r) = .ok (bs, r) := by
  rw [readBytesField, readLength_of_isDelimited h]
  simp [expect, bind, Except.bind, pure, Except.pure]

theorem readTextField_utf8 {payload : Bytes} {text : String}
    (h : IsDelimited payload (Text.utf8 text)) (r : Bytes) :
    readTextField .delimited (payload ++ r) = .ok (text, r) := by
  rw [readTextField, readBytesField_delimited h]
  simp [bind, Except.bind, pure, Except.pure]

/-- The bytes of a word, put together again: every bit stands in the byte of its place. -/
theorem word_of_bytes (w : UInt32) :
    w.toUInt8.toUInt32 ||| (w >>> 8).toUInt8.toUInt32 <<< 8 |||
      (w >>> 16).toUInt8.toUInt32 <<< 16 ||| (w >>> 24).toUInt8.toUInt32 <<< 24 = w := by
  apply UInt32.toBitVec_inj.mp
  apply BitVec.eq_of_getLsbD_eq
  intro i hi
  have h8 : (8#32 % 32).toNat = 8 := rfl
  have h16 : (16#32 % 32).toNat = 16 := rfl
  have h24 : (24#32 % 32).toNat = 24 := rfl
  simp only [UInt32.toBitVec_or, UInt32.toBitVec_shiftLeft, UInt32.toBitVec_shiftRight,
    UInt8.toBitVec_toUInt32, UInt32.toBitVec_toUInt8, UInt32.toBitVec_ofNat,
    BitVec.shiftLeft_eq', BitVec.ushiftRight_eq', BitVec.getLsbD_or, BitVec.getLsbD_setWidth,
    BitVec.getLsbD_shiftLeft, BitVec.getLsbD_ushiftRight, h8, h16, h24]
  generalize w.toBitVec.getLsbD = bit
  grind

theorem readFixed32Field_littleEndian (w : UInt32) (r : Bytes) :
    readFixed32Field .fixed32 (littleEndian w ++ r) = .ok (w, r) := by
  simp only [readFixed32Field, expect, littleEndian, List.cons_append, List.nil_append, if_pos]
  rw [word_of_bytes]

theorem boolWord_bne_zero (b : Bool) : (boolWord b != 0) = b := by cases b <;> rfl

theorem length_le_delimitedField (number : Nat) (body : Bytes) :
    body.length ≤ (delimitedField number body).length := by
  rw [delimitedField, List.length_append]
  exact Nat.le_add_left ..

/-- The bytes are a run of fields, as far as lengths can count them. -/
def Reads {σ : Type} (field : FieldReader σ) (st : σ) (bs : Bytes) (st' : σ) : Prop :=
  bs.length < 2 ^ 64 → FieldRun field st bs st'

namespace Reads

variable {σ : Type} {field : FieldReader σ} {st st' st'' : σ} {number : Nat}

theorem nil (st : σ) : Reads field st [] st := fun _ => .nil st

theorem append {bs bs' : Bytes} (h : Reads field st bs st') (h' : Reads field st' bs' st'') :
    Reads field st (bs ++ bs') st'' := by
  intro hlen
  rw [List.length_append] at hlen
  exact (h (by omega)).append (h' (by omega))

/-- A single field. -/
theorem single {w : WireType} {payload : Bytes}
    (h : ∀ r, field ⟨number, w⟩ st (payload ++ r) = .ok (st', r)) (hk : Key.IsValid ⟨number, w⟩) :
    FieldRun field st (Key.encode ⟨number, w⟩ ++ payload) st' := by
  rw [← List.append_nil (_ ++ payload)]
  exact .cons (isKey_encode hk) h (.nil st')

theorem varint {n : UInt64}
    (h : ∀ s r, readVarintField .varint s = .ok (n, r) →
      field ⟨number, .varint⟩ st s = .ok (st', r))
    (hk : Key.IsValid ⟨number, .varint⟩ := by decide) :
    Reads field st (varintField number n) st' :=
  fun _ => single (fun r => h _ r (readVarintField_varint n r)) hk

theorem fixed32 {w : UInt32}
    (h : ∀ s r, readFixed32Field .fixed32 s = .ok (w, r) →
      field ⟨number, .fixed32⟩ st s = .ok (st', r))
    (hk : Key.IsValid ⟨number, .fixed32⟩ := by decide) :
    Reads field st (fixed32Field number w) st' :=
  fun _ => single (fun r => h _ r (readFixed32Field_littleEndian w r)) hk

/-- A field whose body is read behind its length. -/
theorem delimited {body : Bytes}
    (h : body.length < 2 ^ 64 → ∀ payload, IsDelimited payload body →
      ∀ r, field ⟨number, .delimited⟩ st (payload ++ r) = .ok (st', r))
    (hk : Key.IsValid ⟨number, .delimited⟩ := by decide) :
    Reads field st (delimitedField number body) st' := by
  intro hlen
  rw [delimitedField, List.append_assoc] at hlen ⊢
  simp only [List.length_append] at hlen
  have hbody : body.length < 2 ^ 64 := by omega
  exact single (h hbody _ (isDelimited_varint hbody)) hk

theorem bytes {body : Bytes}
    (h : ∀ s r, readBytesField .delimited s = .ok (body, r) →
      field ⟨number, .delimited⟩ st s = .ok (st', r))
    (hk : Key.IsValid ⟨number, .delimited⟩ := by decide) :
    Reads field st (delimitedField number body) st' :=
  delimited (fun _ _ hp r => h _ r (readBytesField_delimited hp r)) hk

theorem text {text : String}
    (h : ∀ s r, readTextField .delimited s = .ok (text, r) →
      field ⟨number, .delimited⟩ st s = .ok (st', r))
    (hk : Key.IsValid ⟨number, .delimited⟩ := by decide) :
    Reads field st (textField number text) st' :=
  delimited (fun _ _ hp r => h _ r (readTextField_utf8 hp r)) hk

/-- A message in a field, one level below. -/
theorem submessage {τ : Type} {sub : Nat → FieldReader τ} {t t' : τ} {body : Bytes} {depth : Nat}
    (hsub : Reads (sub depth) t body t')
    (h : ∀ s r, readSubmessage (depth + 1) sub .delimited t s = .ok (t', r) →
      field ⟨number, .delimited⟩ st s = .ok (st', r))
    (hk : Key.IsValid ⟨number, .delimited⟩ := by decide) :
    Reads field st (delimitedField number body) st' :=
  delimited (fun hlen _ hp r => h _ r (readDelimited_run (hsub hlen) hp r)) hk

/-- A message with no more than `n` levels below it, where more than `n` levels are left. -/
theorem part {τ : Type} {sub : Nat → FieldReader τ} {t t' : τ} {body : Bytes} {depth n : Nat}
    (hlevel : n < depth) (hsub : ∀ depth, n ≤ depth → Reads (sub depth) t body t')
    (h : ∀ s r, readSubmessage depth sub .delimited t s = .ok (t', r) →
      field ⟨number, .delimited⟩ st s = .ok (st', r))
    (hk : Key.IsValid ⟨number, .delimited⟩ := by decide) :
    Reads field st (delimitedField number body) st' := by
  obtain ⟨depth, rfl⟩ := Nat.exists_eq_succ_of_ne_zero (Nat.ne_zero_of_lt hlevel)
  exact submessage (hsub depth (Nat.le_of_lt_succ hlevel)) h hk

/-- A scalar that is left out where it has its default. -/
theorem scalar {α : Type} [BEq α] [LawfulBEq α] (state : α → σ) {x default : α} {bs : Bytes}
    (h : Reads field (state default) bs (state x)) :
    Reads field (state default) (omitIf (x == default) bs) (state x) := by
  rw [omitIf]
  split
  · rename_i he
    rw [eq_of_beq he]
    exact nil _
  · exact h

theorem optional {α : Type} {writes : α → Bytes → Prop} (state : Option α → σ) {x : Option α}
    {body : Option Bytes} (hx : Option.Rel writes x body)
    (h : ∀ y b, y ∈ x → writes y b →
      Reads field (state none) (delimitedField number b) (state (some y))) :
    Reads field (state none) (optionalField number body) (state x) := by
  cases hx with
  | none => exact nil _
  | some hw => exact h _ _ rfl hw

/-- Repeated fields are collected in their order, behind those that have been read `before`. -/
theorem repeated {α : Type} {writes : α → Bytes → Prop} (state : List α → σ) {xs : List α}
    {bodies : List Bytes} (hxs : List.Forall₂ writes xs bodies)
    (h : ∀ before x body, x ∈ xs → writes x body →
      Reads field (state before) (delimitedField number body) (state (before ++ [x])))
    (before : List α) :
    Reads field (state before) (repeatedField number bodies) (state (before ++ xs)) := by
  induction hxs generalizing before with
  | nil =>
    rw [List.append_nil]
    exact nil _
  | @cons x body xs bodies hx _ ih =>
    have hfirst := h before x body List.mem_cons_self hx
    have hrest := ih (fun before y b hy => h before y b (List.mem_cons_of_mem _ hy))
      (before ++ [x])
    rw [List.append_assoc] at hrest
    exact hfirst.append hrest

end Reads

/-! ## How long fields are

A number takes one byte for every seven bits, and the key of one of the first fifteen fields takes
one. -/

/-- How many digits a number has to the base 128, where zero has one. -/
def varintLength (n : Nat) : Nat := Nat.log 128 n + 1

theorem varintLength_of_lt {n : Nat} (h : n < 128) : varintLength n = 1 := by
  rw [varintLength, Nat.log_of_lt h]

theorem varintLength_of_le {n : Nat} (h : 128 ≤ n) :
    varintLength n = varintLength (n / 128) + 1 := by
  rw [varintLength, varintLength, Nat.log_of_one_lt_of_le (by decide) h]

theorem length_writeVarint_of_lt {more n : Nat} (h : n < 128) :
    (writeVarint more n).length = varintLength n := by
  rw [writeVarint_of_lt h, varintLength_of_lt h, List.length_singleton]

theorem length_writeVarint {more n : Nat} (h : n < 128 ^ (more + 1)) :
    (writeVarint more n).length = varintLength n := by
  induction more generalizing n with
  | zero => exact length_writeVarint_of_lt h
  | succ more ih =>
    by_cases hn : n < 128
    · exact length_writeVarint_of_lt hn
    · have hdiv : n / 128 < 128 ^ (more + 1) := Nat.div_lt_of_lt_mul (by rwa [← Nat.pow_succ'])
      rw [writeVarint, if_neg hn, List.length_cons, ih hdiv,
        varintLength_of_le (Nat.le_of_not_lt hn)]

theorem length_varint (n : UInt64) : (varint n).length = varintLength n.toNat :=
  length_writeVarint (n.toNat_lt.trans (by decide))

theorem Key.length_encode {k : Key} (h : k.number < 16) : (Key.encode k).length = 1 := by
  have hcode := k.wireType.code_lt
  have hkey : k.number * 8 + k.wireType.code < 128 := by omega
  rw [Key.encode, length_varint, UInt64.toNat_ofNat_of_lt' (hkey.trans (by decide)),
    varintLength_of_lt hkey]

theorem length_delimitedField {number : Nat} {body : Bytes} (hnumber : number < 16)
    (hbody : body.length < 2 ^ 64) :
    (delimitedField number body).length = body.length + 1 + varintLength body.length := by
  rw [delimitedField, List.length_append, List.length_append, Key.length_encode hnumber,
    length_varint, UInt64.toNat_ofNat_of_lt' hbody]
  omega

end Telemetry.Wire
