import Telemetry.Proofs.Wire.Schema

/-! A message that is read is a run of whole fields, each of the shape that the schema has for its
number (`MessageType.decode_eq_ok_iff`, `MessageType.areFields_of_run`). Whole fields at the
beginning of a run are a run of their own, so that every place between two fields is one where the
reader begins a field (`MessageType.split_run`). -/

namespace Telemetry

open Wire

/-! ## Payloads of the schema -/

def ScalarType.IsPayload : ScalarType → Bytes → Prop
  | .varint => fun payload => ∃ n, IsVarint payload n
  | .fixed32 => fun payload => payload.length = 4
  | .bytes | .text => fun payload => ∃ body, IsDelimited payload body

def FieldType.IsPayload : FieldType → Bytes → Prop
  | .scalar t => t.IsPayload
  | .message _ => fun payload => ∃ body, IsDelimited payload body

theorem FieldType.IsPayload.unique {t : FieldType} {p q r s : Bytes} (hp : t.IsPayload p)
    (hq : t.IsPayload q) (heq : p ++ r = q ++ s) : p = q := by
  have delimited : (∃ body, IsDelimited p body) → (∃ body, IsDelimited q body) → p = q :=
    fun ⟨_, (hp : IsDelimited p _)⟩ ⟨_, hq⟩ => (hp.unique hq heq).1
  cases t with
  | message m => exact delimited hp hq
  | scalar t =>
    cases t with
    | varint =>
      obtain ⟨m, hp⟩ := hp
      obtain ⟨n, hq⟩ := hq
      exact (isVarint_unique hp hq heq).1
    | fixed32 => exact (List.append_inj heq (Eq.trans hp (Eq.symm hq))).1
    | bytes => exact delimited hp hq
    | text => exact delimited hp hq

namespace MessageType

theorem nodup_numbers (m : MessageType) : (m.fields.map (·.1)).Nodup := by
  cases m <;> decide

theorem fields_unique {m : MessageType} {number : Nat} {t t' : FieldType}
    (h : (number, t) ∈ m.fields) (h' : (number, t') ∈ m.fields) : t = t' :=
  congrArg Prod.snd (List.inj_on_of_nodup_map m.nodup_numbers h h' rfl)

theorem declares_of_mem {m : MessageType} {number : Nat} {t : FieldType}
    (h : (number, t) ∈ m.fields) : m.Declares number :=
  List.mem_map_of_mem h

/-- The payload that a message may have behind a key: one of the declared type, or any one behind
a number that is not declared. -/
inductive HasPayload (m : MessageType) (k : Key) : Bytes → Prop
  | declared {t : FieldType} {payload : Bytes} : (k.number, t) ∈ m.fields → t.IsPayload payload →
    HasPayload m k payload
  | undeclared {h : Nat} {payload : Bytes} : ¬m.Declares k.number → IsPayload h k payload →
    HasPayload m k payload

theorem HasPayload.unique {m : MessageType} {k : Key} {p q r s : Bytes} (hp : m.HasPayload k p)
    (hq : m.HasPayload k q) (heq : p ++ r = q ++ s) : p = q := by
  cases hp with
  | declared h hp =>
    cases hq with
    | declared h' hq =>
      cases fields_unique h h'
      exact hp.unique hq heq
    | undeclared h' _ => exact absurd (declares_of_mem h) h'
  | undeclared h hp =>
    cases hq with
    | declared h' _ => exact absurd (declares_of_mem h') h
    | undeclared _ hq => exact hp.unique hq heq

/-- Whole fields of a message, one after another. -/
inductive AreFields (m : MessageType) : Bytes → Prop
  | nil : AreFields m []
  | cons {k : Key} {key payload rest : Bytes} : IsKey key k → m.HasPayload k payload →
    AreFields m rest → AreFields m (key ++ payload ++ rest)

theorem AreFields.append {m : MessageType} {bs bs' : Bytes} (h : m.AreFields bs)
    (h' : m.AreFields bs') : m.AreFields (bs ++ bs') := by
  induction h with
  | nil => exact h'
  | cons hk hp _ ih =>
    rw [List.append_assoc]
    exact .cons hk hp ih

end MessageType

/-! ## Readers take whole payloads -/

/-- A reader that takes a payload of those that are allowed, whatever comes behind it. -/
def Takes {α : Type} (allowed : Bytes → Prop) (read : Bytes → Except Fault (α × Bytes)) : Prop :=
  ∀ s x r, read s = .ok (x, r) →
    ∃ payload, s = payload ++ r ∧ allowed payload ∧ ∀ r', read (payload ++ r') = .ok (x, r')

theorem expect_eq_ok_iff {α : Type} {actual expected : WireType} {result : Except Fault α} {x : α} :
    expect actual expected result = .ok x ↔ actual = expected ∧ result = .ok x := by
  rw [expect]
  split
  · simp [*]
  · simp [*, fault]

theorem Takes.expect {α : Type} {allowed : Bytes → Prop}
    {read : Bytes → Except Fault (α × Bytes)} (h : Takes allowed read) (w w' : WireType) :
    Takes allowed fun s => expect w w' (read s) := by
  intro s x r hs
  obtain ⟨hw, hs⟩ := expect_eq_ok_iff.mp hs
  obtain ⟨payload, rfl, hallowed, hread⟩ := h s x r hs
  exact ⟨payload, rfl, hallowed, fun r' => expect_eq_ok_iff.mpr ⟨hw, hread r'⟩⟩

theorem readNumber_takes : Takes (fun payload => ∃ n, IsVarint payload n) readNumber := by
  intro s n r hs
  obtain ⟨payload, rfl, hvarint⟩ := exists_isVarint_of_readNumber hs
  refine ⟨payload, rfl, ⟨_, hvarint⟩, fun r' => ?_⟩
  rw [readNumber_of_isVarint hvarint, UInt64.ofNat_toNat]

theorem readBytesField_takes (w : WireType) :
    Takes (fun payload => ∃ body, IsDelimited payload body) (readBytesField w) := by
  intro s bs r hs
  rw [readBytesField, expect_eq_ok_iff] at hs
  obtain ⟨rfl, hs⟩ := hs
  obtain ⟨⟨n, rest⟩, hn, hs⟩ := exists_of_bind_eq_ok hs
  cases hs
  obtain ⟨payload, hs, hp⟩ := exists_isDelimited_of_readLength hn
  exact ⟨payload, hs, ⟨_, hp⟩, readBytesField_delimited hp⟩

theorem readTextField_takes (w : WireType) :
    Takes (fun payload => ∃ body, IsDelimited payload body) (readTextField w) := by
  intro s text r hs
  obtain ⟨⟨bs, rest⟩, hbytes, hs⟩ := exists_of_bind_eq_ok hs
  obtain ⟨payload, hpayload, hp, hread⟩ := readBytesField_takes w s bs rest hbytes
  dsimp only at hs
  split at hs
  · rename_i htext
    cases hs
    refine ⟨payload, hpayload, hp, fun r' => ?_⟩
    rw [readTextField, hread]
    simp only [bind, Except.bind, htext]
    rfl
  · cases hs

theorem readFixed32Field_takes (w : WireType) :
    Takes (fun payload => payload.length = 4) (readFixed32Field w) := by
  intro s x r h
  obtain ⟨rfl, hs⟩ := expect_eq_ok_iff.mp h
  split at hs
  · rename_i a b c d rest
    cases hs
    exact ⟨[a, b, c, d], rfl, rfl, fun r' => rfl⟩
  · cases hs

theorem ScalarType.read_takes (t : ScalarType) (w : WireType) : Takes t.IsPayload (t.read w) := by
  cases t with
  | varint => exact readNumber_takes.expect w .varint
  | fixed32 => exact readFixed32Field_takes w
  | bytes => exact readBytesField_takes w
  | text => exact readTextField_takes w

/-! ## Runs -/

namespace Wire

variable {σ : Type} {allowed : Key → Bytes → Prop} {field : FieldReader σ} {st st' : σ}

/-- What has been read is a run of fields, and no more bytes are left than were to be. -/
theorem exists_run_of_readFields (hfield : ∀ k st, Takes (allowed k) (field k st))
    {limit fuel : Nat} {s r : Bytes} (h : readFields field limit fuel st s = .ok (st', r)) :
    ∃ bs, s = bs ++ r ∧ FieldRun field st bs st' ∧ (s.length ≤ fuel → r.length ≤ limit) := by
  induction fuel generalizing st s with
  | zero =>
    cases h
    exact ⟨[], rfl, .nil _, fun hle => by omega⟩
  | succ fuel ih =>
    rw [readFields] at h
    split at h
    · rename_i hle
      cases h
      exact ⟨[], rfl, .nil _, fun _ => hle⟩
    · obtain ⟨⟨k, s₁⟩, hkey, h₁⟩ := exists_of_bind_eq_ok h
      obtain ⟨key, rfl, hk⟩ := exists_isKey_of_readKey hkey
      obtain ⟨⟨st₁, s₂⟩, hpayload, h₂⟩ := exists_of_bind_eq_ok h₁
      obtain ⟨payload, rfl, _, hread⟩ := hfield k st s₁ st₁ s₂ hpayload
      obtain ⟨rest, rfl, hrun, hlimit⟩ := ih h₂
      refine ⟨key ++ payload ++ rest, ?_, .cons hk hread hrun, fun hle => hlimit ?_⟩
      · simp only [List.append_assoc]
      · have hpos := hk.length_pos
        simp only [List.length_append] at hle ⊢
        omega

theorem exists_run_of_readDelimited (hfield : ∀ k st, Takes (allowed k) (field k st)) {s r : Bytes}
    (h : readDelimited field st s = .ok (st', r)) :
    ∃ payload body, s = payload ++ r ∧ IsDelimited payload body ∧ FieldRun field st body st' := by
  obtain ⟨⟨n, s₁⟩, hn, h₁⟩ := exists_of_bind_eq_ok h
  obtain ⟨hle, -⟩ := exists_isVarint_of_readLength hn
  obtain ⟨payload, rfl, hp⟩ := exists_isDelimited_of_readLength hn
  obtain ⟨⟨st₁, s₂⟩, hfields, h₂⟩ := exists_of_bind_eq_ok h₁
  dsimp only at h₂
  split at h₂
  · rename_i hlimit
    cases h₂
    obtain ⟨body, rfl, hrun, -⟩ := exists_run_of_readFields hfield hfields
    have hn : n = body.length := by
      rw [List.length_append] at hlimit hle
      omega
    subst hn
    rw [List.take_left] at hp
    exact ⟨payload, body, by rw [List.drop_left], hp, hrun⟩
  · cases h₂

theorem readSubmessage_eq_ok {depth : Nat} {field : Nat → FieldReader σ} {w : WireType}
    {s r : Bytes} (h : readSubmessage depth field w st s = .ok (st', r)) :
    w = .delimited ∧ ∃ d, depth = d + 1 ∧ readDelimited (field d) st s = .ok (st', r) := by
  obtain ⟨hw, hs⟩ := expect_eq_ok_iff.mp h
  cases depth with
  | zero => cases hs
  | succ d => exact ⟨hw, d, rfl, hs⟩

end Wire

namespace MessageType

/-- Every reader takes whole payloads of the schema, by induction on the levels that are left. -/
theorem reader_takes (m : MessageType) (depth : Nat) (k : Key) (st : m.State) :
    Takes (m.HasPayload k) (m.reader depth k st) := by
  induction depth using Nat.strongRecOn generalizing m k st with
  | ind depth ih =>
    intro s st' r hs
    obtain ⟨number, w⟩ := k
    by_cases hdeclared : m.Declares number
    · obtain ⟨⟨_, t⟩, ht, rfl⟩ := List.mem_map.mp hdeclared
      cases t with
      | scalar t =>
        obtain ⟨put, hput⟩ := reader_followsField ht depth w st
        obtain ⟨x, hx, rfl⟩ := (hput s).exists_of_eq_ok hs
        obtain ⟨payload, rfl, hp, hread⟩ := t.read_takes w s x r hx
        exact ⟨payload, rfl, .declared ht hp, fun r' => (hput _).ok x r' (hread r')⟩
      | message m' =>
        obtain ⟨sub, put, hput⟩ := reader_followsField ht depth w st
        obtain ⟨x, hx, rfl⟩ := (hput s).exists_of_eq_ok hs
        obtain ⟨hw, d, rfl, hread⟩ := readSubmessage_eq_ok hx
        obtain ⟨payload, body, rfl, hp, hrun⟩ :=
          exists_run_of_readDelimited (fun k st => ih d (Nat.lt_succ_self d) m' k st) hread
        refine ⟨payload, rfl, .declared ht ⟨body, hp⟩, fun r' => (hput _).ok x r' ?_⟩
        exact expect_eq_ok_iff.mpr ⟨hw, readDelimited_run hrun hp r'⟩
    · rw [m.reader_follows.undeclared number hdeclared] at hs
      obtain ⟨rest, hskip, heq⟩ := exists_of_map_eq_ok hs
      cases heq
      obtain ⟨h, hle, payload, rfl, hp⟩ := skipField_skipsWithin depth _ s r hskip
      refine ⟨payload, rfl, .undeclared hdeclared hp, fun r' => ?_⟩
      rw [m.reader_follows.undeclared number hdeclared, skipInto, skipField_of_isPayload hp,
        if_pos hle]
      rfl

/-! ## Whole fields -/

variable {m : MessageType} {depth : Nat} {st st' : m.State}

/-- A run that begins with a whole field has read that field first. -/
theorem exists_next_of_run {k : Key} {key payload rest : Bytes} (hk : IsKey key k)
    (hp : m.HasPayload k payload)
    (h : FieldRun (m.reader depth) st (key ++ payload ++ rest) st') :
    ∃ st₁, (∀ r, m.reader depth k st (payload ++ r) = .ok (st₁, r)) ∧
      FieldRun (m.reader depth) st₁ rest st' := by
  generalize hbs : key ++ payload ++ rest = bs at h
  cases h with
  | nil =>
    have hpos := hk.length_pos
    have hlen := congrArg List.length hbs
    simp only [List.length_append, List.length_nil] at hlen
    omega
  | @cons _ st₁ _ k' key' payload' rest' hk' hread hrun =>
    rw [List.append_assoc, List.append_assoc] at hbs
    have hkey := readKey_of_isKey hk (payload ++ rest)
    rw [hbs, readKey_of_isKey hk'] at hkey
    simp only [Except.ok.injEq, Prod.mk.injEq] at hkey
    obtain ⟨rfl, hrest⟩ := hkey
    obtain ⟨taken, htaken, hp', -⟩ := m.reader_takes depth k' st _ _ _ (hread [])
    cases List.append_cancel_right htaken
    cases hp'.unique hp hrest
    cases List.append_cancel_left hrest
    exact ⟨st₁, hread, hrun⟩

/-- Whole fields at the beginning of a run are a run, and so is what comes behind them. -/
theorem split_run {before after : Bytes} (hb : m.AreFields before)
    (h : FieldRun (m.reader depth) st (before ++ after) st') :
    ∃ st₁, FieldRun (m.reader depth) st before st₁ ∧ FieldRun (m.reader depth) st₁ after st' := by
  induction hb generalizing st with
  | nil => exact ⟨st, .nil st, h⟩
  | cons hk hp _ ih =>
    rw [List.append_assoc] at h
    obtain ⟨st₁, hread, hrun⟩ := exists_next_of_run hk hp h
    obtain ⟨st₂, hbefore, hafter⟩ := ih hrun
    exact ⟨st₂, .cons hk hread hbefore, hafter⟩

theorem areFields_of_run {bs : Bytes} (h : FieldRun (m.reader depth) st bs st') :
    m.AreFields bs := by
  induction h with
  | nil => exact .nil
  | cons hk hread _ ih =>
    obtain ⟨taken, htaken, hp, -⟩ := m.reader_takes depth _ _ _ _ _ (hread [])
    cases List.append_cancel_right htaken
    exact .cons hk hp ih

/-! ## Single fields -/

variable {number : Nat} {t : FieldType}

theorem isValid_of_mem (h : (number, t) ∈ m.fields) (w : WireType) : Key.IsValid ⟨number, w⟩ := by
  have hall : ∀ m : MessageType, ∀ field ∈ m.fields, 0 < field.1 ∧ field.1 < 2 ^ 29 := by
    intro m
    cases m <;> decide
  exact hall m _ h

theorem areFields_single {w : WireType} {payload : Bytes} (ht : (number, t) ∈ m.fields)
    (hp : t.IsPayload payload) : m.AreFields (Key.encode ⟨number, w⟩ ++ payload) := by
  rw [← List.append_nil (_ ++ payload)]
  exact .cons (isKey_encode (isValid_of_mem ht w)) (.declared ht hp) .nil

theorem areFields_delimitedField {body : Bytes} (ht : (number, t) ∈ m.fields)
    (hp : ∀ payload, IsDelimited payload body → t.IsPayload payload)
    (hlen : (delimitedField number body).length < 2 ^ 64) :
    m.AreFields (delimitedField number body) := by
  have hbody := (length_le_delimitedField number body).trans_lt hlen
  rw [delimitedField, List.append_assoc]
  exact areFields_single ht (hp _ (isDelimited_varint hbody))

/-! ## Messages -/

/-- A message of which nothing has been read. -/
def empty : (m : MessageType) → m.State
  | .notification => ({} : Notification)
  | .update => ({} : Update)
  | .path => ({} : Path)
  | .pathElem => ({} : PathElem)
  | .keyEntry => ({} : KeyEntry)
  | .typedValue => TypedValue.unset
  | .leafList => ([] : List TypedValue)
  | .decimal => ({} : Decimal64)
  | .any => ({} : AnyMessage)

def decode (m : MessageType) : Bytes → Except Fault m.State := readMessage m.reader m.empty

/-- Bytes are a message if and only if they are a run of its fields. -/
theorem decode_eq_ok_iff {bs : Bytes} :
    m.decode bs = .ok st ↔ FieldRun (m.reader maxDepth) m.empty bs st := by
  refine ⟨fun h => ?_, readMessage_run⟩
  obtain ⟨⟨st₁, r⟩, hread, rfl⟩ := exists_of_map_eq_ok h
  obtain ⟨bs, rfl, hrun, hlimit⟩ :=
    exists_run_of_readFields (fun k st => m.reader_takes maxDepth k st) hread
  cases List.length_eq_zero_iff.mp (Nat.le_zero.mp (hlimit (Nat.le_refl _)))
  rwa [List.append_nil]

end MessageType

end Telemetry
