import Telemetry.Proofs.Wire.Runs

/-! Messages of a larger schema are read as those of this one: a field that is not declared may
stand at any place of a message or of a message in it, and what is read is the same
(`decode_ignoresUndeclared`). The levels of nesting are the one limit: an inserted field takes a
level below the message that it is in, and a group one more than the fields in it. -/

namespace Telemetry

open Wire

/-- A message holds another one so many messages deep. -/
inductive Holds : MessageType → Bytes → (depth : Nat) → MessageType → Bytes → Prop
  | self {m : MessageType} {bs : Bytes} : Holds m bs 0 m bs
  | inside {m m' inner : MessageType} {k : Key} {depth : Nat}
    {before key payload body after bs : Bytes} : m.AreFields before → IsKey key k →
    (k.number, .message m') ∈ m.fields → IsDelimited payload body →
    Holds m' body depth inner bs →
    Holds m (before ++ (key ++ payload ++ after)) (depth + 1) inner bs

/-- The second bytes are the first ones with one field more, of so many levels, that its message
does not declare. The field stands so many messages deep, and the lengths of those are adjusted. -/
inductive Inserts (height : Nat) : MessageType → (depth : Nat) → Bytes → Bytes → Prop
  | here {m : MessageType} {k : Key} {before key payload after : Bytes} : m.AreFields before →
    IsKey key k → ¬m.Declares k.number → IsPayload height k payload →
    Inserts height m 0 (before ++ after) (before ++ (key ++ payload ++ after))
  | inside {m m' : MessageType} {k : Key} {depth : Nat}
    {before key payload payload' body body' after : Bytes} : m.AreFields before → IsKey key k →
    (k.number, .message m') ∈ m.fields → IsDelimited payload body → IsDelimited payload' body' →
    Inserts height m' depth body body' →
    Inserts height m (depth + 1) (before ++ (key ++ payload ++ after))
      (before ++ (key ++ payload' ++ after))

/-- A fault in a field behind a run is one of the message. -/
theorem Wire.FieldRun.readFields_error {σ : Type} {field : FieldReader σ} {st st' : σ}
    {before key rest : Bytes} {k : Key} {f : Fault} (h : FieldRun field st before st')
    (hk : IsKey key k) (hf : field k st' rest = .error f) {limit fuel : Nat}
    (hlimit : limit ≤ rest.length) (hfuel : (before ++ (key ++ rest)).length ≤ fuel) :
    Wire.readFields field limit fuel st (before ++ (key ++ rest)) = .error f := by
  have hpos := hk.length_pos
  induction h generalizing fuel with
  | nil =>
    simp only [List.length_append] at hfuel
    obtain ⟨fuel, rfl⟩ := Nat.exists_eq_succ_of_ne_zero (by omega : fuel ≠ 0)
    rw [Wire.readFields, if_neg (by simp only [List.length_append]; omega), List.nil_append,
      readKey_of_isKey hk]
    simp only [bind, Except.bind, hf]
  | cons hk' hread _ ih =>
    have hpos' := hk'.length_pos
    simp only [List.length_append] at hfuel
    obtain ⟨fuel, rfl⟩ := Nat.exists_eq_succ_of_ne_zero (by omega : fuel ≠ 0)
    rw [Wire.readFields, if_neg (by simp only [List.length_append]; omega), List.append_assoc,
      List.append_assoc, readKey_of_isKey hk']
    simp only [bind, Except.bind, hread]
    exact ih hf (by simp only [List.length_append]; omega)

/-- A run that begins with a message in a field has read a run of that message first, with one
level less. What the field is read as is made of what the message is read as. -/
theorem MessageType.exists_part_of_run {m m' : MessageType} {levels : Nat} {st st' : m.State}
    {k : Key} {key payload body after : Bytes} (hk : IsKey key k)
    (ht : (k.number, .message m') ∈ m.fields) (hp : IsDelimited payload body)
    (hrun : FieldRun (m.reader levels) st (key ++ payload ++ after) st') :
    ∃ d sub x, ∃ put : m'.State → m.State, levels = d + 1 ∧ FieldRun (m'.reader d) sub body x ∧
      (∀ s, Carries (m.reader levels k st s) (readDelimited (m'.reader d) sub s) put) ∧
      FieldRun (m.reader levels) (put x) after st' := by
  obtain ⟨number, w⟩ := k
  obtain ⟨st₁, hread, hafter⟩ := m.exists_next_of_run hk (.declared ht ⟨body, hp⟩) hrun
  obtain ⟨sub, put, hput⟩ := reader_followsField ht levels w st
  obtain ⟨x, hx, rfl⟩ := (hput _).exists_of_eq_ok (hread [])
  obtain ⟨hw, d, rfl, hdelimited⟩ := readSubmessage_eq_ok hx
  obtain ⟨taken, body', htaken, hp', hbody⟩ :=
    exists_run_of_readDelimited (fun k st => m'.reader_takes d k st) hdelimited
  obtain ⟨-, rfl⟩ := hp.unique hp' htaken
  refine ⟨d, sub, x, put, rfl, hbody, fun s => .of_eq ?_ (hput s), hafter⟩
  rw [readSubmessage, expect, if_pos hw]

/-- A message in a field may be replaced by one that is read as the same. -/
theorem MessageType.run_inside {m m' : MessageType} {levels : Nat} {st st' : m.State} {k : Key}
    {before key payload payload' body body' after : Bytes} (hb : m.AreFields before)
    (hk : IsKey key k) (ht : (k.number, .message m') ∈ m.fields) (hp : IsDelimited payload body)
    (hp' : IsDelimited payload' body')
    (hbody : ∀ d sub x, levels = d + 1 → FieldRun (m'.reader d) sub body x →
      FieldRun (m'.reader d) sub body' x)
    (hrun : FieldRun (m.reader levels) st (before ++ (key ++ payload ++ after)) st') :
    FieldRun (m.reader levels) st (before ++ (key ++ payload' ++ after)) st' := by
  obtain ⟨st₁, hbefore, hrest⟩ := MessageType.split_run hb hrun
  obtain ⟨d, sub, x, put, rfl, hx, hput, hafter⟩ := MessageType.exists_part_of_run hk ht hp hrest
  have hread := readDelimited_run (hbody d sub x rfl hx) hp'
  exact hbefore.append (.cons hk (fun r => (hput _).ok x r (hread r)) hafter)

/-- Of a message that is read, every message in it is made of whole fields. -/
theorem Holds.areFields {m inner : MessageType} {depth levels : Nat} {bs body : Bytes}
    {st st' : m.State} (h : Holds m bs depth inner body)
    (hrun : FieldRun (m.reader levels) st bs st') : inner.AreFields body := by
  induction h generalizing levels with
  | self => exact MessageType.areFields_of_run hrun
  | inside hb hk ht hp _ ih =>
    obtain ⟨st₁, -, hrest⟩ := MessageType.split_run hb hrun
    obtain ⟨d, sub, x, put, -, hbody, -⟩ := MessageType.exists_part_of_run hk ht hp hrest
    exact ih hbody

namespace Inserts

variable {height depth levels : Nat} {m : MessageType} {bs bs' : Bytes} {st st' : m.State}

/-- Where enough levels are left, the inserted field is skipped. -/
theorem run (h : Inserts height m depth bs bs') (hd : depth + height ≤ levels)
    (hrun : FieldRun (m.reader levels) st bs st') : FieldRun (m.reader levels) st bs' st' := by
  induction h generalizing levels with
  | @here m k before key payload after hb hk hdeclared hp =>
    obtain ⟨st₁, hbefore, hafter⟩ := m.split_run hb hrun
    refine hbefore.append (.cons hk (fun r => ?_) hafter)
    rw [m.reader_follows.undeclared k.number hdeclared, skipInto, skipField_of_isPayload hp,
      if_pos (by omega)]
    rfl
  | inside hb hk ht hp hp' _ ih =>
    refine MessageType.run_inside hb hk ht hp hp' (fun d sub x hlevels hbody => ?_) hrun
    exact ih (by omega) hbody

/-- Where too few levels are left, the inserted field is a fault. -/
theorem tooDeep (h : Inserts height m depth bs bs') (hd : levels < depth + height)
    (hrun : FieldRun (m.reader levels) st bs st') {fuel : Nat} (r : Bytes)
    (hfuel : (bs' ++ r).length ≤ fuel) :
    ∃ f, Wire.readFields (m.reader levels) r.length fuel st (bs' ++ r) = .error f ∧
      f.cause = .tooDeep := by
  induction h generalizing levels fuel r with
  | @here m k before key payload after hb hk hdeclared hp =>
    obtain ⟨st₁, hbefore, hafter⟩ := m.split_run hb hrun
    have hfield : m.reader levels k st₁ (payload ++ (after ++ r)) = fault .tooDeep := by
      rw [m.reader_follows.undeclared k.number hdeclared, skipInto, skipField_of_isPayload hp,
        if_neg (by omega)]
      rfl
    refine ⟨{ cause := .tooDeep }, ?_, rfl⟩
    simp only [List.append_assoc] at hfuel ⊢
    exact hbefore.readFields_error hk hfield (by simp only [List.length_append]; omega) hfuel
  | @inside m m' k depth before key payload payload' body body' after hb hk ht hp hp' _ ih =>
    obtain ⟨st₁, hbefore, hrest⟩ := MessageType.split_run hb hrun
    obtain ⟨d, sub, x, put, rfl, hbody, hput, hafter⟩ :=
      MessageType.exists_part_of_run hk ht hp hrest
    obtain ⟨f, hf, hcause⟩ := ih (by omega) hbody (after ++ r) (Nat.le_refl _)
    have hread : readDelimited (m'.reader d) sub (payload' ++ (after ++ r)) = .error f := by
      have hlimit : (body' ++ (after ++ r)).length - body'.length = (after ++ r).length := by
        simp
      rw [readDelimited, readLength_of_isDelimited hp']
      simp only [bind, Except.bind, hlimit, hf]
    obtain ⟨f', hf', hcause'⟩ := (hput _).error f hread
    refine ⟨f', ?_, hcause'.trans hcause⟩
    simp only [List.append_assoc] at hfuel ⊢
    exact hbefore.readFields_error hk hf' (by simp only [List.length_append]; omega) hfuel

end Inserts

/-- A reader of messages to which a field that is not declared makes no difference, as long as there
are levels left for it. A message that it reads, and every message in it, is made of whole fields,
so that a field may be inserted before each of them and behind the last. -/
structure IgnoresUndeclared {α : Type} (m : MessageType) (decode : Bytes → Except Fault α) :
    Prop where
  areFields : ∀ bs x, decode bs = .ok x → ∀ depth m' body, Holds m bs depth m' body →
    m'.AreFields body
  same : ∀ bs x, decode bs = .ok x → ∀ height depth bs', Inserts height m depth bs bs' →
    depth + height ≤ maxDepth → decode bs' = .ok x
  tooDeep : ∀ bs x, decode bs = .ok x → ∀ height depth bs', Inserts height m depth bs bs' →
    maxDepth < depth + height → ∃ f, decode bs' = .error f ∧ f.cause = .tooDeep

theorem MessageType.ignoresUndeclared (m : MessageType) : IgnoresUndeclared m m.decode where
  areFields _ _ h _ _ _ hin := hin.areFields (decode_eq_ok_iff.mp h)
  same _ _ h _ _ _ hins hd := decode_eq_ok_iff.mpr (hins.run hd (decode_eq_ok_iff.mp h))
  tooDeep bs x h height depth bs' hins hd := by
    obtain ⟨f, hf, hcause⟩ := hins.tooDeep hd (decode_eq_ok_iff.mp h) [] (Nat.le_refl _)
    rw [List.append_nil] at hf
    exact ⟨f, congrArg (Except.map Prod.fst) hf, hcause⟩

/-- **Fields that are not declared are ignored**, in paths, values and notifications and in every
message in them: with the field the same is read, and the same document is shown. Only below the
last level it is a fault. -/
theorem decode_ignoresUndeclared :
    IgnoresUndeclared .notification Notification.decode ∧
    IgnoresUndeclared .path Path.decode ∧
    IgnoresUndeclared .typedValue TypedValue.ofWire ∧
    ∀ bs n, Notification.decode bs = .ok n → ∀ height depth bs',
      Inserts height .notification depth bs bs' → depth + height ≤ maxDepth →
      ∀ source, (Notification.decode bs').map (·.render source) = .ok (n.render source) := by
  have hnotification : IgnoresUndeclared .notification Notification.decode :=
    MessageType.ignoresUndeclared .notification
  refine ⟨hnotification, MessageType.ignoresUndeclared .path,
    MessageType.ignoresUndeclared .typedValue, ?_⟩
  intro bs n h height depth bs' hins hd source
  rw [hnotification.same bs n h height depth bs' hins hd]
  rfl

/-! ## Lists in lists -/

namespace Inserts

variable {height depth : Nat} {m m' : MessageType} {body body' : Bytes}

theorem last {k : Key} {key payload : Bytes} (hb : m.AreFields body) (hk : IsKey key k)
    (hdeclared : ¬m.Declares k.number) (hp : IsPayload height k payload) :
    Inserts height m 0 body (body ++ (key ++ payload)) := by
  have h : Inserts height m 0 (body ++ []) (body ++ (key ++ payload ++ [])) :=
    here hb hk hdeclared hp
  rwa [List.append_nil, List.append_nil] at h

/-- In a message that is all of the message around it. -/
theorem only {number : Nat} (h : Inserts height m' depth body body')
    (ht : (number, .message m') ∈ m.fields) (hbody : body.length < 2 ^ 64)
    (hbody' : body'.length < 2 ^ 64) :
    Inserts height m (depth + 1) (delimitedField number body) (delimitedField number body') := by
  have hk := isKey_encode (MessageType.isValid_of_mem ht .delimited)
  have h : Inserts height m (depth + 1) ([] ++ (_ ++ _ ++ [])) ([] ++ (_ ++ _ ++ [])) :=
    inside .nil hk ht (isDelimited_varint hbody) (isDelimited_varint hbody') h
  simpa only [List.nil_append, List.append_nil, delimitedField, List.append_assoc] using h

end Inserts

/-- The bytes of a value in lists around it. -/
def inLists : Nat → Bytes → Bytes
  | 0, value => value
  | n + 1, value => delimitedField 8 (delimitedField 1 (inLists n value))

theorem inserts_inLists {height depth : Nat} {value value' : Bytes}
    (h : Inserts height .typedValue depth value value') (n : Nat)
    (hlen : (inLists n value).length < 2 ^ 64) (hlen' : (inLists n value').length < 2 ^ 64) :
    Inserts height .typedValue (depth + 2 * n) (inLists n value) (inLists n value') := by
  induction n with
  | zero => exact h
  | succ n ih =>
    have hlist := (length_le_delimitedField 8 _).trans_lt hlen
    have hlist' := (length_le_delimitedField 8 _).trans_lt hlen'
    have hvalue := (length_le_delimitedField 1 _).trans_lt hlist
    have hvalue' := (length_le_delimitedField 1 _).trans_lt hlist'
    have helement : (1, .message .typedValue) ∈ MessageType.leafList.fields := by decide
    have hmember : (8, .message .leafList) ∈ MessageType.typedValue.fields := by decide
    exact ((ih hvalue hvalue').only helement hvalue hvalue').only hmember hlist hlist'

/-- The bytes of a notification of one value, in lists. -/
def inNotification (lists : Nat) (value : Bytes) : Bytes :=
  delimitedField 4 (delimitedField 3 (inLists lists value))

theorem inserts_inNotification {height depth : Nat} {value value' : Bytes}
    (h : Inserts height .typedValue depth value value') (n : Nat)
    (hlen : (inNotification n value).length < 2 ^ 64)
    (hlen' : (inNotification n value').length < 2 ^ 64) :
    Inserts height .notification (depth + 2 * n + 2) (inNotification n value)
      (inNotification n value') := by
  have hupdate := (length_le_delimitedField 4 _).trans_lt hlen
  have hupdate' := (length_le_delimitedField 4 _).trans_lt hlen'
  have hvalue := (length_le_delimitedField 3 _).trans_lt hupdate
  have hvalue' := (length_le_delimitedField 3 _).trans_lt hupdate'
  have hmember : (3, .message .typedValue) ∈ MessageType.update.fields := by decide
  have hrepeated : (4, .message .update) ∈ MessageType.notification.fields := by decide
  have hlists := inserts_inLists h n hvalue hvalue'
  exact (hlists.only hmember hvalue hvalue').only hrepeated hupdate hupdate'

/-- The bytes of a number, as those of a value. -/
def seven : Bytes := varintField 2 7

theorem areFields_seven : MessageType.typedValue.AreFields seven := by
  have hdeclared : (2, .scalar .varint) ∈ MessageType.typedValue.fields := by decide
  exact MessageType.areFields_single hdeclared ⟨_, isVarint_varint 7⟩

theorem encode_nestedLists (v : TypedValue) (n : Nat) :
    (nestedLists v n).encode = inLists n v.encode := by
  induction n with
  | zero => rfl
  | succ n ih =>
    rw [nestedLists, TypedValue.encode, encodeElements, ih, encodeElements, List.append_nil]
    rfl

/-- The notification of seven in lists. -/
def sevenInLists (lists : Nat) : Notification :=
  { updates := [{ value := some (nestedLists (.int 7) lists) }] }

theorem decode_sevenInLists {n : Nat} (hd : (sevenInLists n).nesting ≤ maxDepth)
    (hlen : (inNotification n seven).length < 2 ^ 64) :
    Notification.decode (inNotification n seven) = .ok (sevenInLists n) := by
  have hupdate : (Update.encode { value := some (nestedLists (.int 7) n) }) =
      delimitedField 3 (inLists n seven) := by
    have hvalue := encode_nestedLists (.int 7) n
    simp only [Update.encode, Update.encodeWith, Option.map_none, Option.map_some, hvalue]
    exact List.append_nil _
  have hencode : (sevenInLists n).encode = inNotification n seven := by
    simp only [Notification.encode, sevenInLists, List.map_cons, hupdate]
    simp [Notification.encodeWith, omitIf, optionalField, repeatedField, inNotification]
  rw [← hencode]
  exact Notification.decode_of_writes (Notification.writes_encode _) hd (by rwa [hencode])

/-- The bytes of a field that is not declared, behind a value. -/
theorem inserts_behindSeven {height : Nat} {k : Key} {payload : Bytes} (n : Nat)
    (hk : k.IsValid) (hdeclared : ¬MessageType.typedValue.Declares k.number)
    (hp : IsPayload height k payload) (hseven : (inNotification n seven).length < 2 ^ 64)
    (hlen : (inNotification n (seven ++ (k.encode ++ payload))).length < 2 ^ 64) :
    Inserts height .notification (2 * n + 2) (inNotification n seven)
      (inNotification n (seven ++ (k.encode ++ payload))) := by
  have hlast : Inserts height .typedValue 0 seven (seven ++ (k.encode ++ payload)) :=
    .last areFields_seven (isKey_encode hk) hdeclared hp
  have h := inserts_inNotification hlast n hseven hlen
  rwa [Nat.zero_add] at h

/-- In forty-eight lists there is room for a group behind the number, and the number is read as
before. -/
theorem decode_ignoresUndeclared_group :
    let group := Key.encode ⟨15, .startGroup⟩ ++ (varintField 1 1 ++ Key.encode ⟨15, .endGroup⟩)
    let bs := inNotification 48 seven
    let bs' := inNotification 48 (seven ++ group)
    Notification.decode bs = .ok (sevenInLists 48) ∧
      Inserts 2 .notification 98 bs bs' ∧
      Notification.decode bs' = .ok (sevenInLists 48) := by
  intro group bs bs'
  have hn : Notification.decode bs = .ok (sevenInLists 48) :=
    decode_sevenInLists (by decide +kernel) (by decide +kernel)
  have hfields : GroupFields 1 (varintField 1 1) := by
    have hk : IsKey (Key.encode ⟨1, .varint⟩) ⟨1, .varint⟩ := isKey_encode (by decide)
    have h : GroupFields 1 (Key.encode ⟨1, .varint⟩ ++ varint 1 ++ []) :=
      .plain hk (.varint (isVarint_varint 1)) .nil
    rwa [List.append_nil] at h
  have hp : IsPayload 2 ⟨15, .startGroup⟩ (varintField 1 1 ++ Key.encode ⟨15, .endGroup⟩) :=
    .group hfields (isKey_encode (by decide))
  have hins : Inserts 2 .notification 98 bs bs' :=
    inserts_behindSeven 48 (by decide) (by decide) hp (by decide +kernel) (by decide +kernel)
  exact ⟨hn, hins, decode_ignoresUndeclared.1.same bs _ hn 2 98 bs' hins (by decide)⟩

/-- In one list more the number is at the last level, and no field may stand behind it, not even a
plain one. -/
theorem decode_undeclared_lastLevel :
    let bs := inNotification 49 seven
    let bs' := inNotification 49 (seven ++ varintField 14 1)
    Notification.decode bs = .ok (sevenInLists 49) ∧ Inserts 1 .notification 100 bs bs' ∧
      ∃ f, Notification.decode bs' = .error f ∧ f.cause = .tooDeep := by
  intro bs bs'
  have hn : Notification.decode bs = .ok (sevenInLists 49) :=
    decode_sevenInLists (by decide +kernel) (by decide +kernel)
  have hp : IsPayload 1 ⟨14, .varint⟩ (varint 1) := .plain (.varint (isVarint_varint 1))
  have hins : Inserts 1 .notification 100 bs bs' :=
    inserts_behindSeven 49 (by decide) (by decide) hp (by decide +kernel) (by decide +kernel)
  have hdecode := MessageType.ignoresUndeclared .notification
  exact ⟨hn, hins, hdecode.tooDeep bs _ hn 1 100 bs' hins (by decide)⟩

end Telemetry
