import Telemetry.Proofs.Wire.RoundTrip

/-! The schema of the messages as a table: the numbers that each message declares, and what stands
behind them. The readers follow it (`MessageType.reader_follows`): they read a declared field as one
of its type, whatever its place, and leave out all others. -/

namespace Telemetry

open Wire

inductive MessageType
  | notification
  | update
  | path
  | pathElem
  /-- An entry of a key map. -/
  | keyEntry
  | typedValue
  | leafList
  | decimal
  | any
  deriving DecidableEq, Repr

inductive ScalarType
  | varint
  | fixed32
  | bytes
  | text
  deriving DecidableEq, Repr

inductive FieldType
  | scalar (type : ScalarType)
  | message (type : MessageType)
  deriving DecidableEq, Repr

namespace ScalarType

def Value : ScalarType → Type
  | .varint => UInt64
  | .fixed32 => UInt32
  | .bytes => Bytes
  | .text => String

def read : (t : ScalarType) → WireType → Bytes → Except Fault (t.Value × Bytes)
  | .varint => readVarintField
  | .fixed32 => readFixed32Field
  | .bytes => readBytesField
  | .text => readTextField

end ScalarType

namespace MessageType

/-- The declared fields of a message. -/
def fields : MessageType → List (Nat × FieldType)
  | .notification =>
    [(1, .scalar .varint), (2, .message .path), (4, .message .update), (5, .message .path),
      (6, .scalar .varint)]
  | .update => [(1, .message .path), (3, .message .typedValue), (4, .scalar .varint)]
  | .path => [(2, .scalar .text), (3, .message .pathElem), (4, .scalar .text)]
  | .pathElem => [(1, .scalar .text), (2, .message .keyEntry)]
  | .keyEntry => [(1, .scalar .text), (2, .scalar .text)]
  | .typedValue =>
    [(1, .scalar .text), (2, .scalar .varint), (3, .scalar .varint), (4, .scalar .varint),
      (5, .scalar .bytes), (6, .scalar .fixed32), (7, .message .decimal), (8, .message .leafList),
      (9, .message .any), (10, .scalar .bytes), (11, .scalar .bytes), (12, .scalar .text),
      (13, .scalar .bytes)]
  | .leafList => [(1, .message .typedValue)]
  | .decimal => [(1, .scalar .varint), (2, .scalar .varint)]
  | .any => [(1, .scalar .text), (2, .scalar .bytes)]

def Declares (m : MessageType) (number : Nat) : Prop := number ∈ m.fields.map (·.1)

instance (m : MessageType) (number : Nat) : Decidable (m.Declares number) :=
  inferInstanceAs (Decidable (_ ∈ _))

/-- What is read of a message. -/
def State : MessageType → Type
  | .notification => Notification
  | .update => Update
  | .path => Path
  | .pathElem => PathElem
  | .keyEntry => KeyEntry
  | .typedValue => TypedValue
  | .leafList => List TypedValue
  | .decimal => Decimal64
  | .any => AnyMessage

def reader : (m : MessageType) → (depth : Nat) → FieldReader m.State
  | .notification => Notification.readField
  | .update => Update.readField
  | .path => Path.readField
  | .pathElem => PathElem.readField
  | .keyEntry => KeyEntry.readField
  | .typedValue => TypedValue.readField
  | .leafList => fun depth => readElements (TypedValue.elementReader depth) depth
  | .decimal => Decimal64.readField
  | .any => AnyMessage.readField

/-- The shape that counts for a message in a field: that of an entry of a map is not looked at. -/
def shape (m : MessageType) (w : WireType) : WireType :=
  if m = .keyEntry then .delimited else w

end MessageType

/-- A result is made of another one: of what was read in it, or of the cause of its fault. -/
structure Carries {σ α : Type} (outer : Except Fault (σ × Bytes)) (inner : Except Fault (α × Bytes))
    (put : α → σ) : Prop where
  ok : ∀ x r, inner = .ok (x, r) → outer = .ok (put x, r)
  error : ∀ f, inner = .error f → ∃ f', outer = .error f' ∧ f'.cause = f.cause

namespace Carries

variable {σ α : Type} {outer : Except Fault (σ × Bytes)} {inner inner' : Except Fault (α × Bytes)}

theorem of_map (put : α → σ) (h : outer = inner.map fun (x, s) => (put x, s)) :
    Carries outer inner put := by
  refine ⟨?_, ?_⟩
  · rintro x r rfl
    exact h
  · rintro f rfl
    exact ⟨f, h, rfl⟩

theorem of_inField {message field : String} (put : α → σ)
    (h : outer = inField message field (inner.map fun (x, s) => (put x, s))) :
    Carries outer inner put := by
  refine ⟨?_, ?_⟩
  · rintro x r rfl
    exact h
  · rintro f rfl
    exact ⟨_, h, rfl⟩

theorem of_eq {put : α → σ} (heq : inner = inner') (h : Carries outer inner put) :
    Carries outer inner' put := heq ▸ h

theorem exists_of_eq_ok {put : α → σ} (h : Carries outer inner put) {st : σ} {r : Bytes}
    (ho : outer = .ok (st, r)) : ∃ x, inner = .ok (x, r) ∧ st = put x := by
  cases inner with
  | error f =>
    obtain ⟨f', hf, -⟩ := h.error f rfl
    rw [ho] at hf
    cases hf
  | ok y =>
    obtain ⟨x, r'⟩ := y
    have hok := h.ok x r' rfl
    rw [ho] at hok
    cases hok
    exact ⟨x, rfl, rfl⟩

end Carries

/-- The reader reads a declared field as one of its type. -/
def FollowsField {σ : Type} (reader : Nat → FieldReader σ) : Nat × FieldType → Prop
  | (number, .scalar t) => ∀ depth w st, ∃ put : t.Value → σ,
    ∀ s, Carries (reader depth ⟨number, w⟩ st s) (t.read w s) put
  | (number, .message m) => ∀ depth w st, ∃ (sub : m.State) (put : m.State → σ),
    ∀ s, Carries (reader depth ⟨number, w⟩ st s)
      (readSubmessage depth m.reader (m.shape w) sub s) put

/-- A reader of the fields of a message that reads what the message declares, and nothing else. -/
structure Follows {σ : Type} (m : MessageType) (reader : Nat → FieldReader σ) : Prop where
  declared : m.fields.Forall (FollowsField reader)
  undeclared : ∀ number, ¬m.Declares number → ∀ depth w st s,
    reader depth ⟨number, w⟩ st s = skipInto depth ⟨number, w⟩ st s

theorem KeyEntry.follows : Follows .keyEntry KeyEntry.readField where
  declared := by
    refine ⟨fun depth w st => ?_, fun depth w st => ?_⟩
    · exact ⟨fun text => { st with key := text }, fun s => .of_map _ rfl⟩
    · exact ⟨fun text => { st with value := text }, fun s => .of_map _ rfl⟩
  undeclared number h depth w st s := by
    simp [MessageType.Declares, MessageType.fields] at h
    simp only [KeyEntry.readField]
    split <;> simp_all

/-- An entry of a key map is a message whose shape is not looked at. -/
theorem PathElem.readField_key (depth : Nat) (w : WireType) (e : PathElem) (s : Bytes) :
    PathElem.readField depth ⟨2, w⟩ e s = inField "PathElem" "key"
      ((readSubmessage depth KeyEntry.readField .delimited {} s).map
        fun x => ({ e with keys := e.keys.insert x.1.key x.1.value }, x.2)) := by
  cases depth with
  | zero => rfl
  | succ depth =>
    simp only [PathElem.readField, readKeyEntry, readSubmessage, expect, if_pos]
    cases readDelimited (KeyEntry.readField depth) {} s <;> rfl

theorem PathElem.follows : Follows .pathElem PathElem.readField where
  declared := by
    refine ⟨fun depth w st => ?_, fun depth w st => ?_⟩
    · exact ⟨fun text => { st with name := text }, fun s => .of_inField _ rfl⟩
    · exact ⟨KeyEntry.mk "" "",
        fun e : KeyEntry => { st with keys := st.keys.insert e.key e.value },
        fun s => .of_inField _ (PathElem.readField_key depth w st s)⟩
  undeclared number h depth w st s := by
    simp [MessageType.Declares, MessageType.fields] at h
    simp only [PathElem.readField]
    split <;> simp_all

theorem Path.follows : Follows .path Path.readField where
  declared := by
    refine ⟨fun depth w st => ?_, fun depth w st => ?_, fun depth w st => ?_⟩
    · exact ⟨fun text => { st with origin := text }, fun s => .of_inField _ rfl⟩
    · exact ⟨PathElem.mk "" .empty, fun e : PathElem => { st with elems := st.elems ++ [e] },
        fun s => .of_inField _ rfl⟩
    · exact ⟨fun text => { st with target := text }, fun s => .of_inField _ rfl⟩
  undeclared number h depth w st s := by
    simp [MessageType.Declares, MessageType.fields] at h
    simp only [Path.readField]
    split <;> simp_all

theorem Decimal64.follows : Follows .decimal Decimal64.readField where
  declared := by
    refine ⟨fun depth w st => ?_, fun depth w st => ?_⟩
    · exact ⟨fun n : UInt64 => { st with digits := n.toInt64 }, fun s => .of_inField _ rfl⟩
    · exact ⟨fun n : UInt64 => { st with precision := n.toUInt32 }, fun s => .of_inField _ rfl⟩
  undeclared number h depth w st s := by
    simp [MessageType.Declares, MessageType.fields] at h
    simp only [Decimal64.readField]
    split <;> simp_all

theorem AnyMessage.follows : Follows .any AnyMessage.readField where
  declared := by
    refine ⟨fun depth w st => ?_, fun depth w st => ?_⟩
    · exact ⟨fun text => { st with typeUrl := text }, fun s => .of_inField _ rfl⟩
    · exact ⟨fun bs => { st with value := bs }, fun s => .of_inField _ rfl⟩
  undeclared number h depth w st s := by
    simp [MessageType.Declares, MessageType.fields] at h
    simp only [AnyMessage.readField]
    split <;> simp_all

/-- In a list that has a level left for its elements they are read as values. -/
theorem readSubmessage_elementReader (depth : Nat) (w : WireType) (v : TypedValue) (s : Bytes) :
    readSubmessage depth (TypedValue.elementReader depth) w v s =
      readSubmessage depth TypedValue.readField w v s := by
  cases depth <;> rfl

theorem readSubmessage_elementsReader (depth : Nat) (w : WireType) (vs : List TypedValue)
    (s : Bytes) : readSubmessage depth (TypedValue.elementsReader depth) w vs s =
      readSubmessage depth (MessageType.reader .leafList) w vs s := by
  cases depth <;> rfl

theorem follows_readElements : Follows .leafList (MessageType.reader .leafList) where
  declared depth w st :=
    ⟨TypedValue.unset, fun v : TypedValue => List.append st [v],
      fun s => .of_eq (readSubmessage_elementReader depth w .unset s) (.of_inField _ rfl)⟩
  undeclared number h depth w st s := by
    simp [MessageType.Declares, MessageType.fields] at h
    simp only [MessageType.reader, readElements]
    rfl

theorem follows_readMember :
    Follows .typedValue fun depth => readMember (TypedValue.elementsReader depth) depth where
  declared := by
    refine ⟨?_, ?_, ?_, ?_, ?_, ?_, ?_, ?_, ?_, ?_, ?_, ?_, ?_⟩ <;> intro depth w st
    · exact ⟨.string, fun s => .of_inField _ rfl⟩
    · exact ⟨fun n : UInt64 => .int n.toInt64, fun s => .of_inField _ rfl⟩
    · exact ⟨.uint, fun s => .of_inField _ rfl⟩
    · exact ⟨fun n : UInt64 => .bool (n != 0), fun s => .of_inField _ rfl⟩
    · exact ⟨.bytes, fun s => .of_inField _ rfl⟩
    · exact ⟨.float, fun s => .of_inField _ rfl⟩
    · exact ⟨st.asDecimal, .decimal, fun s => .of_inField _ rfl⟩
    · exact ⟨st.asLeafList, .leafList,
        fun s => .of_eq (readSubmessage_elementsReader depth w _ s) (.of_inField _ rfl)⟩
    · exact ⟨st.asAny, .any, fun s => .of_inField _ rfl⟩
    · exact ⟨.json, fun s => .of_inField _ rfl⟩
    · exact ⟨.jsonIetf, fun s => .of_inField _ rfl⟩
    · exact ⟨.ascii, fun s => .of_inField _ rfl⟩
    · exact ⟨.protoBytes, fun s => .of_inField _ rfl⟩
  undeclared number h depth w st s := by
    simp [MessageType.Declares, MessageType.fields] at h
    simp only [readMember]
    split <;> simp_all

theorem TypedValue.follows : Follows .typedValue TypedValue.readField := by
  rw [funext readField_eq]
  exact follows_readMember

theorem Update.follows : Follows .update Update.readField where
  declared := by
    refine ⟨fun depth w st => ?_, fun depth w st => ?_, fun depth w st => ?_⟩
    · exact ⟨st.path.getD {}, fun p : Path => { st with path := some p },
        fun s => .of_inField _ rfl⟩
    · exact ⟨st.value.getD .unset, fun v : TypedValue => { st with value := some v },
        fun s => .of_inField _ rfl⟩
    · exact ⟨fun n : UInt64 => { st with duplicates := n.toUInt32 }, fun s => .of_inField _ rfl⟩
  undeclared number h depth w st s := by
    simp [MessageType.Declares, MessageType.fields] at h
    simp only [Update.readField]
    split <;> simp_all

theorem Notification.follows : Follows .notification Notification.readField where
  declared := by
    refine ⟨fun depth w st => ?_, fun depth w st => ?_, fun depth w st => ?_,
      fun depth w st => ?_, fun depth w st => ?_⟩
    · exact ⟨fun n : UInt64 => { st with timestamp := n.toInt64 }, fun s => .of_inField _ rfl⟩
    · exact ⟨st.base.getD {}, fun p : Path => { st with base := some p },
        fun s => .of_inField _ rfl⟩
    · exact ⟨Update.mk none none 0, fun u : Update => { st with updates := st.updates ++ [u] },
        fun s => .of_inField _ rfl⟩
    · exact ⟨Path.mk "" [] "", fun p : Path => { st with deletes := st.deletes ++ [p] },
        fun s => .of_inField _ rfl⟩
    · exact ⟨fun n : UInt64 => { st with atomic := n != 0 }, fun s => .of_inField _ rfl⟩
  undeclared number h depth w st s := by
    simp [MessageType.Declares, MessageType.fields] at h
    simp only [Notification.readField]
    split <;> simp_all

/-- **Every reader follows the schema.** -/
theorem MessageType.reader_follows (m : MessageType) : Follows m m.reader := by
  cases m with
  | notification => exact Notification.follows
  | update => exact Update.follows
  | path => exact Path.follows
  | pathElem => exact PathElem.follows
  | keyEntry => exact KeyEntry.follows
  | typedValue => exact TypedValue.follows
  | leafList => exact follows_readElements
  | decimal => exact Decimal64.follows
  | any => exact AnyMessage.follows

theorem MessageType.reader_followsField {m : MessageType} {number : Nat} {t : FieldType}
    (h : (number, t) ∈ m.fields) : FollowsField m.reader (number, t) :=
  List.forall_iff_forall_mem.mp m.reader_follows.declared _ h

end Telemetry
