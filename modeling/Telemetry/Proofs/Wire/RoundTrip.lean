import Telemetry.Proofs.Path.KeyOrder
import Telemetry.Proofs.Wire.Fields

/-! The round trip of messages. What is written of a path, a value or a notification is read as that
message again, whatever the order in which the entries of key maps are written (`wire_roundTrip`).
For each message, its fields are a run from the empty message to it, by induction on values where
lists of values nest. -/

namespace Telemetry

open Wire

@[simp] theorem inField_ok {α : Type} (message field : String) (x : α) :
    inField message field (.ok x) = .ok x := rfl

@[simp] theorem except_map_ok {ε α β : Type} (f : α → β) (x : α) :
    Except.map f (.ok x : Except ε α) = .ok (f x) := rfl

/-- Each body is what is written of its message. -/
theorem forall₂_encode {α : Type} {writes : α → Bytes → Prop} {encode : α → Bytes}
    (h : ∀ x, writes x (encode x)) (xs : List α) : List.Forall₂ writes xs (xs.map encode) :=
  List.forall₂_map_right_iff.mpr (List.forall₂_same.mpr fun x _ => h x)

theorem optionRel_encode {α : Type} {writes : α → Bytes → Prop} {encode : α → Bytes}
    (h : ∀ x, writes x (encode x)) (x : Option α) : Option.Rel writes x (x.map encode) := by
  cases x with
  | none => exact .none
  | some x => exact .some (h x)

/-! ## Nesting -/

/-- How many levels of messages are below a message whose parts have so many below them. -/
def levelsBelow (parts : List Nat) : Nat := parts.foldr (fun n levels => max (n + 1) levels) 0

theorem lt_levelsBelow {n : Nat} {parts : List Nat} (h : n ∈ parts) : n < levelsBelow parts := by
  induction parts with
  | nil => cases h
  | cons m parts ih =>
    have hmax : levelsBelow (m :: parts) = max (m + 1) (levelsBelow parts) := rfl
    rcases List.mem_cons.mp h with rfl | h
    · omega
    · have := ih h
      omega

theorem lt_of_mem_parts {n depth : Nat} {parts : List Nat} (hd : levelsBelow parts ≤ depth)
    (h : n ∈ parts) : n < depth :=
  (lt_levelsBelow h).trans_le hd

/-- Each entry of a key map is a message of its own. -/
def PathElem.nesting (e : PathElem) : Nat := levelsBelow (e.keys.entries.map fun _ => 0)

def Path.nesting (p : Path) : Nat := levelsBelow (p.elems.map PathElem.nesting)

mutual

def TypedValue.nesting : TypedValue → Nat
  | .decimal _ | .any _ => 1
  | .leafList es => elementsNesting es + 1
  | _ => 0

def elementsNesting : List TypedValue → Nat
  | [] => 0
  | v :: vs => max (v.nesting + 1) (elementsNesting vs)

end

def Update.nesting (u : Update) : Nat :=
  levelsBelow (u.path.toList.map Path.nesting ++ u.value.toList.map TypedValue.nesting)

def Notification.nesting (m : Notification) : Nat :=
  levelsBelow (m.base.toList.map Path.nesting ++ m.updates.map Update.nesting
    ++ m.deletes.map Path.nesting)

/-! ## What is written of a message -/

/-- The bytes of an element with the entries of its map in some order. -/
def PathElem.Writes (e : PathElem) (bs : Bytes) : Prop :=
  ∃ entries : List (String × String), entries.Perm e.keys.entries ∧
    bs = PathElem.encodeWith e.name entries

def Path.Writes (p : Path) (bs : Bytes) : Prop :=
  ∃ elems, List.Forall₂ PathElem.Writes p.elems elems ∧ bs = p.encodeWith elems

def Update.Writes (u : Update) (bs : Bytes) : Prop :=
  ∃ path, Option.Rel Path.Writes u.path path ∧ bs = u.encodeWith path

def Notification.Writes (m : Notification) (bs : Bytes) : Prop :=
  ∃ base updates deletes, Option.Rel Path.Writes m.base base ∧
    List.Forall₂ Update.Writes m.updates updates ∧ List.Forall₂ Path.Writes m.deletes deletes ∧
    bs = m.encodeWith base updates deletes

/-! ## Paths -/

theorem KeyEntry.reads (depth : Nat) (e : String × String) :
    Reads (KeyEntry.readField depth) {} (encodeKeyEntry e) ⟨e.1, e.2⟩ := by
  have hkey : Reads (KeyEntry.readField depth) {} (omitIf (e.1 == "") (textField 1 e.1))
      ⟨e.1, ""⟩ :=
    .scalar (KeyEntry.mk · "")
      (.text fun s r hs => by simp [KeyEntry.readField, hs])
  have hvalue : Reads (KeyEntry.readField depth) ⟨e.1, ""⟩
      (omitIf (e.2 == "") (textField 2 e.2)) ⟨e.1, e.2⟩ :=
    .scalar (KeyEntry.mk e.1 ·)
      (.text fun s r hs => by simp [KeyEntry.readField, hs])
  exact hkey.append hvalue

/-- An entry is inserted into the map that has been read so far. -/
theorem PathElem.readsEntry (depth : Nat) (name : String) (m : KeyMap) (e : String × String) :
    Reads (PathElem.readField (depth + 1)) ⟨name, m⟩ (delimitedField 2 (encodeKeyEntry e))
      ⟨name, m.insert e.1 e.2⟩ := by
  refine .delimited fun hlen payload hp r => ?_
  have hread := readDelimited_run (KeyEntry.reads depth e hlen) hp r
  simp only [PathElem.readField, readKeyEntry, hread, except_map_ok, inField_ok]

theorem PathElem.reads {e : PathElem} {bs : Bytes} (h : e.Writes bs) {depth : Nat}
    (hd : e.nesting ≤ depth) : Reads (PathElem.readField depth) {} bs e := by
  obtain ⟨entries, hperm, rfl⟩ := h
  have hname : Reads (PathElem.readField depth) {} (omitIf (e.name == "") (textField 1 e.name))
      ⟨e.name, .empty⟩ :=
    .scalar (PathElem.mk · .empty)
      (.text fun s r hs => by simp [PathElem.readField, hs])
  have hkeys : Reads (PathElem.readField depth) ⟨e.name, .empty⟩
      (repeatedField 2 (entries.map encodeKeyEntry)) ⟨e.name, .ofList entries⟩ := by
    refine .repeated (fun read => PathElem.mk e.name (.ofList read))
      (forall₂_encode (fun _ => rfl) entries) (fun before entry body hmem hbody => ?_) []
    have hlevel : 0 < depth := lt_of_mem_parts hd (List.mem_map_of_mem (hperm.subset hmem))
    obtain ⟨depth, rfl⟩ := Nat.exists_eq_succ_of_ne_zero hlevel.ne'
    rw [← hbody, KeyMap.ofList_concat]
    exact readsEntry depth e.name _ entry
  rw [KeyMap.ofList_of_perm hperm] at hkeys
  exact hname.append hkeys

theorem Path.reads {p : Path} {bs : Bytes} (h : p.Writes bs) {depth : Nat}
    (hd : p.nesting ≤ depth) : Reads (Path.readField depth) {} bs p := by
  obtain ⟨elems, helems, rfl⟩ := h
  have horigin : Reads (Path.readField depth) {} (omitIf (p.origin == "") (textField 2 p.origin))
      ⟨p.origin, [], ""⟩ :=
    .scalar (Path.mk · [] "") (.text fun s r hs => by simp [Path.readField, hs])
  have hall : Reads (Path.readField depth) ⟨p.origin, [], ""⟩ (repeatedField 3 elems)
      ⟨p.origin, p.elems, ""⟩ := by
    refine .repeated (Path.mk p.origin · "") helems (fun before e body hmem hbody => ?_) []
    have hlevel : e.nesting < depth := lt_of_mem_parts hd (List.mem_map_of_mem hmem)
    exact .part hlevel (fun _ => PathElem.reads hbody) fun s r hs => by
      simp [Path.readField, hs]
  have htarget : Reads (Path.readField depth) ⟨p.origin, p.elems, ""⟩
      (omitIf (p.target == "") (textField 4 p.target)) p :=
    .scalar (Path.mk p.origin p.elems ·)
      (.text fun s r hs => by simp [Path.readField, hs])
  exact (horigin.append hall).append htarget

/-! ## Values -/

theorem Decimal64.reads (depth : Nat) (d : Decimal64) :
    Reads (Decimal64.readField depth) {} d.encode d := by
  have hdigits : Reads (Decimal64.readField depth) {}
      (omitIf (d.digits == 0) (varintField 1 d.digits.toUInt64)) ⟨d.digits, 0⟩ :=
    .scalar (Decimal64.mk · 0)
      (.varint fun s r hs => by simp [Decimal64.readField, hs])
  have hprecision : Reads (Decimal64.readField depth) ⟨d.digits, 0⟩
      (omitIf (d.precision == 0) (varintField 2 d.precision.toUInt64)) d :=
    .scalar (Decimal64.mk d.digits ·)
      (.varint fun s r hs => by simp [Decimal64.readField, hs])
  exact hdigits.append hprecision

theorem AnyMessage.reads (depth : Nat) (a : AnyMessage) :
    Reads (AnyMessage.readField depth) {} a.encode a := by
  have htype : Reads (AnyMessage.readField depth) {}
      (omitIf (a.typeUrl == "") (textField 1 a.typeUrl)) ⟨a.typeUrl, []⟩ :=
    .scalar (AnyMessage.mk · [])
      (.text fun s r hs => by simp [AnyMessage.readField, hs])
  have hvalue : Reads (AnyMessage.readField depth) ⟨a.typeUrl, []⟩
      (omitIf (a.value == []) (delimitedField 2 a.value)) a :=
    .scalar (AnyMessage.mk a.typeUrl ·)
      (.bytes fun s r hs => by simp [AnyMessage.readField, hs])
  exact htype.append hvalue

namespace TypedValue

/-- What reads an element of a list that lies inside of a value. -/
def elementReader : Nat → Nat → FieldReader TypedValue
  | 0 => fun _ _ _ _ => fault .tooDeep
  | depth + 1 => fun _ => readField depth

def elementsReader : Nat → Nat → FieldReader (List TypedValue)
  | 0 => fun _ _ _ _ => fault .tooDeep
  | depth + 1 => readElements (elementReader depth)

theorem readField_eq (depth : Nat) : readField depth = readMember (elementsReader depth) depth := by
  match depth with
  | 0 => rfl
  | 1 => rfl
  | _ + 2 => rfl

mutual

/-- By induction on the value, because the elements of a list are values two levels below it. -/
theorem reads (v : TypedValue) {depth : Nat} (hd : v.nesting ≤ depth) :
    Reads (readField depth) .unset v.encode v := by
  rw [readField_eq]
  cases v with
  | unset => exact .nil _
  | string v => exact .text fun s r hs => by simp [readMember, hs]
  | int v => exact .varint fun s r hs => by simp [readMember, hs]
  | uint v => exact .varint fun s r hs => by simp [readMember, hs]
  | bool v =>
    exact .varint fun s r hs => by simp [readMember, hs, boolWord_bne_zero]
  | bytes v => exact .bytes fun s r hs => by simp [readMember, hs]
  | float w => exact .fixed32 fun s r hs => by simp [readMember, hs]
  | decimal d =>
    exact .part hd (fun depth _ => d.reads depth) fun s r hs => by
      simp [readMember, asDecimal, hs]
  | leafList es =>
    obtain ⟨depth, rfl⟩ := Nat.exists_eq_succ_of_ne_zero (Nat.ne_zero_of_lt hd)
    have hes := readsElements es (Nat.le_of_succ_le_succ hd) []
    exact .submessage hes fun s r hs => by simp [readMember, asLeafList, hs]
  | any a =>
    exact .part hd (fun depth _ => a.reads depth) fun s r hs => by
      simp [readMember, asAny, hs]
  | json t => exact .bytes fun s r hs => by simp [readMember, hs]
  | jsonIetf t => exact .bytes fun s r hs => by simp [readMember, hs]
  | ascii v => exact .text fun s r hs => by simp [readMember, hs]
  | protoBytes v => exact .bytes fun s r hs => by simp [readMember, hs]

/-- The elements of a list, behind those that have been read `before`. -/
theorem readsElements (es : List TypedValue) {depth : Nat} (hd : elementsNesting es ≤ depth)
    (before : List TypedValue) :
    Reads (elementsReader (depth + 1) depth) before (encodeElements es) (before ++ es) := by
  cases es with
  | nil =>
    rw [List.append_nil]
    exact .nil before
  | cons v vs =>
    rw [elementsNesting, Nat.max_le] at hd
    obtain ⟨hv, hvs⟩ := hd
    obtain ⟨depth, rfl⟩ := Nat.exists_eq_succ_of_ne_zero (Nat.ne_zero_of_lt hv)
    have hvalue : Reads (elementReader (depth + 1) depth) .unset v.encode v :=
      reads v (Nat.le_of_succ_le_succ hv)
    have hfirst : Reads (elementsReader (depth + 2) (depth + 1)) before
        (delimitedField 1 v.encode) (before ++ [v]) :=
      .submessage hvalue fun s r hs => by simp [elementsReader, readElements, hs]
    have hrest := readsElements vs hvs (before ++ [v])
    rw [List.append_assoc] at hrest
    exact hfirst.append hrest

end

end TypedValue

/-! ## Notifications -/

theorem Update.reads {u : Update} {bs : Bytes} (h : u.Writes bs) {depth : Nat}
    (hd : u.nesting ≤ depth) : Reads (Update.readField depth) {} bs u := by
  obtain ⟨path, hrel, rfl⟩ := h
  have hpath : Reads (Update.readField depth) {} (optionalField 1 path) ⟨u.path, none, 0⟩ := by
    refine .optional (Update.mk · none 0) hrel fun p body hp hw => ?_
    have hlevel : p.nesting < depth := lt_of_mem_parts hd (by simp [Option.mem_def.mp hp])
    exact .part hlevel (fun _ => Path.reads hw) fun s r hs => by
      simp [Update.readField, hs]
  have hvalue : Reads (Update.readField depth) ⟨u.path, none, 0⟩
      (optionalField 3 (u.value.map TypedValue.encode)) ⟨u.path, u.value, 0⟩ := by
    refine .optional (Update.mk u.path · 0) (optionRel_encode (fun _ => rfl) u.value)
      fun v body hv hw => ?_
    have hlevel : v.nesting < depth := lt_of_mem_parts hd (by simp [Option.mem_def.mp hv])
    rw [← hw]
    exact .part hlevel (fun _ => v.reads) fun s r hs => by simp [Update.readField, hs]
  have hduplicates : Reads (Update.readField depth) ⟨u.path, u.value, 0⟩
      (omitIf (u.duplicates == 0) (varintField 4 u.duplicates.toUInt64)) u :=
    .scalar (Update.mk u.path u.value ·)
      (.varint fun s r hs => by simp [Update.readField, hs])
  exact (hpath.append hvalue).append hduplicates

theorem Notification.reads {m : Notification} {bs : Bytes} (h : m.Writes bs) {depth : Nat}
    (hd : m.nesting ≤ depth) : Reads (Notification.readField depth) {} bs m := by
  obtain ⟨base, updates, deletes, hbase, hupdates, hdeletes, rfl⟩ := h
  have htimestamp : Reads (Notification.readField depth) {}
      (omitIf (m.timestamp == 0) (varintField 1 m.timestamp.toUInt64))
      ⟨m.timestamp, none, [], [], false⟩ :=
    .scalar (Notification.mk · none [] [] false)
      (.varint fun s r hs => by simp [Notification.readField, hs])
  have hbase' : Reads (Notification.readField depth) ⟨m.timestamp, none, [], [], false⟩
      (optionalField 2 base) ⟨m.timestamp, m.base, [], [], false⟩ := by
    refine .optional (Notification.mk m.timestamp · [] [] false) hbase fun p body hp hw => ?_
    have hlevel : p.nesting < depth := lt_of_mem_parts hd (by simp [Option.mem_def.mp hp])
    exact .part hlevel (fun _ => Path.reads hw) fun s r hs => by
      simp [Notification.readField, hs]
  have hupdates' : Reads (Notification.readField depth) ⟨m.timestamp, m.base, [], [], false⟩
      (repeatedField 4 updates) ⟨m.timestamp, m.base, m.updates, [], false⟩ := by
    refine .repeated (Notification.mk m.timestamp m.base · [] false) hupdates
      (fun before u body hmem hw => ?_) []
    have hlevel : u.nesting < depth := by
      refine lt_of_mem_parts hd (List.mem_append_left _ (List.mem_append_right _ ?_))
      exact List.mem_map_of_mem hmem
    exact .part hlevel (fun _ => Update.reads hw) fun s r hs => by
      simp [Notification.readField, hs]
  have hdeletes' : Reads (Notification.readField depth)
      ⟨m.timestamp, m.base, m.updates, [], false⟩ (repeatedField 5 deletes)
      ⟨m.timestamp, m.base, m.updates, m.deletes, false⟩ := by
    refine .repeated (Notification.mk m.timestamp m.base m.updates · false) hdeletes
      (fun before p body hmem hw => ?_) []
    have hlevel : p.nesting < depth :=
      lt_of_mem_parts hd (List.mem_append_right _ (List.mem_map_of_mem hmem))
    exact .part hlevel (fun _ => Path.reads hw) fun s r hs => by
      simp [Notification.readField, hs]
  have hatomic : Reads (Notification.readField depth)
      ⟨m.timestamp, m.base, m.updates, m.deletes, false⟩
      (omitIf (!m.atomic) (varintField 6 (boolWord m.atomic))) m := by
    rw [show (!m.atomic) = (m.atomic == false) by cases m.atomic <;> rfl]
    exact .scalar (Notification.mk m.timestamp m.base m.updates m.deletes ·)
      (.varint fun s r hs => by
        simp [Notification.readField, hs, boolWord_bne_zero])
  exact (((htimestamp.append hbase').append hupdates').append hdeletes').append hatomic

/-! ## The round trip -/

theorem PathElem.writes_encode (e : PathElem) : e.Writes e.encode := ⟨_, .refl _, rfl⟩

theorem Path.writes_encode (p : Path) : p.Writes p.encode :=
  ⟨_, forall₂_encode PathElem.writes_encode p.elems, rfl⟩

theorem Update.writes_encode (u : Update) : u.Writes u.encode :=
  ⟨_, optionRel_encode Path.writes_encode u.path, rfl⟩

theorem Notification.writes_encode (m : Notification) : m.Writes m.encode :=
  ⟨_, _, _, optionRel_encode Path.writes_encode m.base,
    forall₂_encode Update.writes_encode m.updates, forall₂_encode Path.writes_encode m.deletes, rfl⟩

theorem levelsBelow_le {bound : Nat} {parts : List Nat} (h : ∀ n ∈ parts, n ≤ bound) :
    levelsBelow parts ≤ bound + 1 := by
  induction parts with
  | nil => exact Nat.zero_le _
  | cons n parts ih =>
    obtain ⟨hn, h⟩ := List.forall_mem_cons.mp h
    exact Nat.max_le.mpr ⟨Nat.succ_le_succ hn, ih h⟩

/-- Paths are never nested too deeply. -/
theorem Path.nesting_le (p : Path) : p.nesting ≤ 2 := by
  refine levelsBelow_le fun n hn => ?_
  obtain ⟨e, _, rfl⟩ := List.mem_map.mp hn
  refine levelsBelow_le fun n hn => ?_
  obtain ⟨_, _, rfl⟩ := List.mem_map.mp hn
  exact Nat.le_refl 0

theorem Path.decode_of_writes {p : Path} {bs : Bytes} (h : p.Writes bs)
    (hlen : bs.length < 2 ^ 64) : Path.decode bs = .ok p :=
  readMessage_run (Path.reads h (p.nesting_le.trans (by decide)) hlen)

theorem TypedValue.ofWire_encode {v : TypedValue} (hd : v.nesting ≤ maxDepth)
    (hlen : v.encode.length < 2 ^ 64) : TypedValue.ofWire v.encode = .ok v :=
  readMessage_run (v.reads hd hlen)

theorem Notification.decode_of_writes {m : Notification} {bs : Bytes} (h : m.Writes bs)
    (hd : m.nesting ≤ maxDepth) (hlen : bs.length < 2 ^ 64) : Notification.decode bs = .ok m :=
  readMessage_run (Notification.reads h hd hlen)

/-- **What is written of a message is read as that message.** This holds of all paths, and of all
values and notifications within the depth of nesting, with the entries of every key map written in
an order of its own; the usual writing is one of them. The bytes are as many as a length of 64 bits
can count. -/
theorem wire_roundTrip :
    (∀ p : Path, p.Writes p.encode ∧
      ∀ bs, p.Writes bs → bs.length < 2 ^ 64 → Path.decode bs = .ok p) ∧
    (∀ v : TypedValue, v.nesting ≤ maxDepth → v.encode.length < 2 ^ 64 →
      TypedValue.ofWire v.encode = .ok v) ∧
    (∀ m : Notification, m.Writes m.encode ∧
      (m.nesting ≤ maxDepth → ∀ bs, m.Writes bs → bs.length < 2 ^ 64 →
        Notification.decode bs = .ok m)) := by
  refine ⟨fun p => ⟨p.writes_encode, ?_⟩, ?_, fun m => ⟨m.writes_encode, ?_⟩⟩
  · intro bs h hlen
    exact Path.decode_of_writes h hlen
  · intro v hd hlen
    exact TypedValue.ofWire_encode hd hlen
  · intro hd bs h hlen
    exact Notification.decode_of_writes h hd hlen

/-- Lists in lists, around a value. -/
def nestedLists (v : TypedValue) : Nat → TypedValue
  | 0 => v
  | n + 1 => .leafList [nestedLists v n]

/-- A notification of the greatest depth: lists around a float that is no number, a key map that is
written backwards, an empty common path and an update without anything in it. With one list more it
is too deep to be read. -/
theorem wire_roundTrip_deepest :
    let keys := KeyMap.ofList [("", "Ethernet1/1"), ("name", ""), ("z", "é")]
    let p : Path := { elems := [{ name := "interface", keys := keys }] }
    let u : Update := { path := some p, value := some (nestedLists (.float 0x7fa00001) 49) }
    let m : Notification :=
      { timestamp := -1, base := some {}, updates := [u, {}], atomic := true }
    let elem := PathElem.encodeWith "interface" [("z", "é"), ("name", ""), ("", "Ethernet1/1")]
    let bs := m.encodeWith (some []) [u.encodeWith (some (p.encodeWith [elem])), []] []
    let deeper : Notification :=
      { updates := [{ value := some (nestedLists (.float 0x7fa00001) 50) }] }
    m.Writes bs ∧ m.nesting = maxDepth ∧ bs.length < 2 ^ 64 ∧ Notification.decode bs = .ok m ∧
      maxDepth < deeper.nesting ∧ (Notification.decode deeper.encode).toOption.isNone := by
  intro keys p u m elem bs deeper
  have hperm : [("z", "é"), ("name", ""), ("", "Ethernet1/1")].Perm keys.entries := by
    decide +kernel
  have helem : PathElem.Writes { name := "interface", keys := keys } elem := ⟨_, hperm, rfl⟩
  have hpath : p.Writes (p.encodeWith [elem]) := ⟨[elem], .cons helem .nil, rfl⟩
  have hupdate : u.Writes (u.encodeWith (some (p.encodeWith [elem]))) := ⟨_, .some hpath, rfl⟩
  have hempty : Update.Writes {} [] := ⟨none, .none, rfl⟩
  have h : m.Writes bs :=
    ⟨some [], _, [], .some (Path.writes_encode {}), .cons hupdate (.cons hempty .nil), .nil, rfl⟩
  have hd : m.nesting = maxDepth := by decide +kernel
  have hlen : bs.length < 2 ^ 64 := by decide +kernel
  have hdeeper : maxDepth < deeper.nesting ∧
      (Notification.decode deeper.encode).toOption.isNone := by decide +kernel
  obtain ⟨_, _, hm⟩ := wire_roundTrip
  exact ⟨h, hd, hlen, (hm m).2 hd.le bs h hlen, hdeeper⟩

end Telemetry
