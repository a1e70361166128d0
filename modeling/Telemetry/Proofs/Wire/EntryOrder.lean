import Telemetry.Proofs.Path.Listing
import Telemetry.Proofs.Wire.Reordering

/-! The order of the entries of key maps. What is written of a notification is one message, up to
the order of entries (`Notification.Writes.reorders`), by showing of each part of it that it may be
written in either way (`Rearranged`). Neither the text of a path nor the document that is shown of a
message depends on that order (`ignoresKeyOrder`). -/

namespace Telemetry

open Wire

/-- Parts of a message, made of whole fields, that differ in the order of entries. Lengths are
numbers of 64 bits. -/
structure Rearranged (m : MessageType) (bs bs' : Bytes) : Prop where
  length : bs.length = bs'.length
  fields : bs.length < 2 ^ 64 → m.AreFields bs
  fields' : bs'.length < 2 ^ 64 → m.AreFields bs'
  reorders : bs.length < 2 ^ 64 → ∀ before after, m.AreFields before →
    Reorders m (before ++ (bs ++ after)) (before ++ (bs' ++ after))

namespace Rearranged

variable {m m' : MessageType} {number : Nat} {bs bs' cs cs' : Bytes}

theorem same (h : bs.length < 2 ^ 64 → m.AreFields bs) : Rearranged m bs bs :=
  ⟨rfl, h, h, fun _ _ _ _ => .refl⟩

theorem append (h : Rearranged m bs bs') (h' : Rearranged m cs cs') :
    Rearranged m (bs ++ cs) (bs' ++ cs') where
  length := by rw [List.length_append, List.length_append, h.length, h'.length]
  fields := by
    intro hlen
    rw [List.length_append] at hlen
    exact (h.fields (by omega)).append (h'.fields (by omega))
  fields' := by
    intro hlen
    rw [List.length_append] at hlen
    exact (h.fields' (by omega)).append (h'.fields' (by omega))
  reorders := by
    intro hlen before after hb
    rw [List.length_append] at hlen
    have hbs := h.reorders (by omega) before (cs ++ after) hb
    have hcs := h'.reorders (by omega) (before ++ bs') after
      (hb.append (h.fields' (by rw [← h.length]; omega)))
    simp only [List.append_assoc] at hbs hcs ⊢
    exact hbs.trans hcs

theorem text {s : String} (ht : (number, .scalar .text) ∈ m.fields := by decide) :
    Rearranged m (textField number s) (textField number s) :=
  same (MessageType.areFields_delimitedField ht fun _ hp => ⟨_, hp⟩)

theorem varint {n : UInt64} (ht : (number, .scalar .varint) ∈ m.fields := by decide) :
    Rearranged m (varintField number n) (varintField number n) :=
  same fun _ => MessageType.areFields_single ht ⟨_, isVarint_varint n⟩

theorem omitIf {isDefault : Bool} (h : Rearranged m bs bs) :
    Rearranged m (Wire.omitIf isDefault bs) (Wire.omitIf isDefault bs) := by
  rw [Wire.omitIf]
  split
  · exact same fun _ => .nil
  · exact h

/-- Parts of a message in a field. -/
theorem inside {body body' : Bytes} (h : Rearranged m' body body')
    (ht : (number, .message m') ∈ m.fields := by decide) :
    Rearranged m (delimitedField number body) (delimitedField number body') where
  length := by simp only [delimitedField, List.length_append, h.length]
  fields := MessageType.areFields_delimitedField ht fun _ hp => ⟨_, hp⟩
  fields' := MessageType.areFields_delimitedField ht fun _ hp => ⟨_, hp⟩
  reorders := by
    intro hlen before after hb
    have hbody := (length_le_delimitedField number body).trans_lt hlen
    have hbody' : body'.length < 2 ^ 64 := h.length ▸ hbody
    have hreorders := h.reorders hbody [] [] .nil
    simp only [List.nil_append, List.append_nil] at hreorders
    have hfield : Reorders m (before ++ (_ ++ _ ++ after)) (before ++ (_ ++ _ ++ after)) :=
      .inside hb (isKey_encode (MessageType.isValid_of_mem ht .delimited)) ht
        (isDelimited_varint hbody) (isDelimited_varint hbody') hreorders
    simpa only [delimitedField, List.append_assoc] using hfield

theorem optional {body body' : Option Bytes} (h : Option.Rel (Rearranged m') body body')
    (ht : (number, .message m') ∈ m.fields := by decide) :
    Rearranged m (optionalField number body) (optionalField number body') := by
  cases h with
  | none => exact same fun _ => .nil
  | some h => exact h.inside ht

theorem repeated {bodies bodies' : List Bytes} (h : List.Forall₂ (Rearranged m') bodies bodies')
    (ht : (number, .message m') ∈ m.fields := by decide) :
    Rearranged m (repeatedField number bodies) (repeatedField number bodies') := by
  induction h with
  | nil => exact same fun _ => .nil
  | cons h _ ih => exact (h.inside ht).append ih

/-- A message in a field, of which nothing differs. -/
theorem sameMessage {body : Bytes} (ht : (number, .message m') ∈ m.fields) :
    Rearranged m (delimitedField number body) (delimitedField number body) :=
  same (MessageType.areFields_delimitedField ht fun _ hp => ⟨_, hp⟩)

theorem sameOptional {body : Option Bytes} (ht : (number, .message m') ∈ m.fields) :
    Rearranged m (optionalField number body) (optionalField number body) := by
  cases body with
  | none => exact same fun _ => .nil
  | some body => exact sameMessage ht

theorem trans {bs'' : Bytes} (h : Rearranged m bs bs') (h' : Rearranged m bs' bs'') :
    Rearranged m bs bs'' where
  length := h.length.trans h'.length
  fields := h.fields
  fields' := h'.fields'
  reorders hlen before after hb :=
    (h.reorders hlen before after hb).trans (h'.reorders (h.length ▸ hlen) before after hb)

theorem entry (e : String × String) : Rearranged .pathElem
    (delimitedField 2 (encodeKeyEntry e)) (delimitedField 2 (encodeKeyEntry e)) := by
  have ht : (2, .message .keyEntry) ∈ MessageType.pathElem.fields := by decide
  exact sameMessage ht

theorem swapEntries {e e' : String × String} (h : e.1 ≠ e'.1) : Rearranged .pathElem
    (delimitedField 2 (encodeKeyEntry e) ++ delimitedField 2 (encodeKeyEntry e'))
    (delimitedField 2 (encodeKeyEntry e') ++ delimitedField 2 (encodeKeyEntry e)) where
  length := by simp only [List.length_append, Nat.add_comm]
  fields := ((entry e).append (entry e')).fields
  fields' := ((entry e').append (entry e)).fields
  reorders := by
    intro hlen before after hb
    rw [List.length_append] at hlen
    have hlt : (encodeKeyEntry e).length < 2 ^ 64 :=
      (length_le_delimitedField 2 _).trans_lt (by omega)
    have hlt' : (encodeKeyEntry e').length < 2 ^ 64 :=
      (length_le_delimitedField 2 _).trans_lt (by omega)
    have hx : KeyEntry.IsReadAs (encodeKeyEntry e) ⟨e.1, e.2⟩ := ⟨0, KeyEntry.reads 0 e hlt⟩
    have hx' : KeyEntry.IsReadAs (encodeKeyEntry e') ⟨e'.1, e'.2⟩ :=
      ⟨0, KeyEntry.reads 0 e' hlt'⟩
    have hp' := isDelimited_varint hlt'
    have ht : (2, .message .keyEntry) ∈ MessageType.pathElem.fields := by decide
    have hk : Key.IsValid ⟨2, .delimited⟩ := by decide
    have hswap : Reorders .pathElem (before ++ (_ ++ _ ++ (_ ++ _ ++ after)))
        (before ++ (_ ++ _ ++ (_ ++ _ ++ after))) :=
      .swap hb (isKey_encode hk) rfl (isDelimited_varint hlt) hx (isKey_encode hk)
        (.declared ht ⟨_, hp'⟩) fun _ body' x' hbody hx₁ => by
          obtain ⟨-, rfl⟩ := hp'.unique hbody (r := []) (s := []) rfl
          rw [hx₁.unique hx']
          exact h.symm
    simpa only [delimitedField, List.append_assoc] using hswap

theorem sameEntries (es : List (String × String)) : Rearranged .pathElem
    (repeatedField 2 (es.map encodeKeyEntry)) (repeatedField 2 (es.map encodeKeyEntry)) := by
  induction es with
  | nil => exact same fun _ => .nil
  | cons e es ih => exact (entry e).append ih

/-- Entries of different keys, in any two orders. -/
theorem entries {es es' : List (String × String)} (h : es.Perm es')
    (hn : (es.map Prod.fst).Nodup) : Rearranged .pathElem
      (repeatedField 2 (es.map encodeKeyEntry)) (repeatedField 2 (es'.map encodeKeyEntry)) := by
  induction h with
  | nil => exact same fun _ => .nil
  | cons e _ ih => exact (entry e).append (ih (List.nodup_cons.mp hn).2)
  | swap e e' es =>
    have hne : e'.1 ≠ e.1 := by
      simp only [List.map_cons, List.nodup_cons, List.mem_cons, not_or] at hn
      exact hn.1.1
    have hboth := (swapEntries hne).append (sameEntries es)
    simp only [List.append_assoc] at hboth
    exact hboth
  | trans h _ ih ih' => exact (ih hn).trans (ih' ((h.map Prod.fst).nodup_iff.mp hn))

/-- The parts in one way and in the other, if this is so of each part. -/
theorem of_forall₂ {α : Type} {writes : α → Bytes → Prop} {xs : List α}
    {bodies bodies' : List Bytes} (hx : List.Forall₂ writes xs bodies)
    (hx' : List.Forall₂ writes xs bodies')
    (h : ∀ x body body', writes x body → writes x body' → Rearranged m body body') :
    List.Forall₂ (Rearranged m) bodies bodies' := by
  induction hx generalizing bodies' with
  | nil =>
    cases hx'
    exact .nil
  | cons hw _ ih =>
    cases hx' with
    | cons hw' hx' => exact .cons (h _ _ _ hw hw') (ih hx')

theorem of_optionRel {α : Type} {writes : α → Bytes → Prop} {x : Option α}
    {body body' : Option Bytes} (hx : Option.Rel writes x body) (hx' : Option.Rel writes x body')
    (h : ∀ x body body', writes x body → writes x body' → Rearranged m body body') :
    Option.Rel (Rearranged m) body body' := by
  cases hx with
  | none =>
    cases hx'
    exact .none
  | some hw =>
    cases hx' with
    | some hw' => exact .some (h _ _ _ hw hw')

end Rearranged

theorem PathElem.Writes.rearranged {e : PathElem} {bs bs' : Bytes} (h : e.Writes bs)
    (h' : e.Writes bs') : Rearranged .pathElem bs bs' := by
  obtain ⟨es, hp, rfl⟩ := h
  obtain ⟨es', hp', rfl⟩ := h'
  have hnodup : (es.map Prod.fst).Nodup := (hp.map Prod.fst).nodup_iff.mpr e.keys.nodup_keys
  exact (Rearranged.omitIf .text).append (.entries (hp.trans hp'.symm) hnodup)

theorem Path.Writes.rearranged {p : Path} {bs bs' : Bytes} (h : p.Writes bs) (h' : p.Writes bs') :
    Rearranged .path bs bs' := by
  obtain ⟨elems, hw, rfl⟩ := h
  obtain ⟨elems', hw', rfl⟩ := h'
  have helems := Rearranged.of_forall₂ hw hw' fun _ _ _ => PathElem.Writes.rearranged
  exact ((Rearranged.omitIf .text).append (.repeated helems)).append (.omitIf .text)

theorem Update.Writes.rearranged {u : Update} {bs bs' : Bytes} (h : u.Writes bs)
    (h' : u.Writes bs') : Rearranged .update bs bs' := by
  obtain ⟨path, hw, rfl⟩ := h
  obtain ⟨path', hw', rfl⟩ := h'
  have hpath := Rearranged.of_optionRel hw hw' fun _ _ _ => Path.Writes.rearranged
  have ht : (3, .message .typedValue) ∈ MessageType.update.fields := by decide
  have hvalue : Rearranged .update (optionalField 3 (u.value.map TypedValue.encode))
      (optionalField 3 (u.value.map TypedValue.encode)) := .sameOptional ht
  exact ((Rearranged.optional hpath).append hvalue).append (.omitIf .varint)

theorem Notification.Writes.rearranged {n : Notification} {bs bs' : Bytes} (h : n.Writes bs)
    (h' : n.Writes bs') : Rearranged .notification bs bs' := by
  obtain ⟨base, updates, deletes, hb, hu, hd, rfl⟩ := h
  obtain ⟨base', updates', deletes', hb', hu', hd', rfl⟩ := h'
  have hbase := Rearranged.of_optionRel hb hb' fun _ _ _ => Path.Writes.rearranged
  have hupdates := Rearranged.of_forall₂ hu hu' fun _ _ _ => Update.Writes.rearranged
  have hdeletes := Rearranged.of_forall₂ hd hd' fun _ _ _ => Path.Writes.rearranged
  exact ((((Rearranged.omitIf .varint).append (.optional hbase)).append
    (.repeated hupdates)).append (.repeated hdeletes)).append (.omitIf .varint)

/-- All that is written of a notification differs in the order of entries only. -/
theorem Notification.Writes.reorders {n : Notification} {bs bs' : Bytes} (h : n.Writes bs)
    (h' : n.Writes bs') (hlen : bs.length < 2 ^ 64) : Reorders .notification bs bs' := by
  have hreorders := (h.rearranged h').reorders hlen [] [] .nil
  rwa [List.nil_append, List.nil_append, List.append_nil, List.append_nil] at hreorders

/-! ## Paths and documents -/

/-- What the order of the entries of key maps has no influence on, where the entries of an element
are sorted to be shown. -/
structure IgnoresKeyOrder (sort : List (String × String) → List (String × String)) : Prop where
  /-- Every path is one whose keys are met in some order. -/
  listed : ∀ p : Path, ∃ ls : List Listing, p.elems = ls.map Listing.elem
  /-- Every entry is shown once, by increasing keys. -/
  sorted : ∀ l : Listing, (sort l.keys).Perm l.keys ∧
    (sort l.keys).Pairwise fun a b => Text.Precedes a.1 b.1
  same : ∀ ls ls', List.Forall₂ Listing.SameAs ls ls' →
    Listing.pathText sort ls = Listing.pathText sort ls'
  text : ∀ (p : Path) (ls : List Listing), p.elems = ls.map Listing.elem →
    p.xpath = Listing.pathText sort ls
  written : ∀ (n : Notification) (bs bs' : Bytes), n.Writes bs → n.Writes bs' →
    bs.length < 2 ^ 64 → Reorders .notification bs bs'
  /-- Within the depth of nesting what is written is read, whatever the order. -/
  read : ∀ (n : Notification) (bs : Bytes), n.Writes bs → n.nesting ≤ maxDepth →
    bs.length < 2 ^ 64 → Notification.decode bs = .ok n
  decoded : ∀ bs bs', Reorders .notification bs bs' → ∀ n,
    Notification.decode bs = .ok n ↔ Notification.decode bs' = .ok n
  shown : ∀ bs bs', Reorders .notification bs bs' → ∀ source,
    (Notification.decode bs).toOption.map (·.render source) =
      (Notification.decode bs').toOption.map (·.render source)

/-- **The order of the entries of key maps makes no difference.** Whatever sort is used, the text of
a path is the same for every order in which its keys are met: each element is its name and then its
entries, each once and by strictly increasing keys. Notifications whose bytes differ in the order of
entries only are read as the same one, and shown as the same document. -/
theorem ignoresKeyOrder (sort : List (String × String) → List (String × String))
    (h : IsSort sort) : IgnoresKeyOrder sort where
  listed p := ⟨_, Listing.map_elem_ofElem p.elems⟩
  sorted l := ⟨h.perm l.keys, l.sort_eq h ▸ l.elem.keys.sorted⟩
  same ls ls' hsame := by
    let p : Path := { elems := ls.map Listing.elem }
    have hp : Listing.pathText sort ls = p.xpath := Listing.pathText_eq h rfl
    have hp' : Listing.pathText sort ls' = p.xpath :=
      Listing.pathText_eq h (Listing.map_elem_eq hsame)
    exact hp.trans hp'.symm
  text p ls hp := (Listing.pathText_eq h hp).symm
  written n bs bs' := Notification.Writes.reorders
  read n bs hw hd hlen := Notification.decode_of_writes hw hd hlen
  decoded bs bs' hr := hr.decode_iff
  shown bs bs' hr source := by
    cases hb : Notification.decode bs with
    | ok n =>
      have hb' : Notification.decode bs' = .ok n := (hr.decode_iff n).mp hb
      rw [hb']
    | error _ =>
      cases hb' : Notification.decode bs' with
      | ok n =>
        have hn : Notification.decode bs = .ok n := (hr.decode_iff n).mpr hb'
        rw [hb] at hn
        cases hn
      | error _ => rfl

/-- An element with an empty key, keys of which one begins another, and keys whose order would be
the other one if texts were compared by units of sixteen bits. It is met in two orders, and a
notification with it is written in both. -/
theorem ignoresKeyOrder_element :
    let sort (es : List (String × String)) := es.mergeSort fun a b => decide (KeyMap.NotAfter a b)
    let keys := [("name-x", "b"), ("", "c"), ("😀", "d"), ("name", "a"), ("～", "e")]
    let l : Listing := ⟨"interface", keys, by decide +kernel⟩
    let l' : Listing := ⟨"interface", keys.reverse, by decide +kernel⟩
    let n : Notification := { deletes := [{ elems := [l.elem] }] }
    let written (l : Listing) :=
      n.encodeWith none [] [Path.encodeWith {} [PathElem.encodeWith l.name l.keys]]
    IsSort sort ∧ IgnoresKeyOrder sort ∧ l.SameAs l' ∧
      Listing.pathText sort [l] = "interface[=c][name=a][name-x=b][～=e][😀=d]" ∧
      Listing.pathText sort [l'] = "interface[=c][name=a][name-x=b][～=e][😀=d]" ∧
      written l ≠ written l' ∧ Reorders .notification (written l) (written l') := by
  intro sort keys l l' n written
  have hsort : IsSort sort := isSort_mergeSort
  have h := ignoresKeyOrder sort hsort
  have hsame : l.SameAs l' := ⟨rfl, keys.reverse_perm.symm⟩
  have htext : Listing.pathText sort [l] = "interface[=c][name=a][name-x=b][～=e][😀=d]" := by
    rw [← h.text { elems := [l.elem] } [l] rfl]
    decide +kernel
  have hwrites (l₁ : Listing) (hl : l.SameAs l₁) : n.Writes (written l₁) := by
    have helem : l.elem.Writes (PathElem.encodeWith l₁.name l₁.keys) :=
      ⟨l₁.keys, hl.elem_eq ▸ l₁.keys_perm.symm, by rw [← hl.1]; rfl⟩
    have hpath : Path.Writes { elems := [l.elem] } _ := ⟨_, .cons helem .nil, rfl⟩
    exact ⟨none, [], _, .none, .nil, .cons hpath .nil, rfl⟩
  refine ⟨hsort, h, hsame, htext, ?_, by decide +kernel, ?_⟩
  · rw [← h.same [l] [l'] (.cons hsame .nil)]
    exact htext
  · exact h.written n _ _ (hwrites l ⟨rfl, .refl _⟩) (hwrites l' hsame) (by decide +kernel)

end Telemetry
