import Mathlib
import Telemetry.Proofs.Results
import Telemetry.Value

/-! The documents of values. A value is read, and what has been read is turned into a document; this
stage reads the elements of lists, at any depth. Both stages together fail with the first text in
the value that is no document, and otherwise give the document that mirrors the value
(`TypedValue.document_converts`). -/

namespace Telemetry

open Json (Document)

namespace TypedValue

/-- Induction over values, in which the elements of a list are smaller than the list. -/
@[elab_as_elim]
theorem induction {P : TypedValue → Prop} (leafList : ∀ es, (∀ e ∈ es, P e) → P (.leafList es))
    (single : ∀ v, (∀ es, v ≠ .leafList es) → P v) (v : TypedValue) : P v := by
  by_cases h : ∃ es, v = .leafList es
  · obtain ⟨es, hes⟩ := h
    rw [hes]
    exact leafList es fun e he => induction leafList single e
  · exact single v (not_exists.mp h)
termination_by sizeOf v
decreasing_by
  have hlt := List.sizeOf_lt_of_mem he
  rw [hes, TypedValue.leafList.sizeOf_spec]
  omega

/-- Both stages: the value is read, and what has been read is turned into a document. -/
def document (v : TypedValue) : Except DecodeError Document := v.decode >>= Decoded.toJson

theorem document_eq_toJson (v : TypedValue) : v.document = v.toJson := by
  cases v with
  | json text | jsonIetf text =>
    rw [document, decode, toJson]
    cases readJson text <;> rfl
  | _ => rfl

end TypedValue

theorem elementsToJson_eq_mapM (es : List TypedValue) :
    elementsToJson es = es.mapM TypedValue.toJson := by
  induction es with
  | nil => rfl
  | cons e es ih =>
    rw [elementsToJson]
    cases h : e.toJson with
    | error fault => rw [mapM_cons_of_error h]
    | ok doc => rw [mapM_cons_of_ok h, ih]

/-! ## Faults -/

mutual

/-- The JSON texts in a value, at any depth of its lists, from left to right. -/
def TypedValue.jsonTexts : TypedValue → List Bytes
  | .json text => [text]
  | .jsonIetf text => [text]
  | .leafList es => elementTexts es
  | _ => []

def elementTexts : List TypedValue → List Bytes
  | [] => []
  | e :: es => e.jsonTexts ++ elementTexts es

end

namespace TypedValue

theorem decode_eq_error_iff {v : TypedValue} {e : DecodeError} : v.decode = .error e ↔
    ∃ text, (v = .json text ∨ v = .jsonIetf text) ∧ readJson text = .error e := by
  cases v with
  | json text | jsonIetf text =>
    rw [decode]
    cases h : readJson text <;> simp [Except.map, h]
  | _ => simp [decode]

/-- The fault of a value is the first one of its texts. -/
theorem fault?_toJson (v : TypedValue) :
    fault? v.toJson = v.jsonTexts.findSome? fun text => fault? (readJson text) := by
  induction v using induction with
  | single v h =>
    cases v with
    | leafList es => exact absurd rfl (h es)
    | json text | jsonIetf text => rw [toJson, jsonTexts, List.findSome?_singleton]
    | _ => rfl
  | leafList es ih =>
    rw [toJson, fault?_map, elementsToJson_eq_mapM, fault?_mapM, jsonTexts]
    -- the first fault of an element is the first one of its texts, and these come in order
    induction es with
    | nil => rfl
    | cons e es ihes =>
      rw [List.forall_mem_cons] at ih
      rw [List.findSome?_cons, ih.1, elementTexts, List.findSome?_append, ihes ih.2]
      cases e.jsonTexts.findSome? fun text => fault? (readJson text) <;> rfl

theorem document_eq_error_iff {v : TypedValue} {e : DecodeError} :
    v.document = .error e ↔ FirstFault readJson v.jsonTexts e := by
  rw [firstFault_iff, ← fault?_toJson, fault?_eq_some_iff, document_eq_toJson]

/-! ## Documents -/

/-- One number from 0 to 255 for each byte. -/
def byteNumbers (bs : Bytes) : Document := .array (bs.map fun b => .number (.integer b.toNat))

/-- The document shows the value: integers as they are, bytes as numbers, a JSON text as the
document that it is, and a list with one entry for each element. -/
inductive Mirrors : TypedValue → Document → Prop
  | unset : Mirrors .unset .null
  | string (v) : Mirrors (.string v) (.string v)
  | ascii (v) : Mirrors (.ascii v) (.string v)
  | int (v) : Mirrors (.int v) (.number (.integer v.toInt))
  | uint (v) : Mirrors (.uint v) (.number (.integer v.toNat))
  | bool (v) : Mirrors (.bool v) (.bool v)
  | bytes (v) : Mirrors (.bytes v) (byteNumbers v)
  | protoBytes (v) : Mirrors (.protoBytes v) (byteNumbers v)
  | float (word) : Mirrors (.float word) (.real (.ofBinary32 word))
  | decimal (v) : Mirrors (.decimal v) (.real v.toBinary64)
  | any (v) : Mirrors (.any v)
      (.object [("type_url", .string v.typeUrl), ("value", byteNumbers v.value)])
  | json {text doc} (h : readJson text = .ok doc) : Mirrors (.json text) doc
  | jsonIetf {text doc} (h : readJson text = .ok doc) : Mirrors (.jsonIetf text) doc
  | leafList {es docs} (hlength : es.length = docs.length)
      (h : ∀ i (hi : i < es.length) (hi' : i < docs.length), Mirrors es[i] docs[i]) :
      Mirrors (.leafList es) (.array docs)

theorem toJson_of_mirrors {v : TypedValue} {doc : Document} (h : v.Mirrors doc) :
    v.toJson = .ok doc := by
  induction h with
  | json h | jsonIetf h => exact h
  | @leafList es docs hlength h ih =>
    have hall : elementsToJson es = .ok docs := by
      rw [elementsToJson_eq_mapM, mapM_eq_ok_iff, List.forall₂_iff_get]
      exact ⟨hlength, ih⟩
    rw [toJson, hall]
    rfl
  | _ => rfl

theorem mirrors_of_toJson {v : TypedValue} {doc : Document} (h : v.toJson = .ok doc) :
    v.Mirrors doc := by
  induction v using induction generalizing doc with
  | single v hv =>
    cases v with
    | leafList es => exact absurd rfl (hv es)
    | json text => exact .json h
    | jsonIetf text => exact .jsonIetf h
    | _ =>
      cases h
      constructor
  | leafList es ih =>
    rw [toJson, elementsToJson_eq_mapM] at h
    obtain ⟨docs, hdocs, rfl⟩ := exists_of_map_eq_ok h
    obtain ⟨hlength, hdocs⟩ := List.forall₂_iff_get.mp (mapM_eq_ok_iff.mp hdocs)
    exact .leafList hlength fun i hi hi' => ih es[i] (List.getElem_mem hi) (hdocs i hi hi')

theorem document_eq_ok_iff {v : TypedValue} {doc : Document} :
    v.document = .ok doc ↔ v.Mirrors doc := by
  rw [document_eq_toJson]
  exact ⟨mirrors_of_toJson, toJson_of_mirrors⟩

/-- How a value is converted in both stages. -/
structure Converts (v : TypedValue) : Prop where
  /-- The first stage fails only at a value that is itself a text. -/
  decode_fails_iff : ∀ e, v.decode = .error e ↔
    ∃ text, (v = .json text ∨ v = .jsonIetf text) ∧ readJson text = .error e
  fails_iff : ∀ e, v.document = .error e ↔ FirstFault readJson v.jsonTexts e
  succeeds_iff : ∀ doc, v.document = .ok doc ↔ v.Mirrors doc

/-- **A value is converted as a whole, or not at all.** However deep its lists are, the only thing
that can be wrong with it is a text that is no document, and the first one of these is reported.
Otherwise the document mirrors it, down to the last element. -/
theorem document_converts (v : TypedValue) : v.Converts where
  decode_fails_iff := fun _ => decode_eq_error_iff
  fails_iff := fun _ => document_eq_error_iff
  succeeds_iff := fun _ => document_eq_ok_iff

end TypedValue

end Telemetry
