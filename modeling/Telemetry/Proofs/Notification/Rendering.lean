import Mathlib
import Telemetry.Notification
import Telemetry.Proofs.Value.Conversion

/-! The document of a notification. It shows all updates and deletes in their order, each update
under its own path, or there is none because of the first update whose value has no document
(`Notification.render_rendersWhole`). -/

namespace Telemetry

open Json (Document)

/-! ## Members -/

namespace Json.Document

/-- The member of that name, if the document is an object with one. -/
def member? (name : String) : Document → Option Document
  | .object members => members.lookup name
  | _ => none

/-- The members that are there, out of those that may be. -/
def present (fields : List (String × Option Document)) : List (String × Document) :=
  fields.filterMap fun field => field.2.map (field.1, ·)

theorem present_cons (field : String × Option Document) (fields : List (String × Option Document)) :
    present (field :: fields) = (field.2.map (field.1, ·)).toList ++ present fields := by
  rw [present, List.filterMap_cons]
  cases field.2 <;> rfl

theorem map_fst_present_sublist (fields : List (String × Option Document)) :
    ((present fields).map Prod.fst).Sublist (fields.map Prod.fst) := by
  induction fields with
  | nil => exact .slnil
  | cons field fields ih =>
    obtain ⟨name, member⟩ := field
    rw [present_cons]
    cases member with
    | none => exact ih.cons name
    | some member => exact ih.cons_cons name

theorem member?_present {fields : List (String × Option Document)}
    (h : (fields.map Prod.fst).Nodup) (name : String) :
    (object (present fields)).member? name = (fields.lookup name).join := by
  rw [member?]
  induction fields with
  | nil => rfl
  | cons field fields ih =>
    obtain ⟨name', member⟩ := field
    obtain ⟨hnew, hfields⟩ := List.nodup_cons.mp h
    rw [present_cons]
    by_cases hn : name = name'
    · subst hn
      -- the member is this one or there is none, as no later one has the same name
      have hnone : (present fields).lookup name = none := by
        rw [List.lookup_eq_none_iff]
        intro m hm
        have hne : name ≠ m.1 := fun he =>
          hnew ((map_fst_present_sublist fields).subset (he ▸ List.mem_map_of_mem hm))
        exact bne_iff_ne.mpr hne
      cases member <;> simp [hnone]
    · cases member <;> simp [List.lookup_cons, beq_false_of_ne hn, ih hfields]

end Json.Document

open Json.Document (member? present member?_present map_fst_present_sublist)

/-! ## Updates -/

namespace Update

/-- The document of the value that is reported; one that is absent has a document, too. -/
def document (u : Update) : Except DecodeError Document :=
  match u.value with
  | none => .ok .null
  | some v => v.document

/-- The document mirrors the value, or is null if there is none. -/
def Mirrors (u : Update) (doc : Document) : Prop :=
  match u.value with
  | none => doc = .null
  | some v => v.Mirrors doc

/-- The entry holds the path, as it was reported, and under the same path the value. -/
def Shows (u : Update) (entry : Document) : Prop :=
  ∃ doc, u.Mirrors doc ∧
    entry = .object [("Path", .string (xpath u.path)), ("values", .object [(xpath u.path, doc)])]

theorem document_eq_ok_iff {u : Update} {doc : Document} :
    u.document = .ok doc ↔ u.Mirrors doc := by
  rw [document, Mirrors]
  cases u.value with
  | none => simp [eq_comm]
  | some v => exact TypedValue.document_eq_ok_iff

theorem render_eq (u : Update) : u.render = u.document.map fun doc =>
    .object [("Path", .string (xpath u.path)), ("values", .object [(xpath u.path, doc)])] := by
  rw [render, reported, document]
  cases u.value with
  | none => rfl
  | some v =>
    dsimp only [Option.getD_some, TypedValue.document]
    cases v.decode <;> rfl

theorem render_eq_ok_iff {u : Update} {entry : Document} :
    u.render = .ok entry ↔ u.Shows entry := by
  rw [render_eq, Shows]
  cases h : u.document with
  | error e => simp [Except.map, ← document_eq_ok_iff, h]
  | ok doc => simp [Except.map, ← document_eq_ok_iff, h, eq_comm]

end Update

theorem renderUpdates_eq_mapM (us : List Update) : renderUpdates us = us.mapM Update.render := by
  induction us with
  | nil => rfl
  | cons u us ih =>
    rw [renderUpdates]
    cases h : u.render with
    | error fault => rw [mapM_cons_of_error h]
    | ok entry => rw [mapM_cons_of_ok h, ih]

/-! ## Notifications -/

namespace Notification

/-- The members of the document: those that are always there, and those that may be left out. -/
def members (source : String) (n : Notification) (entries : List Document) :
    List (String × Option Document) :=
  [("source", some (.string source)),
    ("timestamp", some (.number (.integer n.timestamp.toInt))),
    ("prefix", if xpath n.base = "" then none else some (.string (xpath n.base))),
    ("updates", if n.updates = [] then none else some (.array entries)),
    ("deletes", if n.deletes = [] then none
      else some (.array (n.deletes.map fun p => .string p.xpath)))]

def memberNames : List String := ["source", "timestamp", "prefix", "updates", "deletes"]

theorem map_fst_members (source : String) (n : Notification) (entries : List Document) :
    (members source n entries).map Prod.fst = memberNames := rfl

theorem nodup_memberNames : memberNames.Nodup := by decide

/-- The document of a notification: an object of at most five members. -/
structure Shows (source : String) (n : Notification) (doc : Document) : Prop where
  isObject : ∃ members, doc = .object members ∧ (members.map Prod.fst).Nodup ∧
    ∀ m ∈ members, m.1 ∈ memberNames
  source : doc.member? "source" = some (.string source)
  timestamp : doc.member? "timestamp" = some (.number (.integer n.timestamp.toInt))
  base : doc.member? "prefix" =
    if xpath n.base = "" then none else some (.string (xpath n.base))
  noUpdates : n.updates = [] → doc.member? "updates" = none
  /-- One entry for each update, in their order. -/
  updates : n.updates ≠ [] → ∃ entries, doc.member? "updates" = some (.array entries) ∧
    List.Forall₂ Update.Shows n.updates entries
  noDeletes : n.deletes = [] → doc.member? "deletes" = none
  deletes : n.deletes ≠ [] → ∃ texts, doc.member? "deletes" = some (.array texts) ∧
    List.Forall₂ (fun p text => text = .string p.xpath) n.deletes texts

theorem render_eq (source : String) (n : Notification) :
    n.render source = (n.updates.mapM Update.render).map fun entries =>
      .object (present (members source n entries)) := by
  rw [render, renderUpdates_eq_mapM]
  cases h : n.updates.mapM Update.render with
  | error e => rfl
  | ok entries =>
    have hempty : entries = [] ↔ n.updates = [] := by
      rw [← List.length_eq_zero_iff, ← List.length_eq_zero_iff,
        (mapM_eq_ok_iff.mp h).length_eq]
    simp only [Except.map, members, present, hempty]
    split_ifs <;> rfl

theorem shows_members {source : String} {n : Notification} {entries : List Document}
    (h : List.Forall₂ Update.Shows n.updates entries) :
    n.Shows source (.object (present (members source n entries))) := by
  have hsublist : ((present (members source n entries)).map Prod.fst).Sublist memberNames :=
    map_fst_members source n entries ▸ map_fst_present_sublist _
  have hmember (name : String) : (Document.object (present (members source n entries))).member? name
      = ((members source n entries).lookup name).join :=
    member?_present (map_fst_members source n entries ▸ nodup_memberNames) name
  refine ⟨⟨_, rfl, hsublist.nodup nodup_memberNames,
      fun m hm => hsublist.subset (List.mem_map_of_mem hm)⟩,
    hmember _, hmember _, hmember _, fun hu => ?_, fun hu => ?_, fun hd => ?_, fun hd => ?_⟩
  · exact (hmember _).trans (if_pos hu)
  · exact ⟨entries, (hmember _).trans (if_neg hu), h⟩
  · exact (hmember _).trans (if_pos hd)
  · refine ⟨_, (hmember _).trans (if_neg hd), ?_⟩
    rw [List.forall₂_map_right_iff, List.forall₂_same]
    exact fun _ _ => rfl

/-- How a notification is rendered: as a whole or not at all. -/
structure RendersWhole (source : String) (n : Notification) : Prop where
  /-- The fault is that of the first update whose value cannot be read or converted. -/
  fails_iff : ∀ e, n.render source = .error e ↔ FirstFault Update.document n.updates e
  shows : ∀ doc, n.render source = .ok doc → n.Shows source doc

/-- **A notification is rendered as a whole, or not at all.** It fails only with the first update
whose value has no document. Otherwise every update and every delete is shown in its place, also if
its path is empty or the same as that of another one, and nothing else is. -/
theorem render_rendersWhole (source : String) (n : Notification) : n.RendersWhole source where
  fails_iff := by
    intro e
    rw [← fault?_eq_some_iff, render_eq, fault?_map, fault?_eq_some_iff, mapM_eq_error_iff,
      firstFault_iff, firstFault_iff]
    simp only [Update.render_eq, fault?_map]
  shows := by
    intro doc h
    rw [render_eq] at h
    obtain ⟨entries, hentries, rfl⟩ := exists_of_map_eq_ok h
    rw [mapM_eq_ok_iff] at hentries
    exact shows_members (hentries.imp fun _ _ => Update.render_eq_ok_iff.mp)

end Notification

end Telemetry
