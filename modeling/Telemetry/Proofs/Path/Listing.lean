import Telemetry.Path
import Telemetry.Proofs.Path.KeyOrder

/-! Paths whose keys are met in any order. The text of a path is made by sorting the entries of each
element as they come. That it is the one text of the path (`Listing.pathText_eq`) is because the
keys of an element differ, so that only one arrangement of its entries is sorted. -/

namespace Telemetry

open Text (Precedes)

namespace KeyMap

/-- The order by which entries are sorted: that of their keys, and of their values where the keys
are equal. -/
def NotAfter (a b : String × String) : Prop := Precedes a.1 b.1 ∨ a.1 = b.1 ∧ ¬Precedes b.2 a.2

theorem NotAfter.antisymm {a b : String × String} (h : NotAfter a b) (h' : NotAfter b a) :
    a = b := by
  rcases h with hlt | ⟨he, hv⟩
  · rcases h' with hgt | ⟨he, -⟩
    · exact absurd (hlt.trans hgt) (Text.not_precedes_self _)
    · rw [he] at hlt
      exact absurd hlt (Text.not_precedes_self _)
  · rcases h' with hgt | ⟨-, hv'⟩
    · rw [he] at hgt
      exact absurd hgt (Text.not_precedes_self _)
    · refine Prod.ext he ?_
      by_contra hne
      exact hv (Text.precedes_of_not hv' hne)

instance (a b : String × String) : Decidable (NotAfter a b) :=
  inferInstanceAs (Decidable (_ ∨ _ ∧ _))

theorem NotAfter.trans {a b c : String × String} (h : NotAfter a b) (h' : NotAfter b c) :
    NotAfter a c := by
  rcases h with hlt | ⟨he, hv⟩
  · rcases h' with hlt' | ⟨he', -⟩
    · exact .inl (hlt.trans hlt')
    · exact .inl (he' ▸ hlt)
  · rcases h' with hlt' | ⟨he', hv'⟩
    · exact .inl (he ▸ hlt')
    · refine .inr ⟨he.trans he', fun hca => ?_⟩
      by_cases hbc : b.2 = c.2
      · exact hv (hbc ▸ hca)
      · exact hv ((Text.precedes_of_not hv' (Ne.symm hbc)).trans hca)

theorem NotAfter.total (a b : String × String) : NotAfter a b ∨ NotAfter b a := by
  by_cases hab : Precedes a.1 b.1
  · exact .inl (.inl hab)
  · by_cases he : a.1 = b.1
    · by_cases hv : Precedes b.2 a.2
      · exact .inr (.inr ⟨he.symm, fun hv' => Text.not_precedes_self _ (hv.trans hv')⟩)
      · exact .inl (.inr ⟨he, hv⟩)
    · exact .inr (.inl (Text.precedes_of_not hab he))

/-- Of the arrangements of a map's entries only that of the map is sorted. -/
theorem eq_entries_of_sorted {m : KeyMap} {es : List (String × String)} (hp : es.Perm m.entries)
    (hs : es.Pairwise NotAfter) : es = m.entries :=
  hp.eq_of_pairwise (fun _ _ _ _ => NotAfter.antisymm) hs (m.sorted.imp .inl)

end KeyMap

/-- A sort of entries, which may put equal ones in any order. -/
structure IsSort (sort : List (String × String) → List (String × String)) : Prop where
  perm : ∀ es, (sort es).Perm es
  sorted : ∀ es, (sort es).Pairwise KeyMap.NotAfter

theorem isSort_mergeSort :
    IsSort fun es => es.mergeSort fun a b => decide (KeyMap.NotAfter a b) where
  perm es := List.mergeSort_perm es _
  sorted es := by
    refine (List.pairwise_mergeSort ?_ ?_ es).imp fun h => of_decide_eq_true h
    · intro a b c hab hbc
      exact decide_eq_true ((of_decide_eq_true hab).trans (of_decide_eq_true hbc))
    · intro a b
      simpa using KeyMap.NotAfter.total a b

/-- An element with the entries of its keys in the order in which they are met. -/
structure Listing where
  name : String
  keys : List (String × String)
  nodup : (keys.map Prod.fst).Nodup

namespace Listing

def elem (l : Listing) : PathElem := ⟨l.name, .ofList l.keys⟩

/-- An element with its keys in the order of the map. -/
def ofElem (e : PathElem) : Listing := ⟨e.name, e.keys.entries, e.keys.nodup_keys⟩

/-- The same name and keys, which may be met in another order. -/
def SameAs (l l' : Listing) : Prop := l.name = l'.name ∧ l.keys.Perm l'.keys

/-- The text of an element: its name, and its entries after a sort. -/
def text (sort : List (String × String) → List (String × String)) (l : Listing) : String :=
  l.name ++ String.join ((sort l.keys).map keyText)

/-- The text of a path of such elements. -/
def pathText (sort : List (String × String) → List (String × String)) (ls : List Listing) :
    String :=
  String.intercalate "/" (ls.map (text sort))

theorem keys_perm (l : Listing) : l.elem.keys.entries.Perm l.keys :=
  KeyMap.entries_foldl_insert (m := .empty) l.nodup

theorem elem_ofElem (e : PathElem) : (ofElem e).elem = e :=
  congrArg (PathElem.mk e.name) (KeyMap.ofList_of_perm (.refl _))

theorem map_elem_ofElem (es : List PathElem) : es = (es.map ofElem).map elem := by
  rw [List.map_map]
  exact (List.map_id'' elem_ofElem es).symm

theorem SameAs.elem_eq {l l' : Listing} (h : l.SameAs l') : l.elem = l'.elem := by
  have hp : l.keys.Perm l'.elem.keys.entries := h.2.trans l'.keys_perm.symm
  have hk : KeyMap.ofList l.keys = l'.elem.keys := KeyMap.ofList_of_perm hp
  rw [elem, h.1, hk]
  rfl

/-- The keys differ, so that a sort puts each of them before the next one. -/
theorem sort_eq {sort : List (String × String) → List (String × String)} (hsort : IsSort sort)
    (l : Listing) : sort l.keys = l.elem.keys.entries :=
  KeyMap.eq_entries_of_sorted ((hsort.perm l.keys).trans l.keys_perm.symm) (hsort.sorted l.keys)

theorem text_eq {sort : List (String × String) → List (String × String)} (hsort : IsSort sort)
    (l : Listing) : l.text sort = l.elem.xpath := by
  rw [text, PathElem.xpath, l.sort_eq hsort]
  rfl

/-- Whatever the sort and the order of the entries, the text is that of the path. -/
theorem pathText_eq {sort : List (String × String) → List (String × String)}
    (hsort : IsSort sort) {p : Path} {ls : List Listing} (h : p.elems = ls.map elem) :
    pathText sort ls = p.xpath := by
  rw [pathText, Path.xpath, h, List.map_map]
  congr 1
  exact List.map_congr_left fun l _ => l.text_eq hsort

theorem map_elem_eq {ls ls' : List Listing} (h : List.Forall₂ SameAs ls ls') :
    ls.map elem = ls'.map elem := by
  induction h with
  | nil => rfl
  | cons hl _ ih => rw [List.map_cons, List.map_cons, hl.elem_eq, ih]

end Listing

end Telemetry
