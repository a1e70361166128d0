import Mathlib
import Telemetry.Path

/-! Key maps from their entries in any order. A map is made of any arrangement of its own entries
(`KeyMap.ofList_of_perm`), since its keys differ and the sorted arrangement is the only one of its
kind. Entries of different keys may be inserted in either order (`KeyMap.insert_comm`). -/

namespace Telemetry.KeyMap

open Text (Precedes)

theorem insertEntry_perm {k v : String} {es : List (String × String)}
    (h : ∀ e ∈ es, k ≠ e.1) : (insertEntry k v es).Perm ((k, v) :: es) := by
  induction es with
  | nil => exact .refl _
  | cons e es ih =>
    obtain ⟨hne, h⟩ := List.forall_mem_cons.mp h
    rw [insertEntry]
    split
    · exact .refl _
    · exact ((ih h).cons e).trans (.swap ..)

/-- The keys of a map differ. -/
theorem nodup_keys (m : KeyMap) : (m.entries.map Prod.fst).Nodup := by
  rw [List.nodup_iff_pairwise_ne, List.pairwise_map]
  refine m.sorted.imp fun hp he => ?_
  rw [he] at hp
  exact Text.not_precedes_self _ hp

/-- Equal entries in equal order are the same map, and the order is that of the keys. -/
theorem eq_of_entries_perm {m m' : KeyMap} (h : m.entries.Perm m'.entries) : m = m' := by
  refine ext (h.eq_of_pairwise ?_ m.sorted m'.sorted)
  intro a b _ _ hab hba
  exact absurd (hab.trans hba) (Text.not_precedes_self _)

theorem lookup_eq_some_iff {es : List (String × String)} (h : (es.map Prod.fst).Nodup)
    (k v : String) : es.lookup k = some v ↔ (k, v) ∈ es := by
  induction es with
  | nil => simp
  | cons e es ih =>
    rw [List.map_cons, List.nodup_cons] at h
    rw [lookup_cons, List.mem_cons]
    split
    · rename_i he
      have hnew : (k, v) ∉ es := fun hm => h.1 (he ▸ List.mem_map_of_mem hm)
      rw [or_iff_left hnew, Prod.ext_iff, Option.some.injEq]
      exact ⟨fun hv => ⟨he, hv.symm⟩, fun hv => hv.2.symm⟩
    · rename_i he
      simp [Prod.ext_iff, he, ih h.2]

theorem get?_eq_some_iff (m : KeyMap) (k v : String) : m.get? k = some v ↔ (k, v) ∈ m.entries :=
  lookup_eq_some_iff m.nodup_keys k v

/-- A map is determined by the values of its keys. -/
theorem ext_get? {m m' : KeyMap} (h : ∀ k, m.get? k = m'.get? k) : m = m' := by
  refine eq_of_entries_perm ?_
  rw [List.perm_ext_iff_of_nodup m.nodup_keys.of_map m'.nodup_keys.of_map]
  rintro ⟨k, v⟩
  rw [← get?_eq_some_iff, ← get?_eq_some_iff, h]

theorem insert_comm (m : KeyMap) {k k' : String} (h : k ≠ k') (v v' : String) :
    (m.insert k v).insert k' v' = (m.insert k' v').insert k v := by
  refine ext_get? fun x => ?_
  simp only [get?_insert]
  by_cases hx : x = k
  · rw [if_pos hx, if_pos hx, if_neg (hx ▸ h)]
  · rw [if_neg hx, if_neg hx]

/-- Inserting entries with new and different keys adds them all, and nothing else. -/
theorem entries_foldl_insert {m : KeyMap} {es : List (String × String)}
    (h : ((m.entries ++ es).map Prod.fst).Nodup) :
    (es.foldl (fun m e => m.insert e.1 e.2) m).entries.Perm (m.entries ++ es) := by
  induction es generalizing m with
  | nil => simp
  | cons e es ih =>
    have hmiddle : (m.entries ++ e :: es).Perm (e :: (m.entries ++ es)) := List.perm_middle
    have hnew : ∀ e' ∈ m.entries, e.1 ≠ e'.1 := by
      rw [(hmiddle.map Prod.fst).nodup_iff, List.map_cons, List.nodup_cons] at h
      intro e' he' heq
      exact h.1 (heq ▸ List.mem_map_of_mem (List.mem_append_left _ he'))
    have hins : (m.insert e.1 e.2).entries.Perm (e :: m.entries) := insertEntry_perm hnew
    have happend : ((m.insert e.1 e.2).entries ++ es).Perm (m.entries ++ e :: es) :=
      (hins.append_right es).trans hmiddle.symm
    rw [List.foldl_cons]
    refine (ih ?_).trans happend
    rwa [(happend.map Prod.fst).nodup_iff]

theorem ofList_concat (es : List (String × String)) (e : String × String) :
    ofList (es ++ [e]) = (ofList es).insert e.1 e.2 := by
  rw [ofList, List.foldl_append]
  rfl

/-- A map is made of its entries in whatever order they come. -/
theorem ofList_of_perm {m : KeyMap} {es : List (String × String)} (h : es.Perm m.entries) :
    ofList es = m := by
  have hnodup : ((empty.entries ++ es).map Prod.fst).Nodup :=
    (h.map Prod.fst).nodup_iff.mpr m.nodup_keys
  exact eq_of_entries_perm ((entries_foldl_insert hnodup).trans h)

end Telemetry.KeyMap
