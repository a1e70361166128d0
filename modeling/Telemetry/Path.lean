import Telemetry.Text.Bytes

/-! Paths into a data tree and their text form, such as
`interfaces/interface[name=Ethernet1]/state/counters`. Nothing is escaped: names and key values
appear as they are. -/

namespace Telemetry

/-! ## Keys

The keys of an element are a finite map between texts, kept in the order of the UTF-8 bytes of its
keys, so that equal maps are equal values. -/

namespace Text

/-- The order of texts by their UTF-8 bytes, a proper beginning first. -/
def Precedes (a b : String) : Prop := utf8 a < utf8 b

instance (a b : String) : Decidable (Precedes a b) := inferInstanceAs (Decidable (_ < _))

theorem Precedes.trans {a b c : String} (h : Precedes a b) (h' : Precedes b c) : Precedes a c :=
  List.lt_trans h h'

theorem not_precedes_self (a : String) : ¬ Precedes a a := List.lt_irrefl _

theorem precedes_of_not {a b : String} (h : ¬ Precedes a b) (hne : a ≠ b) : Precedes b a := by
  rcases List.le_iff_lt_or_eq.1 (List.not_lt.1 h) with h | h
  · exact h
  · exact absurd (utf8_injective h).symm hne

end Text

open Text (Precedes)

/-- A map from keys to values, both texts, by increasing keys. -/
structure KeyMap where
  entries : List (String × String)
  sorted : entries.Pairwise fun a b => Precedes a.1 b.1

namespace KeyMap

@[ext] theorem ext {m m' : KeyMap} (h : m.entries = m'.entries) : m = m' := by
  cases m; cases m'; cases h; rfl

instance : DecidableEq KeyMap := fun m m' =>
  decidable_of_iff (m.entries = m'.entries) ⟨ext, congrArg entries⟩

def empty : KeyMap := ⟨[], .nil⟩

instance : Inhabited KeyMap := ⟨empty⟩

def insertEntry (k v : String) : List (String × String) → List (String × String)
  | [] => [(k, v)]
  | e :: es =>
    if Precedes k e.1 then (k, v) :: e :: es
    else if k = e.1 then (k, v) :: es
    else e :: insertEntry k v es

private theorem mem_insertEntry {k v : String} {es : List (String × String)} {x : String × String}
    (h : x ∈ insertEntry k v es) : x = (k, v) ∨ x ∈ es := by
  induction es with
  | nil => simpa [insertEntry] using h
  | cons e es ih =>
    simp only [insertEntry] at h
    split at h
    · simpa using h
    · split at h
      · exact (List.mem_cons.1 h).imp_right (List.mem_cons_of_mem _)
      · rcases List.mem_cons.1 h with h | h
        · exact .inr (h ▸ List.mem_cons_self)
        · exact (ih h).imp_right (List.mem_cons_of_mem _)

private theorem sorted_insertEntry (k v : String) {es : List (String × String)}
    (h : es.Pairwise fun a b => Precedes a.1 b.1) :
    (insertEntry k v es).Pairwise fun a b => Precedes a.1 b.1 := by
  induction es with
  | nil => simp [insertEntry]
  | cons e es ih =>
    rw [List.pairwise_cons] at h
    simp only [insertEntry]
    split
    next hlt =>
      refine List.pairwise_cons.2 ⟨fun x hx => ?_, List.pairwise_cons.2 h⟩
      rcases List.mem_cons.1 hx with rfl | hx
      · exact hlt
      · exact Precedes.trans hlt (h.1 x hx)
    next hlt =>
      split
      next heq => exact List.pairwise_cons.2 ⟨fun x hx => heq ▸ h.1 x hx, h.2⟩
      next hne =>
        refine List.pairwise_cons.2 ⟨fun x hx => ?_, ih h.2⟩
        rcases mem_insertEntry hx with rfl | hx
        · exact Text.precedes_of_not hlt hne
        · exact h.1 x hx

/-- The map with `v` for the key `k`, in place of what it had for it. -/
def insert (m : KeyMap) (k v : String) : KeyMap :=
  ⟨insertEntry k v m.entries, sorted_insertEntry k v m.sorted⟩

/-- The map of a list of entries, of which the last for a key counts. -/
def ofList (es : List (String × String)) : KeyMap :=
  es.foldl (fun m e => m.insert e.1 e.2) empty

def get? (m : KeyMap) (k : String) : Option String := m.entries.lookup k

theorem lookup_cons (e : String × String) (es : List (String × String)) (x : String) :
    (e :: es).lookup x = if x = e.1 then some e.2 else es.lookup x := by
  obtain ⟨k, v⟩ := e
  rw [List.lookup_cons]
  by_cases h : x = k
  · simp [h]
  · simp [h, beq_false_of_ne h]

theorem lookup_insertEntry (k v x : String) (es : List (String × String)) :
    (insertEntry k v es).lookup x = if x = k then some v else es.lookup x := by
  induction es with
  | nil => rw [insertEntry, lookup_cons]
  | cons e es ih =>
    rw [insertEntry]
    split
    · rw [lookup_cons]
    · split
      next heq =>
        rw [lookup_cons, lookup_cons, ← heq]
        split <;> rfl
      next hne =>
        rw [lookup_cons, lookup_cons, ih]
        split
        next hx => rw [if_neg fun h => hne (h.symm.trans hx)]
        next => rfl

/-- An inserted value is found under its key, and under any other key what was there before. -/
theorem get?_insert (m : KeyMap) (k v x : String) :
    (m.insert k v).get? x = if x = k then some v else m.get? x :=
  lookup_insertEntry k v x m.entries

end KeyMap

/-! ## Elements and paths -/

/-- A node on the way to the addressed one: its name, and its attributes where it is one of a
list of nodes. -/
structure PathElem where
  name : String := ""
  keys : KeyMap := .empty
  deriving DecidableEq, Inhabited

/-- An address in the data tree of a target. -/
structure Path where
  origin : String := ""
  elems : List PathElem := []
  target : String := ""
  deriving DecidableEq, Inhabited

def keyText (entry : String × String) : String := "[" ++ entry.1 ++ "=" ++ entry.2 ++ "]"

/-- The name followed by the keys, in the order of the map. -/
def PathElem.xpath (e : PathElem) : String :=
  e.name ++ String.join (e.keys.entries.map keyText)

/-- The elements with a slash between any two. -/
def Path.xpath (p : Path) : String :=
  String.intercalate "/" (p.elems.map PathElem.xpath)

/-- The text of a path that may be absent: an absent path is written as no text. -/
def xpath : Option Path → String
  | none => ""
  | some p => p.xpath

end Telemetry
