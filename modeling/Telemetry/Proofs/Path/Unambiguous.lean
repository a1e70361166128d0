import Mathlib
import Telemetry.Path
import Telemetry.Proofs.Text.Parts

/-! Which paths have the same text. Nothing in a text is escaped, so a name may look like a name
with keys, and a key value like the end of its key. Where no name holds a slash or an opening
bracket, no key an equals sign and no value a closing bracket, each of them ends at the first mark
behind it, and the elements follow from the text (`Path.xpath_unambiguous`). -/

namespace Telemetry

/-! ## Texts up to a mark -/

namespace Text

theorem cut_inj {c : Char} {a a' b b' : List Char} (ha : c ∉ a) (ha' : c ∉ a')
    (h : a ++ c :: b = a' ++ c :: b') : a = a' ∧ b = b' := by
  have hs : splitFirst c (a ++ c :: b) = some (a, b) := splitFirst_eq_some_iff.mpr ⟨rfl, ha⟩
  rw [splitFirst_eq_some_iff.mpr ⟨h, ha'⟩] at hs
  cases hs
  exact ⟨rfl, rfl⟩

/-- A text without marks is told from one behind it that is empty or starts with a mark. -/
theorem append_inj_of_marks {mark : Char → Prop} {a a' rest rest' : List Char}
    (ha : ∀ c ∈ a, ¬mark c) (ha' : ∀ c ∈ a', ¬mark c) (hr : ∀ c ∈ rest.head?, mark c)
    (hr' : ∀ c ∈ rest'.head?, mark c) (h : a ++ rest = a' ++ rest') : a = a' ∧ rest = rest' := by
  induction a generalizing a' with
  | nil =>
    cases a' with
    | nil => exact ⟨rfl, h⟩
    | cons c a' =>
      rw [List.nil_append] at h
      subst h
      exact absurd (hr c rfl) (ha' c List.mem_cons_self)
  | cons c a ih =>
    cases a' with
    | nil =>
      rw [List.nil_append] at h
      subst h
      exact absurd (hr' c rfl) (ha c List.mem_cons_self)
    | cons c' a' =>
      obtain ⟨rfl, htail⟩ := List.cons.inj h
      obtain ⟨rfl, hrest⟩ :=
        ih (List.forall_mem_cons.mp ha).2 (List.forall_mem_cons.mp ha').2 htail
      exact ⟨rfl, hrest⟩

end Text

/-! ## Elements -/

/-- The key ends at the first equals sign behind it, and the value at the first closing bracket. -/
def IsPlainEntry (entry : String × String) : Prop :=
  '=' ∉ entry.1.toList ∧ ']' ∉ entry.2.toList

instance (entry : String × String) : Decidable (IsPlainEntry entry) :=
  inferInstanceAs (Decidable (_ ∧ _))

/-- The name ends where the next element or the first key begins, and the entries are plain. -/
def PathElem.IsPlain (e : PathElem) : Prop :=
  ('/' ∉ e.name.toList ∧ '[' ∉ e.name.toList) ∧ ∀ entry ∈ e.keys.entries, IsPlainEntry entry

instance (e : PathElem) : Decidable e.IsPlain := inferInstanceAs (Decidable (_ ∧ _))

def keyChars (entry : String × String) : List Char :=
  '[' :: (entry.1.toList ++ '=' :: (entry.2.toList ++ [']']))

theorem toList_keyText (entry : String × String) : (keyText entry).toList = keyChars entry := by
  simp [keyText, keyChars]

/-- The characters of all that follows the name of an element. -/
def entriesChars (entries : List (String × String)) : List Char := entries.flatMap keyChars

@[simp] theorem entriesChars_nil : entriesChars [] = [] := rfl

theorem entriesChars_eq_nil_iff {entries : List (String × String)} :
    entriesChars entries = [] ↔ entries = [] := by
  cases entries <;> simp [entriesChars, keyChars]

theorem entriesChars_cons_append (entry : String × String) (entries : List (String × String))
    (rest : List Char) :
    entriesChars (entry :: entries) ++ rest = '[' :: (entry.1.toList ++
      '=' :: (entry.2.toList ++ ']' :: (entriesChars entries ++ rest))) := by
  simp [entriesChars, keyChars]

namespace PathElem

def chars (e : PathElem) : List Char := e.name.toList ++ entriesChars e.keys.entries

theorem toList_xpath (e : PathElem) : e.xpath.toList = e.chars := by
  simp only [xpath, chars, entriesChars, String.toList_append, String.toList_join, List.flatMap_map,
    toList_keyText]

theorem chars_eq_nil_iff {e : PathElem} : e.chars = [] ↔ e = {} := by
  obtain ⟨name, keys⟩ := e
  rw [chars, List.append_eq_nil_iff, String.toList_eq_nil_iff, entriesChars_eq_nil_iff, mk.injEq]
  refine and_congr_right' ⟨fun h => KeyMap.ext h, fun h => ?_⟩
  rw [h]
  rfl

end PathElem

/-- What may stand behind an element: nothing, or the slash before the next one. -/
def EndsElem (rest : List Char) : Prop := ∀ c ∈ rest.head?, c = '/'

/-- The entries of an element are told from what stands behind it. -/
theorem entriesChars_append_inj {entries entries' : List (String × String)} {rest rest' : List Char}
    (he : ∀ e ∈ entries, IsPlainEntry e) (he' : ∀ e ∈ entries', IsPlainEntry e)
    (hr : EndsElem rest) (hr' : EndsElem rest')
    (h : entriesChars entries ++ rest = entriesChars entries' ++ rest') :
    entries = entries' ∧ rest = rest' := by
  induction entries generalizing entries' with
  | nil =>
    cases entries' with
    | nil => exact ⟨rfl, h⟩
    | cons entry' entries' =>
      rw [entriesChars_cons_append, entriesChars_nil, List.nil_append] at h
      subst h
      exact absurd (hr _ rfl) (by decide)
  | cons entry entries ih =>
    cases entries' with
    | nil =>
      rw [entriesChars_cons_append, entriesChars_nil, List.nil_append] at h
      subst h
      exact absurd (hr' _ rfl) (by decide)
    | cons entry' entries' =>
      rw [List.forall_mem_cons] at he he'
      rw [entriesChars_cons_append, entriesChars_cons_append] at h
      -- the first equals sign ends the key, and the first bracket behind that the value
      obtain ⟨hkey, h⟩ := Text.cut_inj he.1.1 he'.1.1 (List.cons.inj h).2
      obtain ⟨hvalue, h⟩ := Text.cut_inj he.1.2 he'.1.2 h
      obtain ⟨rfl, hrest⟩ := ih he.2 he'.2 h
      have hentry : entry = entry' :=
        Prod.ext (String.toList_inj.mp hkey) (String.toList_inj.mp hvalue)
      exact ⟨by rw [hentry], hrest⟩

/-- A mark ends the name of an element. -/
theorem PathElem.marks_entriesChars_append {entries : List (String × String)} {rest : List Char}
    (hr : EndsElem rest) : ∀ c ∈ (entriesChars entries ++ rest).head?, c = '/' ∨ c = '[' := by
  intro c hc
  cases entries with
  | nil => exact .inl (hr c hc)
  | cons entry entries =>
    rw [entriesChars_cons_append] at hc
    cases hc
    exact .inr rfl

/-- An element is told from what stands behind it. -/
theorem PathElem.chars_append_inj {e e' : PathElem} {rest rest' : List Char} (he : e.IsPlain)
    (he' : e'.IsPlain) (hr : EndsElem rest) (hr' : EndsElem rest')
    (h : e.chars ++ rest = e'.chars ++ rest') : e = e' ∧ rest = rest' := by
  have hname {e : PathElem} (he : e.IsPlain) : ∀ c ∈ e.name.toList, ¬(c = '/' ∨ c = '[') := by
    rintro c hc (rfl | rfl)
    · exact he.1.1 hc
    · exact he.1.2 hc
  rw [chars, chars, List.append_assoc, List.append_assoc] at h
  obtain ⟨hnames, h⟩ := Text.append_inj_of_marks (hname he) (hname he')
    (marks_entriesChars_append hr) (marks_entriesChars_append hr') h
  obtain ⟨hentries, hrest⟩ := entriesChars_append_inj he.2 he'.2 hr hr' h
  cases e
  cases e'
  cases String.toList_inj.mp hnames
  cases KeyMap.ext hentries
  exact ⟨rfl, hrest⟩

/-! ## Paths -/

/-- The characters of the elements behind the first one. -/
def laterChars (es : List PathElem) : List Char := es.flatMap fun e => '/' :: e.chars

theorem laterChars_cons (e : PathElem) (es : List PathElem) :
    laterChars (e :: es) = '/' :: (e.chars ++ laterChars es) := rfl

theorem laterChars_eq_nil_iff {es : List PathElem} : laterChars es = [] ↔ es = [] := by
  cases es <;> simp [laterChars]

theorem endsElem_laterChars (es : List PathElem) : EndsElem (laterChars es) := by
  intro c hc
  cases es with
  | nil => cases hc
  | cons e es =>
    cases hc
    rfl

theorem laterChars_inj {es es' : List PathElem} (he : ∀ e ∈ es, e.IsPlain)
    (he' : ∀ e ∈ es', e.IsPlain) (h : laterChars es = laterChars es') : es = es' := by
  induction es generalizing es' with
  | nil =>
    cases es' with
    | nil => rfl
    | cons e' es' => cases h
  | cons e es ih =>
    cases es' with
    | nil => cases h
    | cons e' es' =>
      rw [List.forall_mem_cons] at he he'
      rw [laterChars_cons, laterChars_cons] at h
      obtain ⟨rfl, hlater⟩ := PathElem.chars_append_inj he.1 he'.1 (endsElem_laterChars es)
        (endsElem_laterChars es') (List.cons.inj h).2
      rw [ih he.2 he'.2 hlater]

namespace Path

/-- No text in the path holds the mark that ends it. -/
def IsPlain (p : Path) : Prop := ∀ e ∈ p.elems, e.IsPlain

instance (p : Path) : Decidable p.IsPlain := inferInstanceAs (Decidable (∀ e ∈ p.elems, _))

theorem toList_xpath_of_nil {p : Path} (h : p.elems = []) : p.xpath.toList = [] := by
  rw [xpath, h]
  rfl

theorem toList_xpath_of_cons {p : Path} {e : PathElem} {es : List PathElem}
    (h : p.elems = e :: es) : p.xpath.toList = e.chars ++ laterChars es := by
  have hslash : "/".toList = ['/'] := rfl
  simp only [xpath, h, String.toList_intercalate, hslash, List.map_cons, List.map_map,
    intercalate_cons_eq_flatMap, PathElem.toList_xpath, laterChars, List.flatMap_map,
    Function.comp_apply]

theorem xpath_eq_of_elems_eq {p q : Path} (h : p.elems = q.elems) : p.xpath = q.xpath := by
  rw [xpath, xpath, h]

/-- Plain paths with elements and the same text have the same elements. -/
theorem elems_eq_of_xpath_eq {p q : Path} (hp : p.IsPlain) (hq : q.IsPlain) (hpe : p.elems ≠ [])
    (hqe : q.elems ≠ []) (h : p.xpath = q.xpath) : p.elems = q.elems := by
  obtain ⟨e, es, hpe⟩ := List.exists_cons_of_ne_nil hpe
  obtain ⟨e', es', hqe⟩ := List.exists_cons_of_ne_nil hqe
  rw [IsPlain, hpe, List.forall_mem_cons] at hp
  rw [IsPlain, hqe, List.forall_mem_cons] at hq
  rw [← String.toList_inj, toList_xpath_of_cons hpe, toList_xpath_of_cons hqe] at h
  obtain ⟨hfirst, hlater⟩ := PathElem.chars_append_inj hp.1 hq.1 (endsElem_laterChars es)
    (endsElem_laterChars es') h
  rw [hpe, hqe, hfirst, laterChars_inj hp.2 hq.2 hlater]

/-- Only an empty path and a single element without name and keys have no text. -/
theorem xpath_eq_empty_iff {p : Path} : p.xpath = "" ↔ p.elems = [] ∨ p.elems = [{}] := by
  rw [← String.toList_inj, String.toList_empty]
  cases hpe : p.elems with
  | nil => simp [toList_xpath_of_nil hpe]
  | cons e es =>
    rw [toList_xpath_of_cons hpe, List.append_eq_nil_iff, PathElem.chars_eq_nil_iff,
      laterChars_eq_nil_iff]
    simp

/-- **The text of a plain path gives its elements.** Of two plain paths with elements the texts are
the same only if the elements are, each with its name and its keys. An empty path has the text of
a single element without name and keys, and of no other path with elements. -/
theorem xpath_unambiguous {p q : Path} (hp : p.IsPlain) (hq : q.IsPlain) :
    (p.elems ≠ [] → q.elems ≠ [] → (p.xpath = q.xpath ↔ p.elems = q.elems)) ∧
      (p.elems = [] → (p.xpath = q.xpath ↔ q.elems = [] ∨ q.elems = [{}])) := by
  refine ⟨fun hpe hqe => ⟨elems_eq_of_xpath_eq hp hq hpe hqe, xpath_eq_of_elems_eq⟩, fun hpe => ?_⟩
  rw [xpath_eq_empty_iff.mpr (.inl hpe), eq_comm]
  exact xpath_eq_empty_iff

/-- Slashes, brackets and equals signs in keys and values do not hide the element without a name
behind them. -/
theorem xpath_unambiguous_unnamed :
    let e : PathElem :=
      { name := "interface"
        keys := .ofList [("name", "Ethernet1/1"), ("[alias]", "a=[b"), ("", "")] }
    let p : Path := { elems := [e, {}] }
    let q : Path := { elems := [e] }
    p.IsPlain ∧ q.IsPlain ∧ p.xpath ≠ q.xpath ∧
      p.xpath = "interface[=][[alias]=a=[b][name=Ethernet1/1]/" := by
  intro e p q
  have hp : p.IsPlain := by decide +kernel
  have hq : q.IsPlain := by decide +kernel
  refine ⟨hp, hq, fun h => ?_, by decide +kernel⟩
  have helems : p.elems = q.elems := ((xpath_unambiguous hp hq).1 (by simp [p]) (by simp [q])).mp h
  simp [p, q] at helems

end Path

end Telemetry
