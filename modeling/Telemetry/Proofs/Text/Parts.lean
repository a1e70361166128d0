import Mathlib
import Telemetry.Text.Blank

/-! Texts that are put together from parts: parts with a separator between them, a part between
blanks, and words that blanks keep apart. -/

namespace Telemetry

theorem intercalate_cons_eq_flatMap {α : Type} (x : α) (l : List α) (ls : List (List α)) :
    [x].intercalate (l :: ls) = l ++ ls.flatMap (x :: ·) := by
  induction ls generalizing l with
  | nil => simp
  | cons k ls ih => rw [List.intercalate_cons_cons, ih, List.flatMap_cons, List.append_assoc]; rfl

section Separated

variable {α : Type} [DecidableEq α] {x : α} {ls : List (List α)}

theorem count_flatMap_cons (h : ∀ l ∈ ls, x ∉ l) : (ls.flatMap (x :: ·)).count x = ls.length := by
  induction ls with
  | nil => rfl
  | cons l ls ih =>
    rw [List.forall_mem_cons] at h
    rw [List.flatMap_cons, List.count_append, List.count_cons_self, List.count_eq_zero.mpr h.1,
      ih h.2, List.length_cons]
    omega

theorem count_intercalate (h : ∀ l ∈ ls, x ∉ l) :
    ([x].intercalate ls).count x = ls.length - 1 := by
  cases ls with
  | nil => rfl
  | cons l ls =>
    rw [List.forall_mem_cons] at h
    rw [intercalate_cons_eq_flatMap, List.count_append, List.count_eq_zero.mpr h.1,
      count_flatMap_cons h.2, List.length_cons]
    omega

omit [DecidableEq α] in
theorem length_intercalate_le {n : Nat} (h : ∀ l ∈ ls, l.length ≤ n) :
    ([x].intercalate ls).length ≤ (n + 1) * ls.length := by
  induction ls with
  | nil => simp
  | cons l ls ih =>
    rw [List.forall_mem_cons] at h
    have ih := ih h.2
    cases ls with
    | nil => simpa using Nat.le_succ_of_le h.1
    | cons k ls =>
      rw [List.intercalate_cons_cons, List.length_append, List.length_append, List.length_singleton,
        List.length_cons, Nat.mul_succ]
      have := h.1
      omega

omit [DecidableEq α] in
theorem mem_intercalate {y : α} (h : y ∈ [x].intercalate ls) : y = x ∨ ∃ l ∈ ls, y ∈ l := by
  induction ls with
  | nil => cases h
  | cons l ls ih =>
    cases ls with
    | nil => exact .inr ⟨l, by simp, by simpa using h⟩
    | cons k ls =>
      rw [List.intercalate_cons_cons, List.mem_append, List.mem_append, List.mem_singleton] at h
      rcases h with (h | h) | h
      · exact .inr ⟨l, by simp, h⟩
      · exact .inl h
      · obtain h | ⟨m, hm, h⟩ := ih h
        · exact .inl h
        · exact .inr ⟨m, List.mem_cons_of_mem _ hm, h⟩

omit [DecidableEq α] in
theorem intercalate_append {ks : List (List α)} (hl : ls ≠ []) (hk : ks ≠ []) :
    [x].intercalate (ls ++ ks) = [x].intercalate ls ++ x :: [x].intercalate ks := by
  obtain ⟨l, ls, rfl⟩ := List.exists_cons_of_ne_nil hl
  obtain ⟨k, ks, rfl⟩ := List.exists_cons_of_ne_nil hk
  simp only [List.cons_append, intercalate_cons_eq_flatMap, List.flatMap_append, List.flatMap_cons,
    List.append_assoc]

omit [DecidableEq α] in
theorem map_intercalate {β : Type} (f : α → β) :
    ([x].intercalate ls).map f = [f x].intercalate (ls.map (List.map f)) := by
  cases ls with
  | nil => rfl
  | cons l ls =>
    simp only [List.map_cons, intercalate_cons_eq_flatMap, List.map_append, List.map_flatMap,
      List.flatMap_map]

/-- The last parts of a text are a suffix of it that starts after a separator. -/
theorem intercalate_suffix_iff {ks : List (List α)} (hl : ∀ l ∈ ls, x ∉ l) (hk : ∀ k ∈ ks, x ∉ k)
    (hls : ls ≠ []) (hks : ks ≠ []) :
    ([x].intercalate ls = [x].intercalate ks ∨
      ∃ before, [x].intercalate ls = before ++ x :: [x].intercalate ks) ↔ ks <:+ ls := by
  constructor
  · rintro (h | ⟨before, h⟩)
    · have h := congrArg (List.splitOn x) h
      rw [List.splitOn_intercalate x hl hls, List.splitOn_intercalate x hk hks] at h
      exact h ▸ List.suffix_rfl
    · have h := congrArg (List.splitOn x) h
      rw [List.splitOn_intercalate x hl hls, List.splitOn_append_cons_self,
        List.splitOn_intercalate x hk hks] at h
      exact h ▸ List.suffix_append ..
  · rintro ⟨before, rfl⟩
    by_cases hb : before = []
    · exact .inl (by rw [hb, List.nil_append])
    · exact .inr ⟨_, intercalate_append hb hks⟩

end Separated

namespace Text

variable {c : Char} {before after cs a b word : List Char}

/-- The visible characters of ASCII are no blanks. -/
theorem isBlank_of_lt (h : 32 < c.toNat) (hlt : c.toNat < 127) : isBlank c = false := by
  simp only [isBlank, Bool.or_eq_false_iff, Bool.and_eq_false_iff, decide_eq_false_iff_not,
    beq_eq_false_iff_ne]
  omega

theorem dropWhile_isBlank (h : ∀ c, cs.head? = some c → isBlank c = false) :
    cs.dropWhile isBlank = cs := by
  cases cs with
  | nil => rfl
  | cons c cs => exact List.dropWhile_cons_of_neg (by simp [h c rfl])

/-- A text with no blank at either end is what is left of it between blanks. -/
theorem trim_between (hb : ∀ c ∈ before, isBlank c = true) (ha : ∀ c ∈ after, isBlank c = true)
    (hh : ∀ c, cs.head? = some c → isBlank c = false)
    (hl : ∀ c, cs.getLast? = some c → isBlank c = false) : trim (before ++ cs ++ after) = cs := by
  have hfront : (cs ++ after).dropWhile isBlank = if cs = [] then [] else cs ++ after := by
    cases cs with
    | nil => simpa using ha
    | cons c cs => simp [hh c rfl]
  have hback : ((cs ++ after).reverse.dropWhile isBlank).reverse = cs := by
    rw [List.reverse_append, List.dropWhile_append_of_pos (by simpa using ha),
      dropWhile_isBlank fun c hc => hl c (by rwa [List.head?_reverse] at hc), List.reverse_reverse]
  rw [trim, List.append_assoc, List.dropWhile_append_of_pos hb, hfront]
  split
  · rename_i h
    rw [h]
    rfl
  · exact hback

/-- A text without blanks is what is left of it between blanks. -/
theorem trim_padded (hb : ∀ c ∈ before, isBlank c = true) (ha : ∀ c ∈ after, isBlank c = true)
    (hcs : ∀ c ∈ cs, isBlank c = false) : trim (before ++ cs ++ after) = cs :=
  trim_between hb ha (fun c hc => hcs c (List.mem_of_head? hc))
    fun c hc => hcs c (List.mem_of_getLast? hc)

/-- A text with no blank at either end is left as it is. -/
theorem trim_of_ends (hh : ∀ c, cs.head? = some c → isBlank c = false)
    (hl : ∀ c, cs.getLast? = some c → isBlank c = false) : trim cs = cs := by
  have h : trim ([] ++ cs ++ []) = cs := trim_between (by simp) (by simp) hh hl
  rwa [List.nil_append, List.append_nil] at h

theorem trim_eq_self (hcs : ∀ c ∈ cs, isBlank c = false) : trim cs = cs :=
  trim_of_ends (fun c hc => hcs c (List.mem_of_head? hc))
    fun c hc => hcs c (List.mem_of_getLast? hc)

theorem mem_of_mem_trim (h : c ∈ trim cs) : c ∈ cs := by
  rw [trim, List.mem_reverse] at h
  exact List.dropWhile_subset _ (List.mem_reverse.mp (List.dropWhile_subset _ h))

theorem isBlank_head_trim (h : (trim cs).head? = some c) : isBlank c = false := by
  have hprefix : trim cs <+: cs.dropWhile isBlank := List.rdropWhile_prefix isBlank _
  obtain ⟨rest, hrest⟩ := hprefix
  have hhead := List.head?_dropWhile_not isBlank cs
  rwa [← hrest, List.head?_append, h] at hhead

theorem splitLast_eq_some_iff : splitLast c cs = some (a, b) ↔ cs = a ++ c :: b ∧ c ∉ b := by
  simp only [splitLast, Option.map_eq_some_iff, Prod.mk.injEq, Prod.exists, splitFirst_eq_some_iff]
  constructor
  · rintro ⟨b', a', ⟨h, hm⟩, rfl, rfl⟩
    refine ⟨?_, by simpa using hm⟩
    have h := congrArg List.reverse h
    simpa using h
  · rintro ⟨rfl, hm⟩
    exact ⟨b.reverse, a.reverse, by simpa using hm, by simp⟩

theorem splitLast_eq_none_iff : splitLast c cs = none ↔ c ∉ cs := by
  rw [splitLast, Option.map_eq_none_iff, splitFirst_eq_none_iff, List.mem_reverse]

theorem toNat_toLower (c : Char) :
    c.toLower.toNat = if 65 ≤ c.toNat ∧ c.toNat ≤ 90 then c.toNat + 32 else c.toNat := by
  have hupper : (c.val ≥ 'A'.val ∧ c.val ≤ 'Z'.val) ↔ 65 ≤ c.toNat ∧ c.toNat ≤ 90 := by
    simp only [ge_iff_le, UInt32.le_iff_toNat_le]
    rfl
  rw [Char.toLower]
  split
  · rename_i h
    have hle := (hupper.mp h).2
    rw [if_pos (hupper.mp h)]
    change (c.val + 32).toNat = c.toNat + 32
    rw [UInt32.toNat_add]
    exact Nat.mod_eq_of_lt (by change c.toNat + 32 < _; omega)
  · rename_i h
    rw [if_neg (mt hupper.mpr h)]

/-- A character in front of the letters is the lower case of nothing but itself. -/
theorem toLower_eq_iff (h : c.toNat < 65) {e : Char} : e.toLower = c ↔ e = c := by
  rw [← Char.toNat_inj, ← Char.toNat_inj, toNat_toLower]
  split <;> omega

theorem eq_of_map_toLower_eq (h : ∀ c ∈ a, c.toNat < 65) (heq : b.map Char.toLower = a) : b = a := by
  induction b generalizing a with
  | nil => exact heq
  | cons d b ih =>
    subst heq
    rw [List.map_cons, List.forall_mem_cons] at h
    rw [List.map_cons, ← ih h.2 rfl, ← (toLower_eq_iff h.1).mp rfl]

theorem eqIgnoringCase_iff :
    eqIgnoringCase a b = true ↔ a.map Char.toLower = b.map Char.toLower := beq_iff_eq

/-! ## Words -/

structure IsWord (cs : List Char) : Prop where
  ne_nil : cs ≠ []
  noBlank : ∀ c ∈ cs, isBlank c = false

/-- What may stand behind a word: nothing, or a blank first. -/
def EndsWord (cs : List Char) : Prop := ∀ c, cs.head? = some c → isBlank c = true

theorem words_blanks_append (h : ∀ c ∈ before, isBlank c = true) :
    words (before ++ cs) = words cs := by
  induction before with
  | nil => rfl
  | cons c before ih =>
    rw [List.forall_mem_cons] at h
    rw [← ih h.2, words, List.cons_append, List.splitOnP_cons_eq_if_modifyHead, if_pos h.1]
    rfl

theorem words_blanks (h : ∀ c ∈ cs, isBlank c = true) : words cs = [] := by
  rw [← List.append_nil cs, words_blanks_append h]
  rfl

theorem words_word_append (hw : IsWord word) (ha : EndsWord after) :
    words (word ++ after) = word :: words after := by
  have hkept : ∀ ws, (word :: ws).filter (!·.isEmpty) = word :: ws.filter (!·.isEmpty) :=
    fun ws => List.filter_cons_of_pos (by simpa using hw.ne_nil)
  cases after with
  | nil => rw [List.append_nil, words, List.splitOnP_eq_singleton hw.noBlank, hkept]; rfl
  | cons c after =>
    have hc := ha c rfl
    have hrest : words (c :: after) = words after := @words_blanks_append [c] after (by simpa)
    rw [hrest, words, List.splitOnP_append_cons_of_forall_mem hw.noBlank c hc, hkept, words]

/-- A text without words is blank, and any other one starts with blanks, a word and its end. -/
theorem blank_or_exists_word (cs : List Char) : (∀ c ∈ cs, isBlank c = true) ∨
    ∃ before word after, cs = before ++ word ++ after ∧ (∀ c ∈ before, isBlank c = true) ∧
      IsWord word ∧ EndsWord after := by
  induction cs with
  | nil => exact .inl (by simp)
  | cons c cs ih =>
    cases hc : isBlank c with
    | true =>
      rcases ih with ih | ⟨before, word, after, rfl, hb, hw, ha⟩
      · exact .inl (List.forall_mem_cons.mpr ⟨hc, ih⟩)
      · exact .inr ⟨c :: before, word, after, rfl, List.forall_mem_cons.mpr ⟨hc, hb⟩, hw, ha⟩
    | false =>
      refine .inr ⟨[], c :: cs.takeWhile (!isBlank ·), cs.dropWhile (!isBlank ·), ?_, by simp,
        ⟨List.cons_ne_nil _ _, List.forall_mem_cons.mpr ⟨hc, fun d hd => ?_⟩⟩, fun d hd => ?_⟩
      · rw [List.nil_append, List.cons_append, List.takeWhile_append_dropWhile]
      · simpa using List.mem_takeWhile_imp hd
      · have hhead := List.head?_dropWhile_not (!isBlank ·) cs
        rw [hd] at hhead
        simpa using hhead

/-- The first word of a text stands behind nothing but blanks. -/
theorem words_eq_cons_iff {rest : List (List Char)} :
    words cs = word :: rest ↔ ∃ before after, cs = before ++ word ++ after ∧
      (∀ c ∈ before, isBlank c = true) ∧ IsWord word ∧ EndsWord after ∧ words after = rest := by
  constructor
  · intro h
    rcases blank_or_exists_word cs with hcs | ⟨before, first, after, rfl, hb, hw, ha⟩
    · rw [words_blanks hcs] at h
      cases h
    · rw [List.append_assoc, words_blanks_append hb, words_word_append hw ha] at h
      obtain ⟨rfl, rfl⟩ := List.cons.inj h
      exact ⟨before, after, rfl, hb, hw, ha, rfl⟩
  · rintro ⟨before, after, rfl, hb, hw, ha, rfl⟩
    rw [List.append_assoc, words_blanks_append hb, words_word_append hw ha]
end Text

end Telemetry
