import Mathlib
import Telemetry.Proofs.Net.HostUri
import Telemetry.Proofs.Results

/-! Authorities without user information as they are written: a host, which is a name or stands in
brackets, and possibly a colon and the text of a port. The two parts are read as they are written
(`host_of_hostText`, `port?_of_hostText`), and with another port the text is an authority again
(`parse_withPort`). -/

namespace Telemetry.Authority

/-- The text of a host: a name without colons and brackets, or something in brackets. -/
inductive IsHostText : List Char → Prop
  | name {cs : List Char} (hne : cs ≠ []) (hcolon : ':' ∉ cs) (hopen : '[' ∉ cs)
      (hclose : ']' ∉ cs) : IsHostText cs
  | bracketed {cs : List Char} (hne : cs ≠ []) (hopen : '[' ∉ cs) (hclose : ']' ∉ cs) :
      IsHostText ('[' :: cs ++ [']'])

theorem IsHostText.head?_append_ne {host : List Char} (h : IsHostText host) {rest : List Char} :
    (host ++ rest).head? ≠ some ':' := by
  cases h with
  | name hne hcolon _ _ =>
    obtain ⟨c, cs, rfl⟩ := List.exists_cons_of_ne_nil hne
    exact fun hc => hcolon (Option.some.inj hc ▸ List.mem_cons_self)
  | bracketed => exact fun hc => absurd (Option.some.inj hc) (by decide)

/-- Only a host in brackets brings a bracket into a text, and stands at its beginning then. -/
theorem IsHostText.exists_of_bracket {host rest : List Char} (h : IsHostText host)
    (hrest : '[' ∉ rest) (hm : '[' ∈ host ++ rest) :
    ∃ inside, inside ≠ [] ∧ '[' ∉ inside ∧ ']' ∉ inside ∧
      host ++ rest = '[' :: (inside ++ ']' :: rest) := by
  cases h with
  | name _ _ hopen _ => exact absurd hm (List.not_mem_append hopen hrest)
  | @bracketed inside hne hopen hclose => exact ⟨inside, hne, hopen, hclose, by simp⟩

/-- What stands behind a host that has a port or has none. -/
def portChars : Option (List Char) → List Char
  | none => []
  | some port => ':' :: port

variable {host : List Char} {port : Option (List Char)}

theorem host_of_hostText (h : IsHostText host) (hat : '@' ∉ host ++ portChars port) :
    Authority.host ⟨host ++ portChars port⟩ = host := by
  have hall := hostAndPort_of_not_mem hat
  cases h with
  | name hne hcolon hopen hclose =>
    have hhead : host.head? ≠ some '[' := fun hh => hopen (List.mem_of_head? hh)
    cases port with
    | some port => exact host_of_name hall hhead hcolon
    | none =>
      rw [portChars, List.append_nil] at hall ⊢
      have hself : host.takeWhile (· != ':') = host :=
        List.takeWhile_eq_self_iff.mpr fun c hc => bne_iff_ne.mpr (ne_of_mem_of_not_mem hc hcolon)
      rw [Authority.host, hall]
      split
      · exact absurd List.mem_cons_self hopen
      · exact hself
  | @bracketed cs hne hopen hclose =>
    have hparts : (Authority.mk ('[' :: cs ++ [']'] ++ portChars port)).hostAndPort =
        '[' :: cs ++ ']' :: portChars port := by
      rw [hall]
      simp
    exact host_of_brackets hparts hclose

/-- An authority holds visible characters of ASCII, and nothing that ends it. -/
theorem forall_of_parse {cs : List Char} {a : Authority} (h : parse cs = .ok a) :
    ∀ c ∈ cs, (32 < c.toNat ∧ c.toNat < 127) ∧ isEnd c = false := by
  obtain ⟨-, -, s, hs, -⟩ := parse_eq_ok_iff.mp h
  intro c hc
  rcases Scan.isAllowed_of_run hs c hc with hallowed | rfl
  · rw [isAllowed, Bool.or_eq_true, List.contains_iff_mem] at hallowed
    rcases hallowed with hallowed | hallowed
    · rw [isAlphanum_iff] at hallowed
      have hne (d : Char) (hd : d.toNat < 48 ∨ d.toNat = 63) : (c == d) = false :=
        beq_eq_false_iff_ne.mpr fun he => by rw [he] at hallowed; omega
      simp only [isEnd, hne '/' (by decide), hne '?' (by decide), hne '#' (by decide)]
      exact ⟨⟨by omega, by omega⟩, rfl⟩
    · have hall : "!$&'()*+,-.:;=@[]_~".toList.all
          (fun c => decide (32 < c.toNat ∧ c.toNat < 127) && !isEnd c) = true := by decide
      simpa using List.all_eq_true.mp hall c hallowed
  · decide

/-- A bracket is no part of a port. -/
theorem readPort?_eq_none {port : List Char} (h : ']' ∈ port) : Text.readPort? port = none := by
  rw [Option.eq_none_iff_forall_ne_some]
  intro n hn
  rcases (Text.readNat?_eq_some_iff.mp hn).1.mem_cases h with h | h
  all_goals exact absurd h (by decide)

theorem port?_of_hostText (h : IsHostText host) (hport : ∀ p, port = some p → ':' ∉ p) :
    Authority.port? ⟨host ++ portChars port⟩ = port.bind Text.readPort? := by
  cases port with
  | some port => exact port?_of_last rfl (hport port rfl)
  | none =>
    rw [portChars, List.append_nil, Option.bind_none]
    cases hsplit : Text.splitLast ':' host with
    | none =>
      rw [Text.splitLast_eq_none_iff] at hsplit
      rw [port?, if_neg (by rwa [List.contains_iff_mem])]
    | some parts =>
      obtain ⟨heq, hlast⟩ := Text.splitLast_eq_some_iff.mp hsplit
      rw [port?_of_last heq hlast]
      cases h with
      | name hne hcolon => exact absurd (heq ▸ by simp) hcolon
      | bracketed hne hopen hclose =>
        have hend := congrArg List.getLast? heq
        rw [List.getLast?_concat, List.getLast?_append_cons, List.getLast?_cons] at hend
        cases hp : parts.2.getLast? with
        | none =>
          rw [hp] at hend
          exact absurd (Option.some.inj hend) (by decide)
        | some d =>
          rw [hp] at hend
          obtain rfl : ']' = d := Option.some.inj hend
          exact readPort?_eq_none (List.mem_of_getLast? hp)

/-! ## Reading again -/

namespace Scan

variable {s t : Scan} {c : Char} {cs : List Char}

/-- A character that ends neither user information nor brackets. -/
theorem kept_of_step (h : s.step c = .ok t) (hat : c ≠ '@') (hclose : c ≠ ']') :
    t.colons = s.colons + [c].count ':' ∧ (s.percent = true → t.percent = true) := by
  by_cases hcolon : c = ':'
  · subst hcolon
    rw [step, if_pos rfl] at h
    split at h
    · cases h
    · cases h
      exact ⟨rfl, id⟩
  · rw [List.count_singleton, if_neg (by simpa using hcolon)]
    simp only [step, if_neg hcolon, if_neg hat, if_neg hclose] at h
    repeat' split at h
    all_goals cases h
    · exact ⟨rfl, id⟩
    · exact ⟨rfl, fun _ => rfl⟩
    · exact ⟨rfl, id⟩

theorem kept_of_run (h : s.run cs = .ok t) (hat : '@' ∉ cs) (hclose : ']' ∉ cs) :
    t.colons = s.colons + cs.count ':' ∧ (s.percent = true → t.percent = true) := by
  induction cs generalizing s with
  | nil =>
    cases h
    exact ⟨rfl, id⟩
  | cons c cs ih =>
    rw [List.mem_cons, not_or] at hat hclose
    obtain ⟨r, hr, hrun⟩ := exists_of_bind_eq_ok h
    obtain ⟨hcolons, hpercent⟩ := kept_of_step hr (Ne.symm hat.1) (Ne.symm hclose.1)
    obtain ⟨hcolons', hpercent'⟩ := ih hrun hat.2 hclose.2
    refine ⟨?_, hpercent' ∘ hpercent⟩
    rw [← List.singleton_append, List.count_append]
    omega

theorem run_append_eq_ok_iff {cs' : List Char} :
    s.run (cs ++ cs') = .ok t ↔ ∃ r, s.run cs = .ok r ∧ r.run cs' = .ok t := by
  rw [run_append]
  constructor
  · exact exists_of_bind_eq_ok
  · rintro ⟨r, hr, ht⟩
    rw [hr]
    exact ht

/-- Behind a host no colon has been seen since its brackets, if it has any, and these are closed. -/
theorem of_hostText (hhost : IsHostText host) (hat : '@' ∉ host)
    (h : ({} : Scan).run host = .ok s) : s.colons = 0 ∧ s.opened = s.closed := by
  cases hhost with
  | name hne hcolon hopen hclose =>
    obtain ⟨hcolons, -⟩ := kept_of_run h hat hclose
    obtain ⟨ho, hl⟩ := brackets_of_run h
    rw [List.count_eq_zero.mpr hcolon] at hcolons
    rw [List.count_eq_zero.mpr hopen] at ho
    rw [List.count_eq_zero.mpr hclose] at hl
    exact ⟨hcolons, (Bool.toNat_eq_zero.mp ho).trans (Bool.toNat_eq_zero.mp hl).symm⟩
  | @bracketed cs hne hopen hclose =>
    obtain ⟨r, hr, hend⟩ := run_append_eq_ok_iff.mp h
    obtain ⟨ho, -⟩ := brackets_of_run hr
    rw [List.count_cons_self, List.count_eq_zero.mpr hopen] at ho
    obtain ⟨u, hu, hdone⟩ := exists_of_bind_eq_ok hend
    cases hdone
    rw [step, if_neg (by decide), if_neg (by decide), if_pos rfl] at hu
    split at hu
    · cases hu
    · cases hu
      exact ⟨rfl, Bool.toNat_eq_one.mp ho⟩

end Scan

/-- With another port, or with one where there was none, the text is an authority as well. -/
theorem parse_withPort (hhost : IsHostText host) (hat : '@' ∉ host ++ portChars port)
    (hport : ∀ p, port = some p → ']' ∉ p) (n : Nat) {a : Authority}
    (h : parse (host ++ portChars port) = .ok a) :
    parse (host ++ ':' :: Text.decimal n) = .ok ⟨host ++ ':' :: Text.decimal n⟩ := by
  obtain ⟨-, -, t, ht, hcomplete⟩ := parse_eq_ok_iff.mp h
  obtain ⟨s, hs, hrest⟩ := Scan.run_append_eq_ok_iff.mp ht
  rw [List.mem_append, not_or] at hat
  obtain ⟨hcolons, hbrackets⟩ := Scan.of_hostText hhost hat.1 hs
  have hclose : ']' ∉ portChars port := by
    cases port with
    | none => exact List.not_mem_nil
    | some p => exact List.not_mem_cons_of_ne_of_not_mem (by decide) (hport p rfl)
  obtain ⟨-, hpercent⟩ := Scan.kept_of_run hrest hat.2 hclose
  simp only [Scan.isComplete, Bool.and_eq_true, Bool.not_eq_true'] at hcomplete
  have hnone : s.percent = false := by
    rw [← Bool.not_eq_true]
    intro hp
    rw [hpercent hp] at hcomplete
    cases hcomplete.2
  refine parse_eq_ok_iff.mpr ⟨rfl, fun hlast => ?_, { s with colons := 1 }, ?_, ?_⟩
  · have hmem : '@' ∈ ':' :: Text.decimal n := by
      refine List.mem_of_getLast? ?_
      rwa [List.getLast?_append_of_ne_nil _ (List.cons_ne_nil _ _)] at hlast
    rcases List.mem_cons.mp hmem with hmem | hmem
    · cases hmem
    · exact Text.not_mem_decimal rfl hmem
  · rw [Scan.run_append, hs]
    exact Scan.run_port hcolons n
  · simp [Scan.isComplete, hbrackets, hnone]

end Telemetry.Authority
