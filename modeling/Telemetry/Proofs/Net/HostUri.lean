import Mathlib
import Telemetry.Proofs.Net.HostSpelling
import Telemetry.Proofs.Text.Utf8
import Telemetry.Proxy

/-! Hosts in URIs. A host and a port are read as the authority of a URI (`Uri.parse_host`), and the
host of that authority is the one that was written (`Authority.host_withPort`). -/

namespace Telemetry

namespace Authority

/-- Characters of hosts change nothing but the number of colons. -/
theorem Scan.run_eq {s : Scan} {cs : List Char} (h : ∀ c ∈ cs, isHostChar c = true ∨ c = ':')
    (hc : s.colons + cs.count ':' ≤ maxColons) :
    s.run cs = .ok { s with colons := s.colons + cs.count ':' } := by
  induction cs generalizing s with
  | nil => rfl
  | cons c cs ih =>
    rw [List.forall_mem_cons] at h
    obtain ⟨h | rfl, hcs⟩ := h
    · have hcolon : c ≠ ':' := ne_of_isHostChar h rfl
      rw [List.count_cons_of_ne hcolon] at hc ⊢
      rw [Scan.run, Scan.step, if_neg hcolon, if_neg (ne_of_isHostChar h rfl),
        if_neg (ne_of_isHostChar h rfl), if_neg (ne_of_isHostChar h rfl),
        if_neg (ne_of_isHostChar h rfl), if_pos (isAllowed_of_isHostChar h)]
      exact ih hcs hc
    · rw [List.count_cons_self] at hc ⊢
      rw [Scan.run, Scan.step, if_pos rfl, if_neg (by omega)]
      simp only [Except.bind]
      rw [ih hcs (by simp only; omega)]
      simp only [Nat.add_assoc, Nat.add_comm 1]

theorem Scan.run_append (s : Scan) (a b : List Char) :
    s.run (a ++ b) = (s.run a).bind (·.run b) := by
  induction a generalizing s with
  | nil => rfl
  | cons c a ih =>
    simp only [List.cons_append, Scan.run]
    cases s.step c with
    | error fault => rfl
    | ok t => exact ih t

theorem Scan.run_port {s : Scan} (h : s.colons = 0) (port : Nat) :
    s.run (':' :: Text.decimal port) = .ok { s with colons := 1 } := by
  have hdigit : ∀ c ∈ Text.decimal port, isHostChar c = true :=
    fun c hc => isHostChar_of_isDigit (Text.isDigit_of_mem_decimal hc)
  have hcount : (':' :: Text.decimal port).count ':' = 1 := by
    rw [List.count_cons_self, count_colon_eq_zero hdigit]
  rw [Scan.run_eq, hcount, h]
  · intro c hc
    rcases List.mem_cons.mp hc with rfl | hc
    · exact .inr rfl
    · exact .inl (hdigit c hc)
  · rw [hcount, h]
    decide

theorem exists_run_withPort (h : Host) (port : Nat) :
    ∃ s, ({} : Scan).run (h.withPort port) = .ok s ∧ s.isComplete = true := by
  cases h.form with
  | plain uri all =>
    have hcount : h.chars.count ':' = 0 := count_colon_eq_zero all
    have hrun := Scan.run_eq (s := {}) (fun c hc => .inl (all c hc)) (by rw [hcount]; decide)
    rw [hcount] at hrun
    refine ⟨{ colons := 1 }, ?_, rfl⟩
    rw [Host.withPort, uri, Scan.run_append, hrun]
    exact Scan.run_port (s := {}) rfl port
  | bracketed t =>
    have hinner := Scan.run_eq (s := { opened := true }) (fun c => (Host.v6 t).isHostChar_of_mem)
      (by rw [Nat.zero_add]; exact t.count_colon_le)
    refine ⟨{ opened := true, closed := true, colons := 1 }, ?_, rfl⟩
    simp only [Host.withPort, Host.uriChars, List.cons_append, List.append_assoc, List.nil_append]
    change ({ opened := true } : Scan).run _ = _
    rw [Scan.run_append]
    change (({ opened := true } : Scan).run (Host.v6 t).chars).bind _ = _
    rw [hinner]
    exact Scan.run_port (s := { opened := true, closed := true }) rfl port

end Authority

namespace Host

variable {c : Char} {port : Nat}

theorem mem_withPort {h : Host} (hc : c ∈ h.withPort port) :
    isHostChar c = true ∨ c = ':' ∨ c = '[' ∨ c = ']' := by
  have huri : c ∈ h.uriChars → c ∈ h.chars ∨ c = '[' ∨ c = ']' := by
    cases h.form with
    | plain uri all =>
      rw [uri]
      exact .inl
    | bracketed t =>
      simp only [uriChars, chars, List.mem_append, List.mem_cons, List.not_mem_nil, or_false]
      tauto
  rw [withPort, List.mem_append, List.mem_cons] at hc
  rcases hc with hc | hc | hc
  · rcases huri hc with hc | hc
    · exact (isHostChar_of_mem hc).imp_right .inl
    · exact .inr (.inr hc)
  · exact .inr (.inl hc)
  · exact .inl (isHostChar_of_isDigit (Text.isDigit_of_mem_decimal hc))

/-- No character of the authority ends it, and none of them ends user information. -/
theorem not_isEnd_of_mem_withPort {h : Host} (hc : c ∈ h.withPort port) :
    Authority.isEnd c = false ∧ c ≠ '@' := by
  rcases mem_withPort hc with hc | rfl | rfl | rfl
  · refine ⟨?_, ne_of_isHostChar hc rfl⟩
    simp only [Authority.isEnd, Bool.or_eq_false_iff, beq_eq_false_iff_ne]
    exact ⟨⟨ne_of_isHostChar hc rfl, ne_of_isHostChar hc rfl⟩,
      ne_of_isHostChar hc rfl⟩
  all_goals decide

theorem length_withPort_le (h : Host) (hp : port ≤ 65535) : (h.withPort port).length ≤ 261 := by
  have huri : h.uriChars.length ≤ h.chars.length + 2 := by
    cases h.form with
    | plain uri all =>
      rw [uri]
      exact Nat.le_add_right ..
    | bracketed t => simp [uriChars, chars]
  have hport : (Text.decimal port).length ≤ 5 := Text.length_decimal_le (by omega)
  have hchars := h.length_chars_le
  rw [withPort, List.length_append, List.length_cons]
  omega

end Host

namespace Uri

theorem authorityPart_eq (cs : List Char) (h : ∀ c ∈ cs, Authority.isEnd c = false) :
    authorityPart cs = cs ∧ tailPart cs = [] := by
  constructor
  · exact List.takeWhile_eq_self_iff.mpr fun c hc => by rw [h c hc, Bool.not_false]
  · exact List.dropWhile_eq_nil_iff.mpr fun c hc => by rw [h c hc, Bool.not_false]

/-- A host and a port after a scheme of the web are a URI. -/
theorem parse_host {scheme : Scheme} {written : List Char} (hw : IsWebScheme scheme written)
    (h : Host) {port : Nat} (hp : port ≤ 65535) :
    parse (written ++ h.withPort port) = .ok ⟨some scheme, some ⟨h.withPort port⟩⟩ := by
  obtain ⟨hauth, htail⟩ := authorityPart_eq (h.withPort port)
    fun c hc => (Host.not_isEnd_of_mem_withPort hc).1
  have hlen := Text.utf8Length_le (written ++ h.withPort port)
  have hport := h.length_withPort_le hp
  have hwritten : written.length ≤ 8 := by cases hw <;> decide
  have hne : h.withPort port ≠ [] := List.append_ne_nil_of_right_ne_nil _ (List.cons_ne_nil _ _)
  have hlast : (h.withPort port).getLast? ≠ some '@' := fun hl =>
    (Host.not_isEnd_of_mem_withPort (List.mem_of_getLast? hl)).2 rfl
  rw [parse_eq_ok_iff hw, hauth, htail]
  refine ⟨?_, hne, Authority.parse_eq_ok_iff.mpr ⟨rfl, hlast, ?_⟩, rfl, rfl⟩
  · rw [List.length_append] at hlen
    exact hlen.trans (by simp only [maxLength]; omega)
  · exact Authority.exists_run_withPort h port

end Uri

namespace Authority

theorem hostAndPort_of_not_mem {cs : List Char} (h : '@' ∉ cs) :
    hostAndPort ⟨cs⟩ = cs := by
  rw [hostAndPort, List.takeWhile_eq_self_iff.mpr, List.reverse_reverse]
  intro c hc
  exact bne_iff_ne.mpr (ne_of_mem_of_not_mem (List.mem_reverse.mp hc) h)

theorem host_of_name {a : Authority} {cs port : List Char}
    (h : a.hostAndPort = cs ++ ':' :: port) (hhead : cs.head? ≠ some '[') (hcs : ':' ∉ cs) :
    a.host = cs := by
  have htake : (cs ++ ':' :: port).takeWhile (· != ':') = cs := by
    rw [List.takeWhile_append_of_pos fun c hc => bne_iff_ne.mpr (ne_of_mem_of_not_mem hc hcs)]
    simp
  rw [host, h]
  split
  · rename_i rest heq
    cases cs with
    | nil => cases heq
    | cons c cs =>
      cases heq
      exact absurd rfl hhead
  · exact htake

theorem host_of_brackets {a : Authority} {cs port : List Char}
    (h : a.hostAndPort = '[' :: cs ++ ']' :: port) (hcs : ']' ∉ cs) :
    a.host = '[' :: cs ++ [']'] := by
  have htake : (cs ++ ']' :: port).takeWhile (· != ']') = cs := by
    rw [List.takeWhile_append_of_pos fun c hc => bne_iff_ne.mpr (ne_of_mem_of_not_mem hc hcs)]
    simp
  rw [host, h]
  simp only [List.cons_append, htake]

/-- What follows the last colon is the port. -/
theorem port?_of_last {a : Authority} {before port : List Char}
    (h : a.text = before ++ ':' :: port) (hport : ':' ∉ port) : a.port? = Text.readPort? port := by
  have hmem : a.text.contains ':' = true := by simp [h]
  have hlast : (a.text.reverse.takeWhile (· != ':')).reverse = port := by
    have hne : ∀ c ∈ port.reverse, (c != ':') = true := fun c hc =>
      bne_iff_ne.mpr (ne_of_mem_of_not_mem (List.mem_reverse.mp hc) hport)
    rw [h, List.reverse_append, List.reverse_cons, List.append_assoc,
      List.takeWhile_append_of_pos hne]
    simp
  rw [port?, if_pos hmem, hlast]

theorem port?_of_decimal {a : Authority} {before : List Char} {port : Nat} (hp : port ≤ 65535)
    (h : a.text = before ++ ':' :: Text.decimal port) : a.port? = some port :=
  (port?_of_last h (Text.not_mem_decimal rfl)).trans (Text.readNat?_decimal hp)

theorem host_withPort (h : Host) (port : Nat) : host ⟨h.withPort port⟩ = h.uriChars := by
  have hall : (Authority.mk (h.withPort port)).hostAndPort = h.withPort port :=
    hostAndPort_of_not_mem fun hm => (Host.not_isEnd_of_mem_withPort hm).2 rfl
  cases h.form with
  | plain uri all =>
    rw [Host.withPort, uri] at hall ⊢
    exact host_of_name hall (head?_ne_of_isHostChar all rfl) (not_mem_of_isHostChar all rfl)
  | bracketed t =>
    have hstart : (Host.v6 t).withPort port =
        '[' :: t.chars ++ ']' :: ':' :: Text.decimal port := by
      simp [Host.withPort, Host.uriChars]
    exact host_of_brackets (hall.trans hstart) (t.not_mem rfl (by decide))

end Authority

namespace Proxy

theorem bareHost_of_head {host : List Char} (h : host.head? ≠ some '[') : bareHost host = host := by
  simp only [bareHost, beq_iff_eq, if_neg h]

/-- The brackets around a host without brackets are taken off. -/
theorem bareHost_of_brackets {cs : List Char} (hopen : '[' ∉ cs) (hclose : ']' ∉ cs) :
    bareHost ('[' :: cs ++ [']']) = cs := by
  have hstay {ds : List Char} (hds : ds ⊆ cs) (hne : ds ≠ []) (rest : List Char) :
      (ds ++ rest).dropWhile (fun c => c == '[' || c == ']') = ds ++ rest := by
    obtain ⟨d, ds, rfl⟩ := List.exists_cons_of_ne_nil hne
    have hd : d ∈ cs := hds List.mem_cons_self
    rw [List.cons_append, List.dropWhile_cons_of_neg]
    simp [ne_of_mem_of_not_mem hd hopen, ne_of_mem_of_not_mem hd hclose]
  by_cases hne : cs = []
  · rw [hne]
    rfl
  · have hback := hstay (List.reverse_subset.mpr (List.Subset.refl cs))
      (List.reverse_ne_nil_iff.mpr hne) []
    rw [List.append_nil] at hback
    simp only [bareHost, List.cons_append, List.head?_cons, beq_self_eq_true, if_true,
      List.dropWhile_cons_of_pos, Bool.true_or, hstay (List.Subset.refl cs) hne [']']]
    rw [List.reverse_append, List.reverse_singleton, List.singleton_append,
      List.dropWhile_cons_of_pos rfl, hback, List.reverse_reverse]

end Proxy

/-- A target is displayed as its host and its port in a URI. -/
theorem Address.displayChars_of_host {target : Address} {h : Host}
    (ht : target.host = String.ofList h.chars) :
    target.displayChars = h.withPort target.port.toNat := by
  rw [displayChars, ht, String.toList_ofList]
  cases h.form with
  | plain uri all =>
    have hcolon : ':' ∉ h.chars := not_mem_of_isHostChar all rfl
    rw [if_neg (mt List.contains_iff_mem.mp hcolon), Host.withPort, uri]
  | bracketed t =>
    have hcolon : ':' ∈ (Host.v6 t).chars :=
      List.count_pos_iff.mp (Nat.lt_of_lt_of_le (by decide) t.two_le_count_colon)
    rw [if_pos (List.contains_iff_mem.mpr hcolon)]
    simp [Host.withPort, Host.uriChars, Host.chars]

end Telemetry
