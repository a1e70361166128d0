import Telemetry.Proofs.Address.Display
import Telemetry.Proofs.Net.HostUri

/-! The host of an address in a URI. A displayed address is put after a scheme of the web, and the
URI is compared with exclusions and sent to the peer, while the stream is opened to the address
itself. Both name the same host and port exactly if no character of the host means something else
in a URI (`Address.uri_names_iff`). -/

namespace Telemetry

namespace Authority

/-- The host holds nothing of the user information before it. -/
theorem mem_host {a : Authority} {c : Char} (h : c ∈ a.host) :
    c ≠ '@' ∧ (c ∈ a.text ∨ c = '[' ∨ c = ']') := by
  have hpart {c : Char} (hc : c ∈ a.hostAndPort) : c ≠ '@' ∧ c ∈ a.text := by
    rw [hostAndPort, List.mem_reverse] at hc
    have hne : (c != '@') = true := List.mem_takeWhile_imp (p := (· != '@')) hc
    exact ⟨bne_iff_ne.mp hne, List.mem_reverse.mp (List.takeWhile_subset _ hc)⟩
  rw [host] at h
  split at h
  · rename_i rest heq
    rw [heq] at hpart
    simp only [List.cons_append, List.mem_cons, List.mem_append, List.not_mem_nil, or_false] at h
    rcases h with rfl | h | rfl
    · exact ⟨by decide, .inr (.inl rfl)⟩
    · have hc := hpart (List.mem_cons_of_mem _ (List.takeWhile_subset _ h))
      exact ⟨hc.1, .inl hc.2⟩
    · exact ⟨by decide, .inr (.inr rfl)⟩
  · have hc := hpart (List.takeWhile_subset _ h)
    exact ⟨hc.1, .inl hc.2⟩

end Authority

namespace Proxy

theorem mem_of_mem_bareHost {host : List Char} {c : Char} (h : c ∈ bareHost host) : c ∈ host := by
  simp only [bareHost] at h
  split at h
  · rw [List.mem_reverse] at h
    exact List.dropWhile_subset _ (List.mem_reverse.mp (List.dropWhile_subset _ h))
  · exact h

end Proxy

/-- The URI names the host and the port of an address. -/
def Uri.Names (u : Uri) (a : Address) : Prop :=
  ∃ authority, u.authority = some authority ∧
    Proxy.bareHost authority.host = a.host.toList ∧ authority.port? = some a.port.toNat

namespace Address

/-- No character of the host ends it in a URI, or ends user information before it. -/
def HasUriHost (a : Address) : Prop :=
  ∀ c ∈ a.host.toList, c ≠ '@' ∧ Authority.isEnd c = false

variable {a : Address}

theorem HasUriHost.displayChars (h : a.HasUriHost) :
    ∀ c ∈ a.displayChars, c ≠ '@' ∧ Authority.isEnd c = false := by
  intro c hc
  rcases mem_displayChars hc with hc | hc | rfl | rfl | rfl
  · exact h c hc
  · have hhost : isHostChar c = true := isHostChar_of_isDigit hc
    have hne {x : Char} (hx : isHostChar x = false) : c ≠ x := ne_of_isHostChar hhost hx
    simp only [Authority.isEnd, Bool.or_eq_false_iff, beq_eq_false_iff_ne]
    exact ⟨hne rfl, ⟨hne rfl, hne rfl⟩, hne rfl⟩
  all_goals decide

/-- What a URI with the display of an address has for its authority. -/
theorem authority_of_parse {scheme : Scheme} {written : List Char} {u : Uri}
    (hw : Uri.IsWebScheme scheme written) (hu : Uri.parse (written ++ a.displayChars) = .ok u) :
    u.authority = some ⟨Uri.authorityPart a.displayChars⟩ ∧
      Authority.parse (Uri.authorityPart a.displayChars) =
        .ok ⟨Uri.authorityPart a.displayChars⟩ := by
  obtain ⟨-, -, hp, -, rfl⟩ := (Uri.parse_eq_ok_iff hw).mp hu
  exact ⟨rfl, hp⟩

/-- A URI's host has none of the characters that end it, or that end user information. -/
theorem hasUriHost_of_bareHost {cs : List Char}
    (h : Proxy.bareHost (Authority.host ⟨Uri.authorityPart cs⟩) = a.host.toList) :
    a.HasUriHost := by
  intro c hc
  rw [← h] at hc
  obtain ⟨hat, hmem⟩ := Authority.mem_host (Proxy.mem_of_mem_bareHost hc)
  refine ⟨hat, ?_⟩
  rcases hmem with hmem | rfl | rfl
  · have hend : (!Authority.isEnd c) = true :=
      List.mem_takeWhile_imp (p := (!Authority.isEnd ·)) hmem
    simpa using hend
  · rfl
  · rfl

/-- The host in brackets is read from the display of an address with colons. -/
theorem host_display_of_mem (hm : ':' ∈ a.host.toList) (h : a.HasUriHost)
    (hp : Authority.parse a.displayChars = .ok ⟨a.displayChars⟩) :
    Proxy.bareHost (Authority.host ⟨a.displayChars⟩) = a.host.toList := by
  obtain ⟨hcount, hle⟩ := Authority.count_brackets_of_parse hp
  rw [displayChars_of_mem hm] at hcount hle
  simp only [List.cons_append, List.count_append, List.count_cons] at hcount hle
  have hclose : ']' ∉ a.host.toList := List.count_eq_zero.mp (by simp at hle; omega)
  have hopen : '[' ∉ a.host.toList := List.count_eq_zero.mp (by simp at hcount hle; omega)
  have hall := Authority.hostAndPort_of_not_mem fun hat => (h.displayChars _ hat).1 rfl
  rw [displayChars_of_mem hm] at hall ⊢
  rw [Authority.host_of_brackets hall hclose, Proxy.bareHost_of_brackets hopen hclose]

theorem host_display_of_not_mem (hm : ':' ∉ a.host.toList) (h : a.HasUriHost)
    (hhead : a.host.toList.head? ≠ some '[') :
    Proxy.bareHost (Authority.host ⟨a.displayChars⟩) = a.host.toList := by
  have hall := Authority.hostAndPort_of_not_mem fun hat => (h.displayChars _ hat).1 rfl
  rw [displayChars_of_not_mem hm] at hall ⊢
  rw [Authority.host_of_name hall hhead hm, Proxy.bareHost_of_head hhead]

/-- The display of an address without colons does not start with a bracket, which nothing would
close. -/
theorem head?_ne_of_parse {text : String} (h : parse text = .ok a) (hm : ':' ∉ a.host.toList)
    (hp : Authority.parse a.displayChars = .ok ⟨a.displayChars⟩) :
    a.host.toList.head? ≠ some '[' := by
  intro hhead
  have hclose : a.displayChars.count ']' = 0 := by
    rw [displayChars_of_not_mem hm, List.count_append,
      List.count_eq_zero.mpr (not_mem_of_parse h hhead), List.count_cons_of_ne (by decide),
      List.count_eq_zero.mpr (Text.not_mem_decimal rfl)]
  have hopen : 0 < a.displayChars.count '[' := by
    rw [List.count_pos_iff, displayChars_of_not_mem hm]
    exact List.mem_append_left _ (List.mem_of_head? hhead)
  rw [(Authority.count_brackets_of_parse hp).1, hclose] at hopen
  exact absurd hopen (Nat.lt_irrefl 0)

/-- **When all consumers of an address see the same host.** Take an address that was read, and the
URI of its display, after either scheme, where that can be read. The URI names the host and the port
of the address exactly if the host holds none of the characters that mean something else in a
URI. -/
theorem uri_names_iff {text : String} {scheme : Scheme} {written : List Char} {u : Uri}
    (h : parse text = .ok a) (hw : Uri.IsWebScheme scheme written)
    (hu : Uri.parse (written ++ a.displayChars) = .ok u) : u.Names a ↔ a.HasUriHost := by
  obtain ⟨hauth, hp⟩ := authority_of_parse hw hu
  constructor
  · rintro ⟨authority, ha, hhost, -⟩
    rw [hauth] at ha
    cases ha
    exact hasUriHost_of_bareHost hhost
  · intro hhost
    have hpart := (Uri.authorityPart_eq a.displayChars fun c hc => (hhost.displayChars c hc).2).1
    rw [hpart] at hauth hp
    obtain ⟨before, hport⟩ := a.displayChars_ends
    refine ⟨_, hauth, ?_,
      Authority.port?_of_decimal (Nat.le_of_lt_succ a.port.toNat_lt) (by exact hport)⟩
    by_cases hm : ':' ∈ a.host.toList
    · exact host_display_of_mem hm hhost hp
    · exact host_display_of_not_mem hm hhost (head?_ne_of_parse h hm hp)

/-- A target with user information, and an exclusion of what follows it. -/
def userTarget : Address := ⟨"user@router1", 57400⟩

def routerEnvironment : Environment := fun name =>
  if name = "HTTPS_PROXY" then some "http://proxy.lab:3128"
  else if name = "NO_PROXY" then some "router1"
  else none

/-- The exclusion covers the host of the URI and not the host that a stream is opened to, so that
this host is reached without the proxy. -/
theorem uri_names_iff_user :
    parse "user@router1" = .ok userTarget ∧
      (∃ u, Uri.parse ("https://".toList ++ userTarget.displayChars) = .ok u ∧
        ¬u.Names userTarget) ∧
      Proxy.resolve userTarget routerEnvironment = .ok none ∧
      (Proxy.exclusionsOf routerEnvironment).any
        (Exclusion.covers userTarget.host.toList) = false := by
  have h : parse "user@router1" = .ok userTarget := by decide +kernel
  have hu : Uri.parse ("https://".toList ++ userTarget.displayChars) =
      .ok ⟨some .https, some ⟨"user@router1:57400".toList⟩⟩ := by decide +kernel
  refine ⟨h, ⟨_, hu, fun hn => ?_⟩, by decide +kernel, by decide +kernel⟩
  have hat := (uri_names_iff h .https hu).mp hn '@' (by decide)
  exact hat.1 rfl

end Address

end Telemetry
