import Mathlib
import Telemetry.Proofs.Address.UriHost
import Telemetry.Proofs.Proxy.Coverage

/-! A star in the list of exclusions. It is read as a domain, and domains are compared with names
only: a star covers every name that does not end in a star itself, and no address, whatever stands
beside it in the list (`Proxy.resolve_starred`). -/

namespace Telemetry

namespace Exclusion

/-- An entry that is a star, without the blanks around it and its port. -/
inductive IsStar : List Char → Prop
  | plain {before after : List Char} (hbefore : before.all Text.isBlank = true)
      (hafter : after.all Text.isBlank = true) : IsStar (before ++ ['*'] ++ after)
  | withPort {before gap port after : List Char} {n : Nat}
      (hbefore : before.all Text.isBlank = true) (hgap : gap.all Text.isBlank = true)
      (hport : Text.IsNumeral n port) (hn : n ≤ 65535) (hafter : after.all Text.isBlank = true) :
      IsStar (before ++ ('*' :: gap ++ ':' :: port) ++ after)

theorem IsStar.ofEntry_eq {entry : List Char} (h : IsStar entry) :
    ofEntry? entry = some (.domain ['*']) := by
  have hstar : ∀ c ∈ ['*'], Text.isBlank c = false := by
    rintro c hc
    rw [List.mem_singleton.mp hc]
    rfl
  cases h with
  | plain hbefore hafter =>
    rw [List.all_eq_true] at hbefore hafter
    unfold ofEntry?
    rw [Text.trim_padded hbefore hafter hstar]
    rfl
  | @withPort before gap port after n hbefore hgap hport hn hafter =>
    rw [List.all_eq_true] at hbefore hgap hafter
    have hdigit {c : Char} (hc : c ∈ port) : Text.isBlank c = false ∧ c ≠ ':' := by
      rcases hport.mem_cases hc with rfl | hc
      · decide
      · have hhost := isHostChar_of_isDigit hc
        exact ⟨(isBlank_of_isEntryChar (.inl hhost)).1, ne_of_isHostChar hhost rfl⟩
    have hlast : ∀ c, ('*' :: gap ++ ':' :: port).getLast? = some c → Text.isBlank c = false := by
      intro c hc
      rw [List.getLast?_append_cons, List.getLast?_cons] at hc
      cases hp : port.getLast? with
      | none =>
        rw [hp] at hc
        cases hc
        rfl
      | some d =>
        rw [hp] at hc
        cases hc
        exact (hdigit (List.mem_of_getLast? hp)).1
    have htrim : Text.trim (before ++ ('*' :: gap ++ ':' :: port) ++ after) =
        '*' :: gap ++ ':' :: port :=
      Text.trim_between hbefore hafter (fun c hc => by cases hc; rfl) hlast
    have hcolon : ('*' :: gap).contains ':' = false := by
      rw [← Bool.not_eq_true, List.contains_iff_mem, List.mem_cons, not_or]
      exact ⟨by decide, fun hm => absurd (hgap _ hm) (by decide)⟩
    have hread : Text.readPort? port = some n := Text.readNat?_eq_some_iff.mpr ⟨hport, hn⟩
    have hbare : withoutPort ('*' :: gap ++ ':' :: port) = '*' :: gap := by
      rw [withoutPort_of_head (by simp),
        Text.splitLast_eq_some_iff.mpr ⟨rfl, fun hm => (hdigit hm).2 rfl⟩]
      simp only [hcolon, hread, Option.isSome_some, Bool.not_false, Bool.and_true, if_true]
    have hgapTrim : Text.trim ([] ++ ['*'] ++ gap) = ['*'] :=
      Text.trim_padded (by simp) hgap hstar
    unfold ofEntry?
    rw [htrim, hbare, show '*' :: gap = [] ++ ['*'] ++ gap from rfl, hgapTrim]
    rfl

/-- A host that ends in a star, after something else than a point. -/
def EndsInStar (host : List Char) : Prop := ∃ before c, host = before ++ [c, '*'] ∧ c ≠ '.'

theorem endsInStar_concat_iff {front : List Char} {d : Char} : EndsInStar (front ++ [d]) ↔
    d = '*' ∧ front ≠ [] ∧ front.getLast? ≠ some '.' := by
  constructor
  · rintro ⟨before, c, h, hc⟩
    rw [List.append_cons before c] at h
    obtain ⟨rfl, hd⟩ := List.append_inj' h rfl
    exact ⟨List.singleton_inj.mp hd, by simp, by simpa using hc⟩
  · rintro ⟨rfl, hne, hlast⟩
    obtain ⟨before, c, rfl⟩ := (List.eq_nil_or_concat' front).resolve_left hne
    exact ⟨before, c, by simp, by simpa using hlast⟩

theorem eqIgnoringCase_star_iff {cs : List Char} :
    Text.eqIgnoringCase ['*'] cs = true ↔ cs = ['*'] := by
  rw [Text.eqIgnoringCase_iff]
  constructor
  · intro h
    obtain ⟨c, rfl, hlower⟩ := List.map_eq_singleton_iff.mp h.symm
    exact congrArg (fun c => [c]) ((Text.toLower_eq_iff (by decide)).mp hlower)
  · rintro rfl
    rfl

/-- The star stands for every host that does not end in one itself. -/
theorem domainCovers_star_iff {host : List Char} :
    domainCovers ['*'] host = true ↔ ¬EndsInStar host := by
  rcases List.eq_nil_or_concat' host with rfl | ⟨front, d, rfl⟩
  · exact iff_of_true rfl (by rintro ⟨before, c, h, -⟩; simp at h)
  have hlength : (front ++ [d]).length - ['*'].length = front.length := by simp
  have hbelow : Text.eqIgnoringCase [d] ['*'] = true ↔ d = '*' := by
    rw [Text.eqIgnoringCase_iff, eq_comm, ← Text.eqIgnoringCase_iff, eqIgnoringCase_star_iff,
      List.singleton_inj]
  have hcovers : domainCovers ['*'] (front ++ [d]) = true ↔
      (d = '*' → front = [] ∨ front.getLast? = some '.') := by
    simp only [domainCovers, hlength, List.take_left, List.drop_left, List.head?_cons,
      Option.some_beq_some, show ('*' == '.') = false from rfl, Bool.false_and, Bool.false_or,
      Bool.false_eq_true, if_false]
    split_ifs with hall hlast
    · have hfront : front = [] := by
        simpa using congrArg List.length (eqIgnoringCase_star_iff.mp hall)
      simp [hfront]
    · have hfront : front ≠ [] := by
        rintro rfl
        exact hall (eqIgnoringCase_star_iff.mpr (by rw [hbelow.mp hlast]; rfl))
      simp [hbelow.mp hlast, hfront]
    · simp [mt hbelow.mpr hlast]
  rw [hcovers, endsInStar_concat_iff]
  tauto

theorem IsStar.covers_iff {entry host : List Char} (h : IsStar entry) :
    (∃ x ∈ ofEntry? entry, Exclusion.covers host x = true) ↔
      IpAddress.parse? host = none ∧ ¬EndsInStar host := by
  simp only [h.ofEntry_eq, Option.mem_some, exists_eq_left', ← domainCovers_star_iff]
  cases hparse : IpAddress.parse? host with
  | none => simp only [covers, hparse, true_and]
  | some address => simp only [covers, hparse, reduceCtorEq, false_and, Bool.false_eq_true]

theorem any_covers_intercalate {entries : List (List Char)} {host : List Char}
    (hentries : ∀ e ∈ entries, ',' ∉ e) (hne : entries ≠ []) :
    (ofList ([','].intercalate entries)).any (Exclusion.covers host) = true ↔
      ∃ e ∈ entries, ∃ x ∈ ofEntry? e, Exclusion.covers host x = true := by
  rw [ofList_intercalate hentries hne, List.any_eq_true]
  simp only [List.mem_filterMap]
  constructor
  · rintro ⟨x, ⟨e, he, hx⟩, hcovers⟩
    exact ⟨e, he, x, hx, hcovers⟩
  · rintro ⟨e, he, x, hx, hcovers⟩
    exact ⟨x, ⟨e, he, hx⟩, hcovers⟩

end Exclusion

/-- The host of a target that is compared with the exclusions: that of its URI. -/
def Address.comparedHost (a : Address) : List Char :=
  Proxy.bareHost (Authority.host ⟨Uri.authorityPart a.displayChars⟩)

namespace Proxy

open Exclusion

/-- Of a list with a star in it, some entry covers a host exactly if the star does, or another
entry. -/
theorem any_covers_starred {list : List Char} {entries : List (List Char)} {host : List Char}
    (hlist : list = [','].intercalate entries) (hentries : ∀ e ∈ entries, ',' ∉ e)
    (hstar : ∃ e ∈ entries, IsStar e) : (ofList list).any (Exclusion.covers host) = true ↔
      (IpAddress.parse? host = none ∧ ¬EndsInStar host) ∨
      ∃ e ∈ entries, ¬IsStar e ∧ ∃ x ∈ ofEntry? e, Exclusion.covers host x = true := by
  obtain ⟨star, hmem, hs⟩ := hstar
  rw [hlist, any_covers_intercalate hentries (List.ne_nil_of_mem hmem)]
  constructor
  · rintro ⟨e, he, hany⟩
    by_cases hs : IsStar e
    · exact .inl (hs.covers_iff.mp hany)
    · exact .inr ⟨e, he, hs, hany⟩
  · rintro (h | ⟨e, he, -, hany⟩)
    · exact ⟨star, hmem, hs.covers_iff.mpr h⟩
    · exact ⟨e, he, hany⟩

/-- **What a star in the list does.** For every valid proxy that the environment names, every target
whose URI is accepted, and every list of exclusions of which some entry is a star, the target is
reached directly exactly if it is a loopback, if its host is a name that does not end in a star, or
if another entry covers it, and through the proxy otherwise. So the star decides for names, and
never for addresses. -/
theorem resolve_starred {env : Environment} {value : String} {proxy : Proxy} {target : Address}
    {uri : Uri} {entries : List (List Char)} (hvalue : firstSet env proxyVariables = some value)
    (hproxy : parse value = .ok proxy) (hvalid : proxy.IsValid)
    (huri : Uri.parse ("https://".toList ++ target.displayChars) = .ok uri)
    (hlist : ((firstSet env exclusionVariables).getD "").toList = [','].intercalate entries)
    (hentries : ∀ e ∈ entries, ',' ∉ e) (hstar : ∃ e ∈ entries, IsStar e) :
    (resolve target env = .ok none ∨ resolve target env = .ok (some proxy)) ∧
    (resolve target env = .ok none ↔ isLoopback target.host.toList = true ∨
      (IpAddress.parse? target.comparedHost = none ∧ ¬EndsInStar target.comparedHost) ∨
      ∃ e ∈ entries, ¬IsStar e ∧
        ∃ x ∈ ofEntry? e, Exclusion.covers target.comparedHost x = true) := by
  by_cases hloop : isLoopback target.host.toList = true
  · simp only [resolve, hvalue, hloop, if_true, true_or, and_self]
  obtain ⟨-, -, -, -, rfl⟩ := (Uri.parse_eq_ok_iff .https).mp huri
  rw [resolve_eq hvalue (Bool.not_eq_true _ ▸ hloop) hproxy huri, intercepts_eq hvalid,
    ← Address.comparedHost, or_iff_right hloop, exclusionsOf,
    ← any_covers_starred hlist hentries hstar]
  cases (ofList ((firstSet env exclusionVariables).getD "").toList).any
      (Exclusion.covers target.comparedHost) with
  | false => simp
  | true => simp

/-- A proxy, and a star with a port beside a domain. -/
def starredEnvironment : Environment := fun name =>
  if name = "https_proxy" then some "proxy.lab:3128"
  else if name = "NO_PROXY" then some "example.com, *:443 "
  else none

/-- The star covers a name, and not an address. -/
theorem resolve_starred_address :
    resolve ⟨"router1", 57400⟩ starredEnvironment = .ok none ∧
      resolve ⟨"192.0.2.1", 57400⟩ starredEnvironment =
        .ok (some ⟨"proxy.lab".toList, 3128⟩) := by
  have hvalue : firstSet starredEnvironment proxyVariables = some "proxy.lab:3128" := by
    decide +kernel
  have hproxy : parse "proxy.lab:3128" = .ok ⟨"proxy.lab".toList, 3128⟩ := by decide +kernel
  have hvalid : IsValid ⟨"proxy.lab".toList, 3128⟩ :=
    ⟨⟨some .http, some ⟨"proxy.lab:3128".toList⟩⟩, by decide +kernel⟩
  have hlist : ((firstSet starredEnvironment exclusionVariables).getD "").toList =
      [','].intercalate ["example.com".toList, " *:443 ".toList] := by decide +kernel
  obtain ⟨hport, hle⟩ := Text.readNat?_eq_some_iff.mp
    (show Text.readNat? 65535 ['4', '4', '3'] = some 443 by decide)
  have hstar : IsStar ([' '] ++ ('*' :: [] ++ ':' :: ['4', '4', '3']) ++ [' ']) :=
    .withPort (by decide) (by decide) hport hle (by decide)
  have hresolve (target : Address) (uri : Uri)
      (huri : Uri.parse ("https://".toList ++ target.displayChars) = .ok uri) :=
    resolve_starred hvalue hproxy hvalid huri hlist (by decide) ⟨_, by simp, hstar⟩
  constructor
  · have huri : Uri.parse ("https://".toList ++ Address.displayChars ⟨"router1", 57400⟩) =
        .ok ⟨some .https, some ⟨"router1:57400".toList⟩⟩ := by decide +kernel
    refine (hresolve _ _ huri).2.mpr (.inr (.inl ⟨by decide +kernel, ?_⟩))
    rw [← domainCovers_star_iff]
    decide +kernel
  · have huri : Uri.parse ("https://".toList ++ Address.displayChars ⟨"192.0.2.1", 57400⟩) =
        .ok ⟨some .https, some ⟨"192.0.2.1:57400".toList⟩⟩ := by decide +kernel
    refine (hresolve _ _ huri).1.resolve_left fun hnone => ?_
    rcases (hresolve _ _ huri).2.mp hnone with hloop | ⟨hname, -⟩ | ⟨e, he, hne, hcovers⟩
    · exact absurd hloop (by decide +kernel)
    · exact absurd hname (by decide +kernel)
    · rcases List.mem_pair.mp he with rfl | rfl
      · exact absurd hcovers (by decide +kernel)
      · exact hne hstar

end Proxy

end Telemetry
