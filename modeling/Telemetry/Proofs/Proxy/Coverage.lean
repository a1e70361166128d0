import Mathlib
import Telemetry.Proofs.Net.HostUri
import Telemetry.Proofs.Proxy.Entries
import Telemetry.Proofs.Results
import Telemetry.Proxy

/-! Which hosts are reached without a proxy. An entry covers the hosts at or below its name, the
address that it spells, or the addresses of its range, and a target is reached directly exactly if
some entry covers its host (`Proxy.resolve_listed`). -/

namespace Telemetry

/-- The labels of a name, whatever the case of their letters is. -/
def DomainName.lowerLabels (n : DomainName) : List (List Char) :=
  n.labels.map (List.map Char.toLower)

namespace Exclusion

/-- The name of a host is the one of the entry or below it, its address is the one of the entry, or
it starts with the bits of the range. -/
def Entry.covers : Entry → Host → Bool
  | .domain _ n _, .name m => n.lowerLabels.isSuffixOf m.lowerLabels
  | .v4 t _, .v4 u => u.value == t.value
  | .v6 t, .v6 u => u.value == t.value
  | .bracketed t _, .v6 u => u.value == t.value
  | .v4Range t length _, .v4 u => decide (∀ i < length.val, t.value.getMsbD i = u.value.getMsbD i)
  | .v6Range t length, .v6 u => decide (∀ i < length.val, t.value.getMsbD i = u.value.getMsbD i)
  | _, _ => false

section Domain

variable {domain host : List Char}

theorem map_drop_eq {n : Nat} {a b : List Char} (h : host.map Char.toLower = a ++ b)
    (hn : host.length - n = a.length) :
    (host.take (host.length - n)).map Char.toLower = a ∧
      (host.drop (host.length - n)).map Char.toLower = b := by
  rw [List.map_take, List.map_drop, h, hn, List.take_left, List.drop_left]
  exact ⟨rfl, rfl⟩

/-- A domain covers a host that it is, or that ends in a point and the domain. -/
theorem domainCovers_iff (hdot : domain.head? ≠ some '.') (hstar : domain ≠ ['*']) :
    domainCovers domain host = true ↔ host.map Char.toLower = domain.map Char.toLower ∨
      ∃ before, host.map Char.toLower = before ++ '.' :: domain.map Char.toLower := by
  have hcovers : domainCovers domain host = true ↔ Text.eqIgnoringCase domain host = true ∨
      Text.eqIgnoringCase (host.drop (host.length - domain.length)) domain = true ∧
        (host.take (host.length - domain.length)).getLast? = some '.' := by
    have hhead : (domain.head? == some '.') = false := beq_eq_false_iff_ne.mpr hdot
    simp only [domainCovers, hhead, Bool.false_and, Bool.false_or, Bool.false_eq_true, if_false]
    split_ifs with h₁ h₂
    · simp [h₁]
    · simp [h₁, h₂]
    · simp [h₁, h₂, hstar]
  rw [hcovers, Text.eqIgnoringCase_iff, Text.eqIgnoringCase_iff]
  constructor
  · rintro (h | ⟨hdrop, hlast⟩)
    · exact .inl h.symm
    · obtain ⟨before, htake⟩ := List.getLast?_eq_some_iff.mp hlast
      refine .inr ⟨before.map Char.toLower, ?_⟩
      conv_lhs => rw [← List.take_append_drop (host.length - domain.length) host]
      rw [List.map_append, hdrop, htake, List.map_append, List.append_assoc]
      rfl
  · rintro (h | ⟨before, h⟩)
    · exact .inl h.symm
    · have hlen := congrArg List.length h
      simp only [List.length_map, List.length_append, List.length_cons] at hlen
      obtain ⟨htake, hdrop⟩ := map_drop_eq (a := before ++ ['.']) (by simpa using h)
        (show host.length - domain.length = _ by simp; omega)
      refine .inr ⟨hdrop, ?_⟩
      have hlast := congrArg List.getLast? htake
      rw [List.getLast?_map, List.getLast?_concat, Option.map_eq_some_iff] at hlast
      obtain ⟨c, hc, hlower⟩ := hlast
      rwa [(Text.toLower_eq_iff (by decide)).mp hlower] at hc

/-- A point in front of the domain changes nothing. -/
theorem domainCovers_dot_iff : domainCovers ('.' :: domain) host = true ↔
    host.map Char.toLower = domain.map Char.toLower ∨
      ∃ before, host.map Char.toLower = before ++ '.' :: domain.map Char.toLower := by
  have hcovers : domainCovers ('.' :: domain) host = true ↔
      Text.eqIgnoringCase ('.' :: domain) host = true ∨ Text.eqIgnoringCase domain host = true ∨
        Text.eqIgnoringCase (host.drop (host.length - (domain.length + 1))) ('.' :: domain) =
          true := by
    simp only [domainCovers, List.head?_cons, List.tail_cons, List.length_cons, beq_self_eq_true,
      Bool.true_and, Bool.true_or]
    split_ifs with h₁ h₂ h₃
    · simp [h₁]
    · simp [h₂]
    · simp [h₃]
    · simp [h₁, h₂, h₃]
  simp only [hcovers, Text.eqIgnoringCase_iff]
  constructor
  · rintro (h | h | h)
    · exact .inr ⟨[], h.symm⟩
    · exact .inl h.symm
    · refine .inr ⟨(host.take (host.length - (domain.length + 1))).map Char.toLower, ?_⟩
      conv_lhs => rw [← List.take_append_drop (host.length - (domain.length + 1)) host]
      rw [List.map_append, h]
      rfl
  · rintro (h | ⟨before, h⟩)
    · exact .inr (.inl h.symm)
    · have hlen := congrArg List.length h
      simp only [List.length_map, List.length_append, List.length_cons] at hlen
      obtain ⟨-, hdrop⟩ := map_drop_eq h
        (show host.length - (domain.length + 1) = _ by omega)
      exact .inr (.inr hdrop)

end Domain

theorem sameLeadingBits_iff {w n : Nat} (h : n ≤ w) (a b : BitVec w) :
    sameLeadingBits n a b = true ↔ ∀ i < n, a.getMsbD i = b.getMsbD i := by
  rw [sameLeadingBits, beq_iff_eq]
  constructor
  · intro hab i hi
    have hbit := congrArg (fun v => v.getMsbD (i + (w - n))) hab
    simpa [BitVec.getMsbD_ushiftRight, show i + (w - n) < w by omega] using hbit
  · intro hab
    refine BitVec.eq_of_getMsbD_eq fun i hi => ?_
    rw [BitVec.getMsbD_ushiftRight, BitVec.getMsbD_ushiftRight]
    by_cases hlt : i < w - n
    · simp [hlt]
    · rw [hab (i - (w - n)) (by omega)]

/-- A name is at or below another one if it ends in its labels. -/
theorem domainCovers_domainChars (dotted : Bool) (n m : DomainName) :
    domainCovers (Entry.domainChars dotted n) m.chars = true ↔ n.lowerLabels <:+ m.lowerLabels := by
  have hlower (n : DomainName) : n.chars.map Char.toLower = ['.'].intercalate n.lowerLabels :=
    map_intercalate Char.toLower
  have hdots (n : DomainName) : ∀ l ∈ n.lowerLabels, '.' ∉ l := by
    simp only [DomainName.lowerLabels, List.mem_map, forall_exists_index, and_imp,
      forall_apply_eq_imp_iff₂]
    rintro l hl ⟨c, hc, hlower⟩
    rw [(Text.toLower_eq_iff (by decide)).mp hlower] at hc
    exact absurd (n.isLabelChar_of_mem hl hc) (by decide)
  have hne (n : DomainName) : n.lowerLabels ≠ [] := by simpa [DomainName.lowerLabels] using n.ne_nil
  rw [← intercalate_suffix_iff (hdots m) (hdots n) (hne m) (hne n), ← hlower, ← hlower]
  cases dotted with
  | true => exact domainCovers_dot_iff
  | false => exact domainCovers_iff n.head?_ne_dot n.ne_star

/-- What an entry is read as covers the hosts that the entry covers. -/
theorem covers_exclusion? (e : Entry) (h : Host) :
    e.exclusion?.any (Exclusion.covers h.chars) = e.covers h := by
  have hname (n : DomainName) : IpAddress.parse? n.chars = none :=
    IpAddress.parse?_eq_none (not_mem_of_isHostChar (fun c => n.isHostChar_of_mem) rfl)
      n.ne_octets
  -- Names against names and ranges against addresses have lemmas of their own; all other pairs
  -- are compared by the definitions.
  cases h with
  | name m =>
    cases e with
    | domain dotted n port =>
      rw [Bool.eq_iff_iff]
      simpa [Entry.exclusion?, covers, Host.chars, hname, Entry.covers] using
        domainCovers_domainChars dotted n m
    | _ => simp [Entry.exclusion?, covers, Host.chars, hname, Entry.covers]
  | v4 u =>
    cases e with
    | v4Range t length port =>
      rw [Bool.eq_iff_iff]
      simpa [Entry.exclusion?, covers, Host.chars, IpAddress.parse?_v4, Entry.covers,
        IpNetwork.contains] using
        sameLeadingBits_iff (Nat.le_of_lt_succ length.isLt) t.value u.value
    | _ =>
      simp [Entry.exclusion?, covers, Host.chars, IpAddress.parse?_v4, Entry.covers,
        IpNetwork.contains, Bool.beq_eq_decide_eq]
  | v6 u =>
    cases e with
    | v6Range t length =>
      rw [Bool.eq_iff_iff]
      simpa [Entry.exclusion?, covers, Host.chars, IpAddress.parse?_v6, Entry.covers,
        IpNetwork.contains] using
        sameLeadingBits_iff (Nat.le_of_lt_succ length.isLt) t.value u.value
    | _ =>
      simp [Entry.exclusion?, covers, Host.chars, IpAddress.parse?_v6, Entry.covers,
        IpNetwork.contains, Bool.beq_eq_decide_eq]

end Exclusion

namespace Proxy

open Exclusion

/-- Without the brackets around an address, the host of a URI is the host as it is written. -/
theorem bareHost_uriChars (h : Host) : bareHost h.uriChars = h.chars := by
  cases h.form with
  | plain uri all =>
    rw [uri]
    exact bareHost_of_head (head?_ne_of_isHostChar all rfl)
  | bracketed t =>
    exact bareHost_of_brackets (t.not_mem rfl (by decide)) (t.not_mem rfl (by decide))

/-- The name of the proxy, with its port, is a URI. -/
def IsValid (p : Proxy) : Prop := ∃ u, Uri.parse ("http://".toList ++ p.authorityChars) = .ok u

theorem port_le_of_parse {value : String} {proxy : Proxy} (h : parse value = .ok proxy) :
    proxy.port ≤ 65535 := by
  have hport (a : Authority) : a.port?.getD defaultPort ≤ 65535 := by
    cases hn : a.port? with
    | none => decide
    | some n =>
      rw [Authority.port?] at hn
      split at hn
      · exact Text.le_of_readNat? hn
      · cases hn
  rw [parse, mapError_eq_ok_iff] at h
  simp only [read, bind, Except.bind] at h
  repeat' split at h
  all_goals cases h
  exact hport _

/-- A proxy that is read is valid if its host is a name or an address. -/
theorem isValid_of_parse {value : String} {proxy : Proxy} {host : Host}
    (h : parse value = .ok proxy) (hhost : proxy.host = host.uriChars) : proxy.IsValid := by
  have huri := Uri.parse_host .http host (port_le_of_parse h)
  rw [Host.withPort, ← hhost] at huri
  exact ⟨_, huri⟩

theorem intercepts_eq {proxy : Proxy} (h : proxy.IsValid) (exclusions : List Exclusion)
    (host : List Char) :
    proxy.intercepts exclusions host = !exclusions.any (Exclusion.covers (bareHost host)) := by
  obtain ⟨u, hu⟩ := h
  rw [intercepts, hu]
  rfl

/-- **Which targets are reached without a proxy.** For every valid proxy that the environment names,
every host that is no loopback, and every list of exclusions, with blanks and ports in any of its
entries, the target is reached directly exactly if some entry covers the host, and through the proxy
otherwise. -/
theorem resolve_listed {env : Environment} {value : String} {proxy : Proxy} {target : Address}
    {list : List Listed} (host : Host) (hvalue : firstSet env proxyVariables = some value)
    (hproxy : parse value = .ok proxy) (hvalid : proxy.IsValid)
    (hhost : target.host = String.ofList host.chars)
    (hloop : isLoopback target.host.toList = false)
    (hlist : ((firstSet env exclusionVariables).getD "").toList = listChars list) :
    resolve target env =
      .ok (if ∃ l ∈ list, l.entry.covers host = true then none else some proxy) := by
  have huri : Uri.parse ("https://".toList ++ target.displayChars) =
      .ok ⟨some .https, some ⟨host.withPort target.port.toNat⟩⟩ := by
    rw [Address.displayChars_of_host hhost]
    exact Uri.parse_host .https host (Nat.le_of_lt_succ target.port.toNat_lt)
  have hexclusions : exclusionsOf env = list.filterMap fun l => l.entry.exclusion? := by
    rw [exclusionsOf, hlist, ofList_listChars]
  have hcovers : (exclusionsOf env).any (Exclusion.covers host.chars) =
      list.any fun l => l.entry.covers host := by
    rw [hexclusions, List.any_filterMap]
    refine congrArg list.any (funext fun l => ?_)
    rw [← covers_exclusion?]
    cases l.entry.exclusion? <;> rfl
  rw [resolve_eq hvalue hloop hproxy huri, Authority.host_withPort, intercepts_eq hvalid,
    bareHost_uriChars, hcovers]
  refine congrArg Except.ok ?_
  by_cases h : ∃ l ∈ list, l.entry.covers host = true
  · rw [if_pos h, List.any_eq_true.mpr h]
    rfl
  · rw [if_neg h, Bool.eq_false_iff.mpr (mt List.any_eq_true.mp h)]
    rfl

/-- A proxy, and exclusions with ports and blanks. -/
def siteEnvironment : Environment := fun name =>
  if name = "HTTPS_PROXY" then some "proxy.lab:3128"
  else if name = "no_proxy" then some " .LAB.net:443,,10.0.0.0/8:80 ,\t[2001:DB8:0::2]:57400"
  else none

def proxyLab : DomainName where
  labels := [['p', 'r', 'o', 'x', 'y'], ['l', 'a', 'b']]
  ne_nil := by decide
  all_ne_nil := by decide
  all_isLabelChar := by decide
  length_le := by decide +kernel
  ne_octets t := t.chars_ne_of_mem (c := 'p') (by decide +kernel) (by decide)

def labNet : DomainName where
  labels := [['L', 'A', 'B'], ['n', 'e', 't']]
  ne_nil := by decide
  all_ne_nil := by decide
  all_isLabelChar := by decide
  length_le := by decide +kernel
  ne_octets t := t.chars_ne_of_mem (c := 'L') (by decide +kernel) (by decide)

def xlabNet : DomainName where
  labels := [['x', 'l', 'a', 'b'], ['n', 'e', 't']]
  ne_nil := by decide
  all_ne_nil := by decide
  all_isLabelChar := by decide
  length_le := by decide +kernel
  ne_octets t := t.chars_ne_of_mem (c := 'x') (by decide +kernel) (by decide)

/-- The address `2001:DB8:0::2`. -/
def listedRouter : Ip.V6Text :=
  .gap [⟨['2', '0', '0', '1'], by decide, by decide, by decide⟩,
      ⟨['D', 'B', '8'], by decide, by decide, by decide⟩,
      ⟨['0'], by decide, by decide, by decide⟩]
    ⟨[⟨['2'], by decide, by decide, by decide⟩], none⟩ (by decide)

/-- The address `2001:db8::0.0.0.2`. -/
def targetRouter : Ip.V6Text :=
  .gap [⟨['2', '0', '0', '1'], by decide, by decide, by decide⟩,
      ⟨['d', 'b', '8'], by decide, by decide, by decide⟩]
    ⟨[], some ⟨0, 0, 0, 2⟩⟩ (by decide)

def siteList : List Listed :=
  [⟨[' '], .domain true labNet (some 443), [], by decide, by decide⟩,
    ⟨[], .blank, [], by decide, by decide⟩,
    ⟨[], .v4Range ⟨10, 0, 0, 0⟩ 8 (some 80), [' '], by decide, by decide⟩,
    ⟨['\t'], .bracketed listedRouter (some 57400), [], by decide, by decide⟩]

/-- An address is covered by another spelling of it, and a name only by whole labels. -/
theorem resolve_listed_site :
    resolve ⟨"2001:db8::0.0.0.2", 57400⟩ siteEnvironment = .ok none ∧
      resolve ⟨"xlab.net", 57400⟩ siteEnvironment = .ok (some ⟨"proxy.lab".toList, 3128⟩) := by
  have hvalue : firstSet siteEnvironment proxyVariables = some "proxy.lab:3128" := by
    decide +kernel
  have hproxy : parse "proxy.lab:3128" = .ok ⟨"proxy.lab".toList, 3128⟩ := by decide +kernel
  have hhost : "proxy.lab".toList = (Host.name proxyLab).uriChars := by decide +kernel
  have hvalid := isValid_of_parse hproxy hhost
  have hlist : ((firstSet siteEnvironment exclusionVariables).getD "").toList =
      listChars siteList := by
    decide +kernel
  constructor
  · rw [resolve_listed (.v6 targetRouter) hvalue hproxy hvalid (by decide +kernel)
      (by decide +kernel) hlist, if_pos (by decide +kernel)]
  · rw [resolve_listed (.name xlabNet) hvalue hproxy hvalid (by decide +kernel)
      (by decide +kernel) hlist, if_neg (by decide +kernel)]

end Proxy

end Telemetry
