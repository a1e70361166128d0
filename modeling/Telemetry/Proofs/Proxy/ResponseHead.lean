import Mathlib
import Telemetry.Proofs.Proxy.RequestHead
import Telemetry.Proofs.Text.Parts

/-! The response of a proxy. A tunnel takes the head of the response and nothing behind it, for
every sequence of bytes that a proxy may send, and how it ends follows from where the head ends and
from its first line (`Tunnel.accept_consumesHead`). -/

namespace Telemetry.Tunnel

open Text

/-! ## Where the head ends -/

/-- The response starts with a head of this length: two line ends end it and no shorter part. -/
structure IsHead (response : Bytes) (length : Nat) : Prop where
  le_length : length ≤ response.length
  ended : headEnd <:+ response.take length
  first : ∀ n < length, ¬headEnd <:+ response.take n

theorem reversedEnd_isPrefixOf_iff {head : Bytes} :
    reversedEnd.isPrefixOf head.reverse = true ↔ headEnd <:+ head := by
  rw [List.isPrefixOf_iff_prefix, ← @List.reverse_prefix _ headEnd head]
  rfl

/-- Of the places where a head may end, the first one ends it. -/
theorem exists_isHead {response : Bytes} {n : Nat} (h : headEnd <:+ response.take n) :
    ∃ length ≤ n, IsHead response length := by
  induction n using Nat.strongRecOn with
  | ind n ih =>
    by_cases hfirst : ∀ m < n, ¬headEnd <:+ response.take m
    · refine ⟨n, Nat.le_refl n, ?_, h, hfirst⟩
      refine Nat.le_of_not_lt fun hlt => hfirst response.length hlt ?_
      rwa [List.take_length, ← List.take_of_length_le hlt.le]
    · simp only [Classical.not_forall, Classical.not_not] at hfirst
      obtain ⟨m, hm, hended⟩ := hfirst
      obtain ⟨length, hle, hhead⟩ := ih m hm hended
      exact ⟨length, hle.trans hm.le, hhead⟩

/-- One more byte is read as long as the bytes so far are no head and not too many. -/
theorem readHeadFrom_cons {read bs : Bytes} {b : UInt8} (h : ¬headEnd <:+ read)
    (hlt : read.length < maxHead) :
    readHeadFrom read.reverse read.length (b :: bs) =
      readHeadFrom (read ++ [b]).reverse (read ++ [b]).length bs := by
  rw [readHeadFrom, if_neg (mt reversedEnd_isPrefixOf_iff.mp h), if_neg (Nat.not_le.mpr hlt)]
  simp

/-- Reading stops right behind the head. By induction on the bytes that are left, with the bytes
that have been read in front of them. -/
theorem readHeadFrom_of_isHead {read bs : Bytes} {length : Nat}
    (h : IsHead (read ++ bs) length) (hread : read.length ≤ length) (hmax : length ≤ maxHead) :
    readHeadFrom read.reverse read.length bs =
      .ok ((read ++ bs).take length, (read ++ bs).drop length) := by
  induction bs generalizing read with
  | nil =>
    have hlength : length = read.length := Nat.le_antisymm (by simpa using h.le_length) hread
    have hended := h.ended
    rw [hlength, List.take_left] at hended
    rw [readHeadFrom, if_pos (reversedEnd_isPrefixOf_iff.mpr hended), hlength]
    simp
  | cons b bs ih =>
    rcases hread.eq_or_lt with hlength | hlt
    · have hended := h.ended
      rw [← hlength, List.take_left] at hended
      rw [readHeadFrom, if_pos (reversedEnd_isPrefixOf_iff.mpr hended), ← hlength]
      simp
    · have hnot := h.first read.length hlt
      rw [List.take_left] at hnot
      rw [readHeadFrom_cons hnot (hlt.trans_le hmax)]
      rw [List.append_cons read b bs] at h ⊢
      refine ih h ?_
      rw [List.length_append, List.length_singleton]
      exact hlt

/-- Without a head among the bytes that may be one, reading goes on to the limit, or to the end of
the response before it. -/
theorem readHeadFrom_of_not_ended {read bs : Bytes} (hread : read.length ≤ maxHead)
    (h : ∀ n ≤ maxHead, ¬headEnd <:+ (read ++ bs).take n) :
    readHeadFrom read.reverse read.length bs =
      .error (if maxHead ≤ (read ++ bs).length then .headTooLarge else .unexpectedEnd) := by
  induction bs generalizing read with
  | nil =>
    have hnot := h read.length hread
    rw [List.take_left] at hnot
    rw [readHeadFrom, if_neg (mt reversedEnd_isPrefixOf_iff.mp hnot), List.append_nil]
    split <;> rfl
  | cons b bs ih =>
    have hnot := h read.length hread
    rw [List.take_left] at hnot
    rcases hread.eq_or_lt with hlength | hlt
    · rw [readHeadFrom, if_neg (mt reversedEnd_isPrefixOf_iff.mp hnot), if_pos hlength.ge,
        if_pos (hlength.ge.trans (by simp))]
    · rw [readHeadFrom_cons hnot hlt]
      rw [List.append_cons read b bs] at h ⊢
      refine ih ?_ h
      rw [List.length_append, List.length_singleton]
      exact hlt

theorem readHead_of_isHead {response : Bytes} {length : Nat} (h : IsHead response length)
    (hmax : length ≤ maxHead) :
    readHead response = .ok (response.take length, response.drop length) :=
  @readHeadFrom_of_isHead [] response length h (Nat.zero_le _) hmax

theorem readHead_of_no_head {response : Bytes} (h : ∀ length ≤ maxHead, ¬IsHead response length) :
    readHead response =
      .error (if maxHead ≤ response.length then .headTooLarge else .unexpectedEnd) := by
  refine @readHeadFrom_of_not_ended [] response (Nat.zero_le _) fun n hn hended => ?_
  obtain ⟨length, hle, hhead⟩ := exists_isHead hended
  exact h length (hle.trans hn) hhead

/-! ## What the first line says -/

/-- The bytes before the first line feed. -/
def firstLine (response : Bytes) : Bytes := response.takeWhile (· != 10)

/-- The first line is a text whose first word is a version of the protocol, and whose second word is
the status, a number of sixteen bits. Words are what blanks keep apart. -/
def NamesStatus (response : Bytes) (status : Nat) : Prop :=
  ∃ before version between code after : List Char,
    utf8 (String.ofList (before ++ version ++ between ++ code ++ after)) = firstLine response ∧
      (∀ c ∈ before, isBlank c = true) ∧ IsWord version ∧ "HTTP/1.".toList <+: version ∧
      between ≠ [] ∧ (∀ c ∈ between, isBlank c = true) ∧ IsWord code ∧ EndsWord after ∧
      readNat? 65535 code = some status

theorem firstLine_take {response : Bytes} {length : Nat} (h : IsHead response length) :
    firstLine (response.take length) = firstLine response := by
  have hmem : 10 ∈ response.take length := h.ended.subset (by decide)
  conv_rhs => rw [← List.take_append_drop length response]
  rw [firstLine, firstLine, List.takeWhile_append, if_neg]
  intro hlength
  have hall := List.takeWhile_eq_self_iff.mp
    ((List.takeWhile_prefix (p := (· != 10)) (l := response.take length)).eq_of_length hlength)
  exact absurd (hall 10 hmem) (by decide)

theorem status?_eq_some_iff {head : Bytes} {status : Nat} :
    status? head = some status ↔ NamesStatus head status := by
  simp only [status?, bind, Option.bind_eq_some_iff]
  constructor
  · rintro ⟨line, hline, h⟩
    split at h
    · rename_i version code rest hwords
      obtain ⟨before, tail, hl, hbefore, hversion, htail, hrest⟩ := words_eq_cons_iff.mp hwords
      obtain ⟨between, after, rfl, hbetween, hcode, hafter, -⟩ := words_eq_cons_iff.mp hrest
      split at h
      · rename_i hprefix
        refine ⟨before, version, between, code, after, ?_, hbefore, hversion,
          List.isPrefixOf_iff_prefix.mp hprefix, ?_, hbetween, hcode, hafter, h⟩
        · rw [List.append_assoc, List.append_assoc, ← List.append_assoc between, ← hl,
            String.ofList_toList]
          exact utf8_of_ofUtf8? hline
        · rintro rfl
          obtain ⟨c, code, rfl⟩ := List.exists_cons_of_ne_nil hcode.ne_nil
          exact absurd (htail c rfl) (by simp [hcode.noBlank c List.mem_cons_self])
      · cases h
    · cases h
  · rintro ⟨before, version, between, code, after, hline, hbefore, hversion, hprefix, hne, hbetween,
      hcode, hafter, hread⟩
    have hline : ofUtf8? (head.takeWhile (· != 10)) = some _ := hline ▸ ofUtf8?_utf8 _
    refine ⟨_, hline, ?_⟩
    · have htail : EndsWord (between ++ code ++ after) := by
        obtain ⟨c, between, rfl⟩ := List.exists_cons_of_ne_nil hne
        rintro d ⟨⟩
        exact hbetween c List.mem_cons_self
      have hwords : words (before ++ version ++ between ++ code ++ after) =
          version :: code :: words after := by
        refine words_eq_cons_iff.mpr ⟨before, between ++ code ++ after, by simp, hbefore, hversion,
          htail, ?_⟩
        exact words_eq_cons_iff.mpr ⟨between, after, rfl, hbetween, hcode, hafter, rfl⟩
      rw [String.toList_ofList, hwords]
      exact (if_pos (List.isPrefixOf_iff_prefix.mpr hprefix)).trans hread

theorem namesStatus_take_iff {response : Bytes} {length status : Nat}
    (h : IsHead response length) :
    NamesStatus (response.take length) status ↔ NamesStatus response status := by
  rw [NamesStatus, NamesStatus, firstLine_take h]

/-! ## How a tunnel is opened -/

section Accept

variable {proxy : Proxy} {target : Address} {response : Bytes} {length : Nat}

theorem accept_of_status {status : Nat} (h : IsHead response length) (hmax : length ≤ maxHead)
    (hs : NamesStatus response status) : accept proxy target response =
      if status = openStatus then .ok (response.drop length)
      else .error (.refused proxy.authority target.display status) := by
  rw [← namesStatus_take_iff h, ← status?_eq_some_iff] at hs
  rw [accept, readHead_of_isHead h hmax]
  simp only [bind, Except.bind, hs]
  rfl

theorem accept_of_no_status (h : IsHead response length) (hmax : length ≤ maxHead)
    (hs : ∀ status, ¬NamesStatus response status) :
    accept proxy target response = .error .malformed := by
  have hnone : status? (response.take length) = none := by
    rw [Option.eq_none_iff_forall_ne_some]
    intro status hstatus
    exact hs status ((namesStatus_take_iff h).mp (status?_eq_some_iff.mp hstatus))
  rw [accept, readHead_of_isHead h hmax]
  simp only [bind, Except.bind, hnone]

theorem accept_of_no_head (h : ∀ length ≤ maxHead, ¬IsHead response length) :
    accept proxy target response =
      .error (if maxHead ≤ response.length then .headTooLarge else .unexpectedEnd) := by
  rw [accept, readHead_of_no_head h]
  rfl

/-- A tunnel is opened by a head that is short enough and names the status for it. -/
theorem accept_eq_ok_iff {rest : Bytes} : accept proxy target response = .ok rest ↔
    ∃ length, IsHead response length ∧ length ≤ maxHead ∧ NamesStatus response openStatus ∧
      rest = response.drop length := by
  constructor
  · intro hok
    by_cases hhead : ∃ length ≤ maxHead, IsHead response length
    · obtain ⟨length, hmax, h⟩ := hhead
      by_cases hs : ∃ status, NamesStatus response status
      · obtain ⟨status, hs⟩ := hs
        rw [accept_of_status h hmax hs] at hok
        split at hok
        · rename_i hopen
          cases hok
          exact ⟨length, h, hmax, hopen ▸ hs, rfl⟩
        · cases hok
      · rw [accept_of_no_status h hmax (not_exists.mp hs)] at hok
        cases hok
    · rw [accept_of_no_head (by simpa using hhead)] at hok
      cases hok
  · rintro ⟨length, h, hmax, hs, rfl⟩
    rw [accept_of_status h hmax hs, if_pos rfl]

end Accept

/-- The tunnel is not opened because of a fault of some kind. -/
def FailsBy (proxy : Proxy) (target : Address) (response : Bytes) (kind : TunnelFault.Kind)
    (fault : TunnelFault) : Prop :=
  accept proxy target response = .error fault ∧ fault.kind = kind

/-- How the opening of a tunnel ends, by the response of the proxy. -/
structure ConsumesHead (proxy : Proxy) (target : Address) (response : Bytes) : Prop where
  /-- What can be read through the tunnel is all that stands behind the head. -/
  opened : ∀ rest, accept proxy target response = .ok rest ↔
    ∃ length, IsHead response length ∧ length ≤ maxHead ∧ NamesStatus response openStatus ∧
      rest = response.drop length
  refused : ∀ length status, IsHead response length → length ≤ maxHead →
    NamesStatus response status → status ≠ openStatus →
    FailsBy proxy target response .other (.refused proxy.authority target.display status)
  malformed : ∀ length, IsHead response length → length ≤ maxHead →
    (∀ status, ¬NamesStatus response status) →
    FailsBy proxy target response .invalidData .malformed
  headTooLarge : (∀ length ≤ maxHead, ¬IsHead response length) → maxHead ≤ response.length →
    FailsBy proxy target response .invalidData .headTooLarge
  unexpectedEnd : (∀ length ≤ maxHead, ¬IsHead response length) → response.length < maxHead →
    FailsBy proxy target response .unexpectedEnd .unexpectedEnd

/-- **A tunnel consumes exactly the head of the response.** Whatever a proxy sends, the tunnel is
opened if and only if a head of at most `maxHead` bytes names the status for it, and then all bytes
behind the head, and no others, are left to be read. Any other response leads to the fault that
tells what is wrong with it. -/
theorem accept_consumesHead (proxy : Proxy) (target : Address) (response : Bytes) :
    ConsumesHead proxy target response where
  opened := fun _ => accept_eq_ok_iff
  refused := by
    intro length status h hmax hs hne
    exact ⟨by rw [accept_of_status h hmax hs, if_neg hne], rfl⟩
  malformed := by
    intro length h hmax hs
    exact ⟨accept_of_no_status h hmax hs, rfl⟩
  headTooLarge := by
    intro h hlength
    exact ⟨by rw [accept_of_no_head h, if_pos hlength], rfl⟩
  unexpectedEnd := by
    intro h hlength
    exact ⟨by rw [accept_of_no_head h, if_neg (Nat.not_le.mpr hlength)], rfl⟩

end Telemetry.Tunnel
