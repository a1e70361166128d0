import Mathlib
import Telemetry.Dial
import Telemetry.Proofs.Duration.SpanTexts

/-! The timeout of the settings. A text that can be read gives the exact sum of its spans, and which
texts end the program is told by the parts of their spans (`Config.readsTimeout`). -/

namespace Telemetry

open Telemetry.Span

/-- The text is a single zero, or spans that can be added and have this length in all. -/
def Duration.IsWrittenAs (d : Duration) (cs : List Char) : Prop :=
  (cs = ['0'] ∧ d.total = 0) ∨ ∃ spans, spans ≠ [] ∧ WritesSum spans cs ∧
    (∃ parts, AddsUpIn spans parts) ∧ (d.total : ℚ) = (spans.map Span.length).sum

/-- The text begins with spans that reach the first sum that is too large. -/
def OverrunsIn (cs : List Char) : Prop :=
  ∃ spans written rest, cs = written ++ rest ∧ EndsUnit rest ∧ WritesSum spans written ∧
    Overruns spans

namespace Config

section Timeout

variable (c : Config)

theorem dialTimeout_eq_ok_iff (d : Duration) :
    c.dialTimeout = .ok d ↔ d.IsProper ∧ d.IsWrittenAs (Text.trim c.timeout.toList) := by
  have hzero : Duration.IsProper {} := ⟨by decide, by decide⟩
  rw [dialTimeout, mapError_eq_ok_iff, Duration.parse_eq_ok_iff, Duration.IsWrittenAs, and_or_left]
  refine or_congr ⟨?_, ?_⟩ ⟨?_, ?_⟩
  · rintro ⟨hcs, rfl⟩
    exact ⟨hzero, hcs, rfl⟩
  · rintro ⟨hd, hcs, ht⟩
    exact ⟨hcs, hd.eq_of_total_eq hzero ht⟩
  · rintro ⟨spans, hne, h, hsum⟩
    obtain ⟨hparts, hd, ht⟩ := foldlM_addTo_eq_ok_iff.mp hsum
    exact ⟨hd, spans, hne, h, hparts, ht⟩
  · rintro ⟨hd, spans, hne, h, hparts, ht⟩
    exact ⟨spans, hne, h, foldlM_addTo_eq_ok_iff.mpr ⟨hparts, hd, ht⟩⟩

theorem exists_of_dialTimeout_eq_error {fault : ConfigFault} (h : c.dialTimeout = .error fault) :
    ∃ reason, fault = .timeout c.timeout reason := by
  obtain ⟨reason, -, rfl⟩ := exists_of_mapError_eq_error h
  exact ⟨reason, rfl⟩

theorem dialTimeout_eq_abort_iff : c.dialTimeout = .error (.timeout c.timeout .abort) ↔
    OverrunsIn (Text.trim c.timeout.toList) := by
  have hparse : c.dialTimeout = .error (.timeout c.timeout .abort) ↔
      Duration.parse (Text.trim c.timeout.toList) = .error .abort := by
    rw [dialTimeout]
    cases Duration.parse (Text.trim c.timeout.toList) <;> simp [Except.mapError]
  simp only [hparse, Duration.parse_eq_abort_iff, foldlM_addTo_eq_abort_iff, OverrunsIn]

/-- The timeout is the only setting that may end the program when a dialer is made. -/
theorem ofConfig_aborts_iff (files : Files) :
    (∃ fault, (Dialer.ofConfig files c).1 = .error fault ∧ fault.aborts = true) ↔
      c.dialTimeout = .error (.timeout c.timeout .abort) := by
  rw [Dialer.ofConfig]
  cases htimeout : c.dialTimeout with
  | error fault =>
    obtain ⟨reason, rfl⟩ := c.exists_of_dialTimeout_eq_error htimeout
    constructor
    · rintro ⟨fault, hfault, haborts⟩
      cases hfault
      cases reason <;> first | rfl | cases haborts
    · intro h
      exact ⟨_, rfl, by cases h; rfl⟩
  | ok timeout =>
    refine iff_of_false ?_ nofun
    rintro ⟨fault, hfault, haborts⟩
    simp only at hfault
    split at hfault
    · cases hfault
      cases haborts
    · cases hfault

end Timeout

/-- What comes of a timeout. -/
structure ReadsTimeout (c : Config) : Prop where
  ok_iff : ∀ d, c.dialTimeout = .ok d ↔
    d.IsProper ∧ d.IsWrittenAs (Text.trim c.timeout.toList)
  /-- A text that is refused is named by the fault. -/
  error : ∀ fault, c.dialTimeout = .error fault → ∃ reason, fault = .timeout c.timeout reason
  abort_iff : c.dialTimeout = .error (.timeout c.timeout .abort) ↔
    OverrunsIn (Text.trim c.timeout.toList)
  /-- No other setting ends the program when a dialer is made, and no file. -/
  dialer_aborts_iff : ∀ files, (∃ fault, (Dialer.ofConfig files c).1 = .error fault ∧
    fault.aborts = true) ↔ OverrunsIn (Text.trim c.timeout.toList)

/-- **Timeouts are exact.** Every text of a timeout gives the exact sum of the spans that are written
in it, or is refused with its text, or ends the program; and it ends the program exactly if spans at
its beginning reach 2^64 seconds by a part that is counted in nanoseconds and is no longer than a
second. -/
theorem readsTimeout (c : Config) : c.ReadsTimeout where
  ok_iff := c.dialTimeout_eq_ok_iff
  error _ := c.exists_of_dialTimeout_eq_error
  abort_iff := c.dialTimeout_eq_abort_iff
  dialer_aborts_iff files := (c.ofConfig_aborts_iff files).trans c.dialTimeout_eq_abort_iff

def carryConfig : Config := { timeout := "18446744073709551615s 1000000000ns" }

/-- A second of nanoseconds on top of all the seconds there are. -/
theorem readsTimeout_carry :
    carryConfig.dialTimeout = .error (.timeout carryConfig.timeout .abort) ∧
      OverrunsIn "18446744073709551615s 1000000000ns".toList := by
  have habort : carryConfig.dialTimeout = .error (.timeout carryConfig.timeout .abort) := by
    decide +kernel
  have htrim : Text.trim carryConfig.timeout.toList =
      "18446744073709551615s 1000000000ns".toList := by decide +kernel
  exact ⟨habort, htrim ▸ (readsTimeout carryConfig).abort_iff.mp habort⟩

end Config

end Telemetry
