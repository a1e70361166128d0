import Telemetry.Dial
import Telemetry.Proofs.Results

/-! What is known of a dialer that has been made, and of a connection that has been opened: the
dialer holds its settings and their transport (`Dialer.ofConfig_eq_ok_iff`), and the connection
follows from the dialer and a target to which a channel has been set up
(`Dialer.exists_of_dial_eq_ok`). Over TLS the host of the target is the name of a server. -/

namespace Telemetry

variable {files : Files} {config : Config} {d : Dialer} {net : Network} {c : Connection}

namespace Dialer

theorem ofConfig_eq_ok_iff : (ofConfig files config).1 = .ok d ↔
    ∃ timeout transport warnings, config.dialTimeout = .ok timeout ∧
      (resolveTransport files config).1 = .ok (transport, warnings) ∧
      d = ⟨config, timeout, transport, warnings⟩ := by
  rw [ofConfig]
  constructor
  · intro h
    split at h
    case h_1 => cases h
    case h_2 timeout htimeout =>
      dsimp only at h
      split at h
      case h_1 => cases h
      case h_2 transport warnings htransport =>
        cases h
        exact ⟨timeout, transport, warnings, htimeout, htransport, rfl⟩
  · rintro ⟨timeout, transport, warnings, htimeout, htransport, rfl⟩
    simp only [htimeout, htransport]

theorem config_of_ofConfig (h : (ofConfig files config).1 = .ok d) : d.config = config := by
  obtain ⟨_, _, _, -, -, rfl⟩ := ofConfig_eq_ok_iff.mp h
  rfl

theorem of_dialTarget_eq_ok {target : Address} {proxy : Option Proxy}
    (h : (d.dialTarget net target proxy).result = .ok c) :
    c = d.connection target ∧ (d.establish net target proxy).1 = .ok () := by
  simp only [dialTarget] at h
  split at h
  case h_1 => cases h
  case h_2 =>
    split at h <;> cases h
    rename_i hestablish
    exact ⟨rfl, congrArg Prod.fst hestablish⟩

theorem exists_of_dial_eq_ok {env : Environment} {address : String}
    (h : (d.dial env net address).result = .ok c) : ∃ target proxy,
      c = d.connection target ∧ (d.establish net target proxy).1 = .ok () := by
  rw [dial] at h
  split at h
  case h_1 => cases h
  case h_2 target _ =>
    split at h
    case h_1 => cases h
    case h_2 proxy _ => exact ⟨target, proxy, of_dialTarget_eq_ok h⟩

end Dialer

/-! ## Hosts over TLS -/

theorem OpenStream.isServerName_of_setUp {s : OpenStream} {transport : Transport} {host : String}
    (h : s.setUp transport host = .ok ()) (htls : transport.isTls = true) :
    isServerName host = true := by
  simp only [setUp, htls, Bool.true_and] at h
  split at h
  case h_1 => cases h
  case h_2 =>
    split at h
    · cases h
    · rename_i hname
      simpa using hname

namespace Dialer

theorem isServerName_of_establish {target : Address} {proxy : Option Proxy}
    (h : (d.establish net target proxy).1 = .ok ()) (htls : d.transport.isTls = true) :
    isServerName target.host = true := by
  cases proxy with
  | none =>
    obtain ⟨s, -, hs⟩ := exists_of_bind_eq_ok h
    exact OpenStream.isServerName_of_setUp hs htls
  | some proxy =>
    simp only [establish] at h
    split at h
    case h_1 => cases h
    case h_2 =>
      obtain ⟨s, -, hs⟩ := exists_of_bind_eq_ok h
      exact OpenStream.isServerName_of_setUp hs htls

/-- A connection over TLS leads to a host that is the name of a server. -/
theorem isServerName_of_dial_eq_ok {env : Environment} {address : String}
    (h : (d.dial env net address).result = .ok c) (htls : c.isTls = true) :
    isServerName c.address.host = true := by
  obtain ⟨target, proxy, rfl, hestablish⟩ := exists_of_dial_eq_ok h
  exact isServerName_of_establish hestablish htls

example : isServerName "user@router1" = false := by decide

end Dialer

end Telemetry
