import Mathlib
import Telemetry.Proofs.Dial.Opening

/-! Attempts and their timeout. Every step of an attempt either is late or leads to the same with
more time, of which it leaves as much more. So what comes of an attempt that is over within its
timeout is what comes of it with every longer one (`Dialer.dial_of_timeout_le`). -/

namespace Telemetry

theorem Timed.within_add {α : Type} {t : Timed α} {left : Nat} (more : Nat)
    (h : t.within left ≠ .error .late) :
    t.within (left + more) = (t.within left).map fun (value, rest) => (value, rest + more) := by
  cases t with
  | never => exact absurd rfl h
  | after time value =>
    simp only [within] at h ⊢
    split at h
    · rename_i hle
      rw [if_pos hle, if_pos (Nat.le_add_right_of_le hle), Except.map, Nat.sub_add_comm hle]
    · exact absurd rfl h

/-- What has been late does not go on. -/
theorem ne_late_of_bind {α β : Type} {x : Except ChannelFault α}
    {f : α → Except ChannelFault β} (h : x.bind f ≠ .error .late) : x ≠ .error .late := by
  rintro rfl
  exact h rfl

variable {more : Nat}

namespace OpenStream

/-- The stream with more time left. -/
def withMore (s : OpenStream) (more : Nat) : OpenStream := { s with left := s.left + more }

variable {s : OpenStream} {transport : Transport} {host : String} {proxy : Proxy}
  {target : Address}

theorem tunnel_withMore (h : s.tunnel proxy target ≠ .error .late) :
    (s.withMore more).tunnel proxy target = (s.tunnel proxy target).map (·.withMore more) := by
  have hstep := Timed.within_add more (ne_late_of_bind h)
  simp only [tunnel, withMore, bind, hstep]
  cases (s.peer.tunnelResponse (Tunnel.request target)).within s.left with
  | error fault => rfl
  | ok step =>
    obtain ⟨result | response, rest⟩ := step
    · rfl
    · simp only [Except.map, Except.bind]
      cases Tunnel.accept proxy target response.bytes <;> rfl

theorem setUp_withMore (h : s.setUp transport host ≠ .error .late) :
    (s.withMore more).setUp transport host = s.setUp transport host := by
  simp only [setUp, withMore] at h ⊢
  split
  case h_1 => rfl
  case h_2 hdelay =>
    rw [hdelay] at h
    dsimp only at h
    split
    · rfl
    · rename_i hname
      rw [if_neg hname] at h
      rw [Timed.within_add more (ne_late_of_bind h)]
      cases (s.peer.channel transport host s.unread).within s.left <;> rfl

/-- Whatever has opened the stream, a channel is set up over it with more time as without. -/
theorem bind_setUp_withMore {x : Except ChannelFault OpenStream}
    (h : x.bind (·.setUp transport host) ≠ .error .late) :
    (x.map (·.withMore more)).bind (·.setUp transport host) = x.bind (·.setUp transport host) := by
  cases x with
  | error fault => rfl
  | ok s => exact setUp_withMore h

end OpenStream

theorem Network.open_add {net : Network} {host : String} {port left : Nat}
    (h : net.open host port left ≠ .error .late) :
    net.open host port (left + more) = (net.open host port left).map (·.withMore more) := by
  have hstep := Timed.within_add more (ne_late_of_bind h)
  simp only [Network.open, bind, hstep]
  cases (net.connect host port).within left with
  | error fault => rfl
  | ok step =>
    obtain ⟨result | peer, rest⟩ := step
    · rfl
    · rfl

namespace Dialer

/-- The dialer with another timeout. -/
def withTimeout (d : Dialer) (timeout : Duration) : Dialer := { d with timeout := timeout }

variable {d : Dialer} {timeout : Duration} {net : Network} {env : Environment}

theorem establish_of_timeout_le {target : Address} {proxy : Option Proxy}
    (hle : d.timeout.total ≤ timeout.total)
    (h : (d.establish net target proxy).1 ≠ .error .late) :
    (d.withTimeout timeout).establish net target proxy = d.establish net target proxy := by
  obtain ⟨more, hmore⟩ := Nat.exists_eq_add_of_le hle
  cases proxy with
  | none =>
    simp only [establish, withTimeout, hmore] at h ⊢
    rw [Network.open_add (ne_late_of_bind h)]
    exact congrArg (·, []) (OpenStream.bind_setUp_withMore h)
  | some proxy =>
    have hopen : net.open (String.ofList proxy.host) proxy.port d.timeout.total ≠ .error .late := by
      intro hlate
      simp only [establish, hlate] at h
      exact h rfl
    simp only [establish, withTimeout, hmore, Network.open_add hopen] at h ⊢
    cases hstream : net.open (String.ofList proxy.host) proxy.port d.timeout.total with
    | error fault => rfl
    | ok s =>
      simp only [hstream, Except.map] at h ⊢
      rw [OpenStream.tunnel_withMore (ne_late_of_bind h)]
      exact congrArg (·, [Tunnel.request target]) (OpenStream.bind_setUp_withMore h)

theorem dialTarget_of_timeout_le {target : Address} {proxy : Option Proxy}
    (hle : d.timeout.total ≤ timeout.total)
    (h : (d.dialTarget net target proxy).result ≠ .error (.timeout target.display d.timeout)) :
    ((d.withTimeout timeout).dialTarget net target proxy).result =
        (d.dialTarget net target proxy).result ∧
      ((d.withTimeout timeout).dialTarget net target proxy).tunnelRequests =
        (d.dialTarget net target proxy).tunnelRequests := by
  have hlonger : (d.establish net target proxy).1 ≠ .error .late →
      (d.withTimeout timeout).establish net target proxy = d.establish net target proxy :=
    establish_of_timeout_le hle
  simp only [dialTarget] at h ⊢
  cases huri : Uri.parse ("http://".toList ++ target.displayChars) with
  | error fault => exact ⟨rfl, rfl⟩
  | ok uri =>
    rw [huri] at h
    generalize d.establish net target proxy = established at h hlonger ⊢
    obtain ⟨outcome, requests⟩ := established
    have hended : outcome ≠ .error .late := by
      rintro rfl
      exact h rfl
    rw [hlonger hended]
    rcases outcome with (_ | _) | _
    case error.failed => exact ⟨rfl, rfl⟩
    case error.late => exact absurd rfl hended
    case ok => exact ⟨rfl, rfl⟩

/-- **A longer timeout changes nothing of an attempt that ends in time.** It makes the same
connection, or fails for the same reason, and the proxy is sent the same. -/
theorem dial_of_timeout_le {address : String} (hle : d.timeout.total ≤ timeout.total)
    (h : ∀ name, (d.dial env net address).result ≠ .error (.timeout name d.timeout)) :
    ((d.withTimeout timeout).dial env net address).result = (d.dial env net address).result ∧
      ((d.withTimeout timeout).dial env net address).tunnelRequests =
        (d.dial env net address).tunnelRequests := by
  have hproxy : ∀ target, (d.withTimeout timeout).proxyFor env target = d.proxyFor env target :=
    fun _ => rfl
  simp only [dial, hproxy] at h ⊢
  cases hparse : Address.parse address with
  | error fault => exact ⟨rfl, rfl⟩
  | ok target =>
    simp only [hparse] at h ⊢
    cases hresolve : d.proxyFor env target with
    | error fault => exact ⟨rfl, rfl⟩
    | ok proxy =>
      simp only [hresolve] at h ⊢
      exact dialTarget_of_timeout_le hle (h _)

end Dialer

end Telemetry
