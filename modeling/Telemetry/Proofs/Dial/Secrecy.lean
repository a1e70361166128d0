import Mathlib
import Telemetry.Cli.Program

/-! The password is a secret: of all that an attempt to open a connection shows, reports and sends
on its way, nothing depends on it but the metadata of requests. -/

namespace Telemetry

/-! ## Other credentials in place of those given -/

section
variable (cr : Option Credentials)

def Config.withCredentials (config : Config) : Config := { config with credentials := cr }

def Connection.withCredentials (c : Connection) : Connection := { c with credentials := cr }

def DialReport.withCredentials (r : DialReport) : DialReport :=
  { r with result := r.result.map (·.withCredentials cr) }

namespace Dialer

def withCredentials (d : Dialer) : Dialer := { d with config := d.config.withCredentials cr }

theorem ofConfig_withCredentials (files : Files) (config : Config) :
    ofConfig files (config.withCredentials cr) =
      ((ofConfig files config).1.map (·.withCredentials cr), (ofConfig files config).2) := by
  have htimeout : (config.withCredentials cr).dialTimeout = config.dialTimeout := rfl
  have htransport :
      resolveTransport files (config.withCredentials cr) = resolveTransport files config := rfl
  rw [ofConfig, ofConfig, htimeout, htransport]
  cases config.dialTimeout with
  | error fault => rfl
  | ok timeout =>
    obtain ⟨transport, logs⟩ := resolveTransport files config
    cases transport <;> rfl

theorem dialTarget_withCredentials (d : Dialer) (net : Network) (target : Address)
    (proxy : Option Proxy) : (d.withCredentials cr).dialTarget net target proxy =
      (d.dialTarget net target proxy).withCredentials cr := by
  have hestablish : (d.withCredentials cr).establish net target proxy =
      d.establish net target proxy := rfl
  simp only [dialTarget, hestablish]
  cases Uri.parse ("http://".toList ++ target.displayChars) with
  | error fault => rfl
  | ok uri =>
    obtain ⟨outcome, requests⟩ := d.establish net target proxy
    rcases outcome with (causes | _) | _ <;> rfl

theorem dial_withCredentials (d : Dialer) (env : Environment) (net : Network) (address : String) :
    (d.withCredentials cr).dial env net address =
      (d.dial env net address).withCredentials cr := by
  have hproxy : ∀ target, (d.withCredentials cr).proxyFor env target = d.proxyFor env target :=
    fun _ => rfl
  simp only [dial, hproxy, dialTarget_withCredentials]
  cases Address.parse address with
  | error fault => rfl
  | ok target =>
    dsimp only
    cases d.proxyFor env target <;> rfl

theorem dialOnce_withCredentials (files : Files) (env : Environment) (net : Network)
    (config : Config) (address : String) :
    dialOnce files env net (config.withCredentials cr) address =
      (dialOnce files env net config address).withCredentials cr := by
  rw [dialOnce, dialOnce, ofConfig_withCredentials]
  obtain ⟨result, logs⟩ := ofConfig files config
  cases result with
  | error fault => rfl
  | ok d => simp only [Except.map, dial_withCredentials, DialReport.withCredentials]

end Dialer

namespace Cli

theorem Style.outcome_withCredentials (style : Style) (result : Except DialFault Connection) :
    style.outcome (result.map (·.withCredentials cr)) = style.outcome result := by
  cases result <;> rfl

namespace TargetReport

def withCredentials (r : TargetReport) : TargetReport :=
  { r with result := r.result.map (·.withCredentials cr) }

theorem line_withCredentials (r : TargetReport) (style : Style) (labelled : Bool) :
    (r.withCredentials cr).line style labelled = r.line style labelled := by
  simp only [line, withCredentials, Style.outcome_withCredentials]

theorem hasFailed_withCredentials (r : TargetReport) :
    (r.withCredentials cr).hasFailed = r.hasFailed := by
  obtain ⟨target, result⟩ := r
  cases result <;> rfl

end TargetReport

namespace Surroundings

variable {s : Surroundings} {a b : Arguments}

theorem report_withCredentials (d : Dialer) (htargets : a.targets = b.targets) :
    s.report (d.withCredentials cr) b = (s.report d a).map (·.withCredentials cr) := by
  simp only [report, List.map_map, htargets, Dialer.dial_withCredentials]
  rfl

theorem reportAll_withCredentials (reports : List TargetReport)
    (hlabelled : a.labelled = b.labelled) (hcollect : a.collect = b.collect) :
    s.reportAll b (reports.map (·.withCredentials cr)) = s.reportAll a reports := by
  have hstarted : s.started b (reports.map (·.withCredentials cr)) = s.started a reports := by
    simp only [started, List.map_map, hcollect, hlabelled, Function.comp_def,
      TargetReport.line_withCredentials, TargetReport.hasFailed_withCredentials]
  simp only [reportAll, exitAfter, hstarted, List.length_map]

/-- The program leaves the same behind whatever the credentials of its settings are. -/
theorem dial_withCredentials {config : Config} (ha : a.config = .ok config)
    (hb : b.config = .ok (config.withCredentials cr)) (htargets : a.targets = b.targets)
    (hlabelled : a.labelled = b.labelled) (hcollect : a.collect = b.collect) :
    s.dial b = s.dial a := by
  simp only [dial, ha, hb, Dialer.ofConfig_withCredentials]
  cases (Dialer.ofConfig s.files config).1 with
  | error fault => rfl
  | ok d =>
    have hreport := report_withCredentials (s := s) cr d htargets
    dsimp only [Except.map]
    rw [hreport, reportAll_withCredentials cr _ hlabelled hcollect]

end Surroundings

end Cli

end

/-! ## What credentials say of themselves -/

theorem MetadataValue.eq_of_ofText?_eq_some {text : String} {v : MetadataValue}
    (h : ofText? text = some v) : v = { bytes := Text.utf8 text } := by
  rw [ofText?] at h
  split at h
  · cases h
    rfl
  · cases h

namespace Credentials

/-- The password is marked as sensitive, and neither text is changed. -/
theorem eq_of_make_eq_ok {username password : String} {c : Credentials}
    (h : make username password = .ok c) :
    c = ⟨{ bytes := Text.utf8 username },
      { bytes := Text.utf8 password, isSensitive := true }⟩ := by
  unfold make at h
  split at h
  case h_1 => cases h
  case h_2 => cases h
  case h_3 u p hu hp =>
    cases MetadataValue.eq_of_ofText?_eq_some hu
    cases MetadataValue.eq_of_ofText?_eq_some hp
    cases h
    rfl

/-- A fault of credentials says which of the texts it is about, and no more. -/
theorem make_eq_error {username p q : String} {f : ConfigFault}
    (hp : make username p = .error f) (hq : (make username q).isOk = false) :
    make username q = .error f := by
  unfold make at hp hq ⊢
  generalize MetadataValue.ofText? username = u at hp hq ⊢
  generalize MetadataValue.ofText? p = v at hp
  generalize MetadataValue.ofText? q = w at hq ⊢
  cases u with
  | none => exact hp
  | some u =>
    cases v with
    | some v => cases hp
    | none =>
      cases w with
      | none => exact hp
      | some w => cases hq

theorem display_eq_of_make {username p q : String} {c d : Credentials}
    (hc : make username p = .ok c) (hd : make username q = .ok d) : c.display = d.display := by
  rw [eq_of_make_eq_ok hc, eq_of_make_eq_ok hd]
  rfl

end Credentials

/-! ## What is shown of an attempt -/

/-- An attempt to open a connection, in its surroundings. Its credentials are given apart. -/
structure Attempt where
  config : Config
  files : Files
  environment : Environment
  network : Network
  address : String
  style : Cli.Style

/-- All that an attempt shows, reports and sends before it ends, and how it is said to have
ended. -/
structure Attempt.Shown where
  credentials : String
  config : String
  warnings : Option (List LoadFault)
  logs : List LogRecord
  tunnelRequests : List String
  fault : Option DialFault
  line : String

namespace Attempt

variable (a : Attempt)

def configOf (c : Credentials) : Config := a.config.withCredentials (some c)

def report (c : Credentials) : DialReport :=
  Dialer.dialOnce a.files a.environment a.network (a.configOf c) a.address

def shown (isShown : Char → Bool) (c : Credentials) : Shown where
  credentials := c.display
  config := (a.configOf c).display isShown
  warnings := (Dialer.ofConfig a.files (a.configOf c)).1.toOption.map Dialer.warnings
  logs := (a.report c).logs
  tunnelRequests := (a.report c).tunnelRequests
  fault :=
    match (a.report c).result with
    | .ok _ => none
    | .error fault => some fault
  line := a.style.outcome (a.report c).result

theorem report_eq (c d : Credentials) : a.report d = (a.report c).withCredentials (some d) := by
  have hconfig : a.configOf d = (a.configOf c).withCredentials (some d) := rfl
  rw [report, hconfig, Dialer.dialOnce_withCredentials, report]

theorem shown_eq {c d : Credentials} (h : c.display = d.display) (isShown : Char → Bool) :
    a.shown isShown d = a.shown isShown c := by
  have hconfig : a.configOf d = (a.configOf c).withCredentials (some d) := rfl
  have hdisplay : (a.configOf d).display isShown = (a.configOf c).display isShown := by
    simp only [Config.display, configOf, Config.withCredentials, h]
  simp only [shown, h, hdisplay, a.report_eq c d]
  rw [hconfig, Dialer.ofConfig_withCredentials]
  simp only [DialReport.withCredentials]
  cases (a.report c).result <;> cases (Dialer.ofConfig a.files (a.configOf c)).1 <;> rfl

theorem result_of_result {c : Credentials} {k : Connection} (h : (a.report c).result = .ok k)
    (d : Credentials) : (a.report d).result = .ok (k.withCredentials (some d)) := by
  rw [a.report_eq c d, DialReport.withCredentials, h]
  rfl

theorem metadata_of_result {c : Credentials} {k : Connection}
    (h : (a.report c).result = .ok k) :
    k.metadata = [("username", c.username), ("password", c.password)] := by
  have hk : k = k.withCredentials (some c) := Except.ok.inj (h.symm.trans (a.result_of_result h c))
  rw [hk]
  rfl

end Attempt

namespace Credentials

/-- Of two passwords for a name, nobody but the peer of an open connection can tell which one was
given. -/
structure IsSecret (username p q : String) : Prop where
  fault : ∀ f, make username p = .error f ↔ make username q = .error f
  shown : ∀ c d, make username p = .ok c → make username q = .ok d →
    ∀ (a : Attempt) isShown, a.shown isShown c = a.shown isShown d
  connection : ∀ c d, make username p = .ok c → make username q = .ok d →
    ∀ (a : Attempt) k, (a.report c).result = .ok k →
      (a.report d).result = .ok (k.withCredentials (some d))
  /-- An open connection sends the name and the password as they were given. -/
  metadata : ∀ password ∈ [p, q], ∀ c, make username password = .ok c →
    ∀ (a : Attempt) k, (a.report c).result = .ok k →
      k.metadata = [("username", { bytes := Text.utf8 username }),
        ("password", { bytes := Text.utf8 password, isSensitive := true })]

/-- **The password is seen nowhere but in the metadata of requests.** For two passwords that are
both accepted, or both refused, all that is shown, reported and sent on the way is the same, and the
connections differ in nothing but the entry of the password, which is the one that was given. -/
theorem make_isSecret {username p q : String}
    (h : (make username p).isOk = (make username q).isOk) : IsSecret username p q := by
  refine ⟨?_, ?_, ?_, ?_⟩
  · intro f
    constructor
    · intro hp
      rw [hp] at h
      exact make_eq_error hp h.symm
    · intro hq
      rw [hq] at h
      exact make_eq_error hq h
  · intro c d hc hd a isShown
    exact a.shown_eq (display_eq_of_make hd hc) isShown
  · intro c d _ _ a k hk
    exact a.result_of_result hk d
  · intro password _ c hc a k hk
    rw [a.metadata_of_result hk, eq_of_make_eq_ok hc]

/-- A target behind a proxy, where every request for a tunnel is granted. -/
def proxiedAttempt : Attempt where
  config := { insecure := true, proxyFromEnvironment := true }
  files := Files.ofList []
  environment name := if name = "HTTPS_PROXY" then some "http://proxy.lab:3128" else none
  network :=
    { connect := fun _ _ =>
        .after 0 <| .ok
          { tunnelResponse := fun _ =>
              .after 0 (.ok { bytes := Text.utf8 "HTTP/1.1 200 OK\r\n\r\n" })
            channel := fun _ _ _ => .after 0 (.ok ()) } }
  address := "router1"
  style := {}

theorem make_isSecret_admin :
    (make "admin" "one").isOk = (make "admin" "seventeen").isOk ∧
      IsSecret "admin" "one" "seventeen" ∧
      ∃ c, make "admin" "one" = .ok c ∧ (proxiedAttempt.report c).result.isOk = true ∧
        (proxiedAttempt.report c).tunnelRequests.length = 1 := by
  have h : (make "admin" "one").isOk = (make "admin" "seventeen").isOk := by decide +kernel
  exact ⟨h, make_isSecret h, _, rfl, by decide +kernel, by decide +kernel⟩

end Credentials

end Telemetry
