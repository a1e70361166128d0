import Telemetry.Proofs.Tls.Tolerance

/-! Failing closed. The transport of a dialer follows from the settings alone: bytes go unprotected
only if that is asked for, and servers go unchecked only if that is asked for. What the files hold
decides which certificates are trusted and which identity is shown, each by its own files: in place
of what cannot be loaded there is nothing (`Dialer.ofConfig_failsClosed`). -/

namespace Telemetry

namespace TrustPool

theorem mem_anchorsOf {results : List (Except Pem.Fault Bytes)} {anchor : Certificate} :
    anchor ∈ anchorsOf results ↔
      ∃ content, .ok content ∈ results ∧ Certificate.anchor? content = some anchor := by
  simp only [anchorsOf, List.mem_filterMap]
  constructor
  · rintro ⟨result, hmem, ha⟩
    cases result with
    | error fault => cases ha
    | ok content => exact ⟨content, hmem, ha⟩
  · rintro ⟨content, hmem, ha⟩
    exact ⟨.ok content, hmem, ha⟩

theorem anchors_of_ofBundle {path : String} {bundle : Bytes} {pool : TrustPool}
    (h : (ofBundle path bundle).1 = .ok pool) :
    pool.anchors = anchorsOf (Pem.certificates bundle) := by
  simp only [ofBundle] at h
  split at h
  · cases h
  · cases h
    rfl

theorem load_empty (files : Files) : load files "" = (.ok {}, []) := if_pos rfl

theorem load_of_read {files : Files} {path : String} {bundle : Bytes} (hp : path ≠ "")
    (h : files.read path = .ok bundle) : load files path = ofBundle path bundle := by
  rw [load, if_neg hp, h]

theorem load_of_read_error {files : Files} {path : String} {fault : FileFault} (hp : path ≠ "")
    (h : files.read path = .error fault) : load files path = (.error (.file path fault), []) := by
  rw [load, if_neg hp, h]

/-- Every trusted certificate stands in the bundle. -/
theorem exists_content_of_load {files : Files} {path : String} {pool : TrustPool}
    (h : (load files path).1 = .ok pool) {anchor : Certificate} (ha : anchor ∈ pool.anchors) :
    ∃ bundle content, files.read path = .ok bundle ∧ .ok content ∈ Pem.certificates bundle ∧
      Certificate.anchor? content = some anchor := by
  by_cases hp : path = ""
  · subst hp
    rw [load_empty] at h
    cases h
    cases ha
  · cases hr : files.read path with
    | error fault =>
      rw [load_of_read_error hp hr] at h
      cases h
    | ok bundle =>
      rw [load_of_read hp hr] at h
      rw [anchors_of_ofBundle h, mem_anchorsOf] at ha
      obtain ⟨content, hmem, hc⟩ := ha
      exact ⟨bundle, content, rfl, hmem, hc⟩

/-- Only the file of the bundle is looked at. -/
theorem load_congr {files files' : Files} {path : String}
    (h : files'.read path = files.read path) : load files' path = load files path := by
  rw [load, load, h]

end TrustPool

namespace Identity

/-- Only the files of the certificate and of the key are looked at. -/
theorem load_congr {files files' : Files} {certificatePath keyPath : String}
    (hc : files'.read certificatePath = files.read certificatePath)
    (hk : files'.read keyPath = files.read keyPath) :
    load files' certificatePath keyPath = load files certificatePath keyPath := by
  simp only [load, loadFiles, readFile, hc, hk]

end Identity

namespace TlsMaterial

variable {files files' : Files} {config config' : Config}

theorem usedRoots_congr (hp : config'.authorityPath = config.authorityPath)
    (h : files'.read config.authorityPath = files.read config.authorityPath) :
    usedRoots files' config' = usedRoots files config := by
  rw [usedRoots, usedRoots, hp, TrustPool.load_congr h]

theorem usedIdentity_congr (hc : config'.certificatePath = config.certificatePath)
    (hk : config'.keyPath = config.keyPath)
    (hcertificate : files'.read config.certificatePath = files.read config.certificatePath)
    (hkey : files'.read config.keyPath = files.read config.keyPath) :
    usedIdentity files' config' = usedIdentity files config := by
  rw [usedIdentity, usedIdentity, hc, hk, Identity.load_congr hcertificate hkey]

theorem usedRoots_of_error {fault : LoadFault}
    (h : (TrustPool.load files config.authorityPath).1 = .error fault) :
    usedRoots files config = {} := by
  rw [usedRoots, h]
  rfl

theorem usedRoots_of_ok {pool : TrustPool}
    (h : (TrustPool.load files config.authorityPath).1 = .ok pool) :
    usedRoots files config = pool := by
  rw [usedRoots, h]
  rfl

theorem usedRoots_of_empty_path (h : config.authorityPath = "") :
    usedRoots files config = {} := by
  apply usedRoots_of_ok
  rw [h, TrustPool.load_empty]

theorem exists_content_of_usedRoots {anchor : Certificate}
    (h : anchor ∈ (usedRoots files config).anchors) :
    ∃ bundle content, files.read config.authorityPath = .ok bundle ∧
      .ok content ∈ Pem.certificates bundle ∧ Certificate.anchor? content = some anchor := by
  cases hl : (TrustPool.load files config.authorityPath).1 with
  | error fault =>
    rw [usedRoots_of_error hl] at h
    cases h
  | ok pool =>
    rw [usedRoots_of_ok hl] at h
    exact TrustPool.exists_content_of_load hl h

/-- The settings are made of the material as it is, or not at all. -/
theorem eq_usedSettings {skipVerify : Bool} {settings : TlsSettings}
    (h : (load files config).material.settings skipVerify = .ok settings) :
    settings = usedSettings files config skipVerify := by
  by_cases hl : LeafIsReadable files config
  · rw [settings_of_readable hl] at h
    cases h
    rfl
  · obtain ⟨_, _, _, _, he⟩ := settings_of_unreadable hl
    rw [he] at h
    cases h

end TlsMaterial

namespace Dialer

open TlsMaterial

/-- What some settings of secured connections trust and show, by the files and by what was asked
for. -/
structure SecuredBy (files : Files) (config : Config) (settings : TlsSettings) : Prop where
  acceptAll_iff : settings.verifier = .acceptAll ↔ config.skipVerify = true
  roots : ∀ roots, settings.verifier = .trust roots → roots = (load files config).material.roots
  /-- Every certificate that is trusted stands in the bundle of the settings. -/
  anchors : ∀ roots, settings.verifier = .trust roots → ∀ anchor ∈ roots.anchors,
    ∃ bundle content, files.read config.authorityPath = .ok bundle ∧
      .ok content ∈ Pem.certificates bundle ∧ Certificate.anchor? content = some anchor
  /-- Nothing is trusted in place of a bundle that cannot be loaded, or of none. -/
  nothing : ∀ roots, settings.verifier = .trust roots →
    config.authorityPath = "" ∨
      (∃ fault, (TrustPool.load files config.authorityPath).1 = .error fault) →
    roots.anchors = []
  loaded : ∀ roots pool, settings.verifier = .trust roots →
    (TrustPool.load files config.authorityPath).1 = .ok pool → roots = pool
  identity : settings.identity = (load files config).material.identity
  identity_iff : ∀ i, settings.identity = some i ↔
    Identity.load files config.certificatePath config.keyPath = .ok (some i)

theorem usedSettings_verifier {files : Files} {config : Config} {roots : TrustPool}
    (h : (usedSettings files config config.skipVerify).verifier = .trust roots) :
    roots = usedRoots files config := by
  rw [usedSettings] at h
  split at h
  · cases h
  · cases h
    rfl

theorem usedSettings_securedBy (files : Files) (config : Config) :
    SecuredBy files config (usedSettings files config config.skipVerify) where
  acceptAll_iff := by
    rw [usedSettings]
    cases config.skipVerify <;> simp
  roots := by
    intro roots hv
    rw [usedSettings_verifier hv, load_material]
  anchors := by
    intro roots hv anchor ha
    rw [usedSettings_verifier hv] at ha
    exact exists_content_of_usedRoots ha
  nothing := by
    intro roots hv hn
    rw [usedSettings_verifier hv]
    rcases hn with hp | ⟨fault, hf⟩
    · rw [usedRoots_of_empty_path hp]
    · rw [usedRoots_of_error hf]
  loaded := by
    intro roots pool hv hl
    rw [usedSettings_verifier hv]
    exact usedRoots_of_ok hl
  identity := by rw [load_material, usedSettings]
  identity_iff := fun _ => usedIdentity_eq_some

theorem transport_of_insecure {files : Files} {config : Config} {d : Dialer}
    (h : (ofConfig files config).1 = .ok d) (hi : config.insecure = true) :
    d.transport = .plaintext := by
  obtain ⟨timeout, transport, warnings, -, hr, rfl⟩ := ofConfig_eq_ok_iff.mp h
  rw [resolveTransport, if_pos hi] at hr
  cases hr
  rfl

/-- A dialer whose settings ask for security is secured by the material of its files. -/
theorem transport_of_secure {files : Files} {config : Config} {d : Dialer}
    (h : (ofConfig files config).1 = .ok d) (hi : config.insecure = false) :
    d.transport = .tls (usedSettings files config config.skipVerify) := by
  obtain ⟨timeout, transport, warnings, -, hr, rfl⟩ := ofConfig_eq_ok_iff.mp h
  simp only [resolveTransport, hi, Bool.false_eq_true, if_false] at hr
  obtain ⟨settings, hs, heq⟩ := exists_of_map_eq_ok hr
  cases heq
  rw [eq_usedSettings hs]

/-- How the transport of the dialer of some settings depends on the files. -/
structure FailsClosed (files : Files) (config : Config) : Prop where
  plaintext_iff : ∀ d, (ofConfig files config).1 = .ok d →
    (d.transport = .plaintext ↔ config.insecure = true)
  /-- Without security the files change neither the dialer, with its warnings, nor what is
  reported. -/
  insecure : config.insecure = true → ∀ files', ofConfig files' config = ofConfig files config
  secure : ∀ d, (ofConfig files config).1 = .ok d → config.insecure = false →
    ∃ settings, d.transport = .tls settings ∧ SecuredBy files config settings
  /-- The trust pool follows from its bundle, whatever else the files and the settings are. -/
  roots : ∀ files' config', config'.authorityPath = config.authorityPath →
    files'.read config.authorityPath = files.read config.authorityPath →
    (load files' config').material.roots = (load files config).material.roots
  /-- The identity follows from its two files, whatever else the files and the settings are. -/
  identity : ∀ files' config', config'.certificatePath = config.certificatePath →
    config'.keyPath = config.keyPath →
    files'.read config.certificatePath = files.read config.certificatePath →
    files'.read config.keyPath = files.read config.keyPath →
    (load files' config').material.identity = (load files config).material.identity

/-- **The security of transports fails closed.** For all settings and all files, only the settings
decide whether bytes are protected and whether servers are checked; certificates are trusted only
out of the bundle and an identity is shown only if it was loaded, and neither of the two depends on
the files of the other. -/
theorem ofConfig_failsClosed (files : Files) (config : Config) : FailsClosed files config where
  plaintext_iff := by
    intro d hd
    cases hi : config.insecure with
    | true => simp [transport_of_insecure hd hi]
    | false => simp [transport_of_secure hd hi]
  insecure := by
    intro hi files'
    simp only [ofConfig, resolveTransport, if_pos hi]
  secure := by
    intro d hd hi
    exact ⟨_, transport_of_secure hd hi, usedSettings_securedBy files config⟩
  roots := by
    intro files' config' hp h
    rw [load_material, load_material]
    exact usedRoots_congr hp h
  identity := by
    intro files' config' hc hk hcertificate hkey
    rw [load_material, load_material]
    exact usedIdentity_congr hc hk hcertificate hkey

end Dialer

end Telemetry
