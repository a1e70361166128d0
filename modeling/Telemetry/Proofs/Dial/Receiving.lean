import Telemetry.Dial.Call
import Telemetry.Proofs.Dial.Opening
import Telemetry.Proofs.Text.Utf8
import Telemetry.Proofs.Wire.Fields

/-! Replies and the limit of a connection. A text is received exactly if its message is within the
limit that the settings give, and a larger setting refuses no more
(`Config.Opens.limitsReplies`). -/

namespace Telemetry

open Wire

/-! ## Messages of one text -/

namespace TextMessage

/-- How long the message of a text of `n` bytes is. -/
def lengthOf (n : Nat) : Nat := if n = 0 then 0 else n + 1 + varintLength n

theorem le_lengthOf (n : Nat) : n ≤ lengthOf n := by
  unfold lengthOf
  split <;> omega

theorem length_encode {text : String} (h : (Text.utf8 text).length < 2 ^ 64) :
    (encode text).length = lengthOf (Text.utf8 text).length := by
  by_cases htext : text = ""
  · subst htext
    rfl
  · have hne : (Text.utf8 text).length ≠ 0 := by
      intro hzero
      exact htext (Text.utf8_injective (List.length_eq_zero_iff.mp hzero))
    rw [encode, omitIf, if_neg (by simpa using htext), textField,
      length_delimitedField (by decide) h, lengthOf, if_neg hne]

theorem reads (depth : Nat) (text : String) :
    Reads (readField depth) "" (encode text) text :=
  .scalar id (.text fun s r hs => by simp [readField, hs])

theorem decode_encode {text : String} (h : (encode text).length < 2 ^ 64) :
    decode (encode text) = .ok text :=
  readMessage_run (reads _ text h)

end TextMessage

/-! ## Limits -/

/-- The limit in bytes of a setting in units of 2^20 bytes. It is a number of 64 bits, and that of
the transport for zero. -/
def receiveLimit (size : Nat) : Nat :=
  if size = 0 then 4 * 2 ^ 20 else min (size * 2 ^ 20) (2 ^ 64 - 1)

theorem receiveLimit_mono {m n : Nat} (hm : 0 < m) (h : m ≤ n) :
    receiveLimit m ≤ receiveLimit n := by
  rw [receiveLimit, receiveLimit, if_neg (by omega), if_neg (by omega)]
  exact min_le_min_right _ (Nat.mul_le_mul_right _ h)

namespace Connection

section Call

variable {α : Type} {decode : Bytes → Except Wire.Fault α} {reply : Bytes} {c c' : Connection}

theorem call_of_le (h : reply.length ≤ c.limit) :
    c.call decode reply = (decode reply).mapError .malformed := by
  rw [call, receive, if_pos h]

theorem call_of_lt (h : c.limit < reply.length) :
    c.call decode reply = .error (.tooLong ⟨reply.length, c.limit⟩) := by
  rw [call, receive, if_neg (Nat.not_le_of_lt h)]

/-- What is received within a limit is received within every greater one. -/
theorem call_mono {x : α} (hlimit : c.limit ≤ c'.limit) (h : c.call decode reply = .ok x) :
    c'.call decode reply = .ok x := by
  rcases Nat.lt_or_ge c.limit reply.length with hlt | hle
  · rw [call_of_lt hlt] at h
    cases h
  · rwa [call_of_le (hle.trans hlimit), ← call_of_le hle]

end Call

theorem fetch_eq (c : Connection) {text : String}
    (h : TextMessage.lengthOf (Text.utf8 text).length < 2 ^ 32) :
    c.fetch text =
      if TextMessage.lengthOf (Text.utf8 text).length ≤ c.limit then .ok text
      else .error (.tooLong ⟨TextMessage.lengthOf (Text.utf8 text).length, c.limit⟩) := by
  have htext : (Text.utf8 text).length < 2 ^ 64 :=
    (TextMessage.le_lengthOf _).trans_lt (h.trans (by decide))
  have hlength := TextMessage.length_encode htext
  have hencode : (TextMessage.encode text).length < 2 ^ 64 :=
    hlength.trans_lt (h.trans (by decide))
  split
  · rename_i hle
    rw [fetch, call_of_le (hlength.trans_le hle), TextMessage.decode_encode hencode]
    rfl
  · rename_i hlt
    rw [fetch, call_of_lt (hlength.symm ▸ Nat.lt_of_not_le hlt), hlength]

end Connection

/-! ## Open connections -/

/-- A dialer of the settings has opened the connection, whatever its files, surroundings and target
are. -/
def Config.Opens (config : Config) (c : Connection) : Prop :=
  ∃ files d, (Dialer.ofConfig files config).1 = .ok d ∧
    ∃ env net address, (d.dial env net address).result = .ok c

theorem Config.Opens.limit_eq {config : Config} {c : Connection} (h : config.Opens c) :
    c.limit = receiveLimit config.maxMessageSize := by
  obtain ⟨files, d, hd, env, net, address, hdial⟩ := h
  obtain ⟨target, _, rfl, -⟩ := Dialer.exists_of_dial_eq_ok hdial
  have hunit : Nat.pow 2 20 = 2 ^ 20 := by norm_num
  have hmax : Config.maxCount = 2 ^ 64 - 1 := by decide
  rw [Connection.limit, Dialer.connection, Dialer.config_of_ofConfig hd, Config.messageLimit,
    Connection.defaultLimit, receiveLimit, hunit, hmax]
  split
  · rw [Option.getD_none]
  · rw [Option.getD_some]

/-- What comes of replies over a connection that is opened with the settings. -/
structure Config.LimitsReplies (config : Config) (c : Connection) : Prop where
  /-- A text arrives, and arrives whole, exactly if its message is within the limit. -/
  ok_iff : ∀ n text, (Text.utf8 text).length = n → TextMessage.lengthOf n < 2 ^ 32 →
    (c.fetch text = .ok text ↔
      TextMessage.lengthOf n ≤ receiveLimit config.maxMessageSize)
  /-- Any other is refused by the length of its message and by the limit. -/
  refused : ∀ n text, (Text.utf8 text).length = n → TextMessage.lengthOf n < 2 ^ 32 →
    receiveLimit config.maxMessageSize < TextMessage.lengthOf n →
    c.fetch text =
      .error (.tooLong ⟨TextMessage.lengthOf n, receiveLimit config.maxMessageSize⟩)
  /-- There is no other reason why a text does not arrive, and the status names both numbers. -/
  status : ∀ n text fault, (Text.utf8 text).length = n → TextMessage.lengthOf n < 2 ^ 32 →
    c.fetch text = .error fault →
    fault.code = .outOfRange ∧
      fault.message = "Error, decoded message length too large: found "
        ++ String.ofList (Text.decimal (TextMessage.lengthOf n)) ++ " bytes, the limit is: "
        ++ String.ofList (Text.decimal (receiveLimit config.maxMessageSize)) ++ " bytes"
  /-- A connection of a larger setting takes every reply that this one takes, whatever is read
  of it. -/
  mono : ∀ (config' : Config) c', config'.Opens c' → 0 < config.maxMessageSize →
    config.maxMessageSize ≤ config'.maxMessageSize →
    ∀ {α : Type} (decode : Bytes → Except Wire.Fault α) reply x,
      c.call decode reply = .ok x → c'.call decode reply = .ok x

/-- **The receive limit is exact.** Over every connection that is opened with some settings, a text
arrives exactly if the length of its message, the header of its field included, is at most as many
units of 2^20 bytes as are set, or as many bytes as can be counted where the units are more than
that; and any other text is out of range. Settings that are not zero take no less than smaller
ones. -/
theorem Config.Opens.limitsReplies {config : Config} {c : Connection} (h : config.Opens c) :
    config.LimitsReplies c where
  ok_iff := by
    rintro n text rfl hn
    rw [c.fetch_eq hn, h.limit_eq]
    split <;> simp [*]
  refused := by
    rintro n text rfl hn hlt
    rw [c.fetch_eq hn, h.limit_eq, if_neg (Nat.not_le_of_lt hlt)]
  status := by
    rintro n text fault rfl hn hfault
    rw [c.fetch_eq hn, h.limit_eq] at hfault
    split at hfault <;> cases hfault
    exact ⟨rfl, rfl⟩
  mono := by
    intro config' c' h' hpos hle α decode reply x hcall
    refine Connection.call_mono ?_ hcall
    rw [h.limit_eq, h'.limit_eq]
    exact receiveLimit_mono hpos hle

/-! ## At the limit -/

/-- Settings that reach a peer who is always ready. -/
def readyConfig (size : Nat) : Config := { insecure := true, maxMessageSize := size }

def readyNetwork : Network where
  connect _ _ := .after 0 (.ok { channel := fun _ _ _ => .after 0 (.ok ()) })

def readyConnection (size : Nat) : Connection where
  address := ⟨"192.0.2.7", 57400⟩
  isTls := false
  messageLimit := (readyConfig size).messageLimit
  credentials := none

def readyDialer (size : Nat) : Dialer := ⟨readyConfig size, { seconds := 30 }, .plaintext, []⟩

theorem opens_readyConnection {size : Nat}
    (hd : (Dialer.ofConfig (Files.ofList []) (readyConfig size)).1 = .ok (readyDialer size))
    (h : ((readyDialer size).dial (fun _ => none) readyNetwork "192.0.2.7").result =
      .ok (readyConnection size)) : (readyConfig size).Opens (readyConnection size) :=
  ⟨Files.ofList [], readyDialer size, hd, fun _ => none, readyNetwork, "192.0.2.7", h⟩

def longText (n : Nat) : String := String.ofList (List.replicate n 'x')

theorem length_utf8_longText (n : Nat) : (Text.utf8 (longText n)).length = n := by
  have hascii : ∀ c ∈ List.replicate n 'x', c.toNat < 128 := by
    intro c hc
    rw [List.eq_of_mem_replicate hc]
    decide
  exact (Text.utf8Length_eq_length hascii).trans List.length_replicate

/-- The largest text within one unit and the smallest one beyond it, which arrives where the units
are more bytes than can be counted. -/
theorem Config.Opens.limitsReplies_boundary :
    let text := longText 1048572
    let longer := longText 1048573
    let c := readyConnection 1
    let largest := readyConnection (2 ^ 44)
    (readyConfig 1).Opens c ∧ (readyConfig (2 ^ 44)).Opens largest ∧
      c.fetch text = .ok text ∧ c.fetch longer = .error (.tooLong ⟨1048577, 1048576⟩) ∧
      largest.fetch text = .ok text ∧ largest.fetch longer = .ok longer := by
  intro text longer c largest
  have hc : (readyConfig 1).Opens c :=
    opens_readyConnection (by decide +kernel) (by decide +kernel)
  have hlargest : (readyConfig (2 ^ 44)).Opens largest :=
    opens_readyConnection (by decide +kernel) (by decide +kernel)
  have htext : TextMessage.lengthOf 1048572 = 1048576 := by
    norm_num [TextMessage.lengthOf, varintLength]
  have hlonger : TextMessage.lengthOf 1048573 = 1048577 := by
    norm_num [TextMessage.lengthOf, varintLength]
  have hone : receiveLimit (readyConfig 1).maxMessageSize = 1048576 := by
    norm_num [receiveLimit, readyConfig]
  have hmost : receiveLimit (readyConfig (2 ^ 44)).maxMessageSize = 2 ^ 64 - 1 := by
    norm_num [receiveLimit, readyConfig]
  have hreceived : c.fetch text = .ok text :=
    (hc.limitsReplies.ok_iff _ text (length_utf8_longText _) (by rw [htext]; norm_num)).mpr
      (by rw [htext, hone])
  have hrefused := hc.limitsReplies.refused _ longer (length_utf8_longText _)
    (by rw [hlonger]; norm_num) (by rw [hlonger, hone]; norm_num)
  rw [hlonger, hone] at hrefused
  have hmono : largest.fetch text = .ok text :=
    hc.limitsReplies.mono _ largest hlargest (by decide) (by decide) _ _ _ hreceived
  have hlongest : largest.fetch longer = .ok longer :=
    (hlargest.limitsReplies.ok_iff _ longer (length_utf8_longText _)
      (by rw [hlonger]; norm_num)).mpr (by rw [hlonger, hmost]; norm_num)
  exact ⟨hc, hlargest, hreceived, hrefused, hmono, hlongest⟩

end Telemetry
