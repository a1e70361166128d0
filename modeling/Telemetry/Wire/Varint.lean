import Telemetry.Text.Bytes

/-! Numbers of variable length: seven bits a byte, the lowest first, and the top bit set in every
byte but the last. A number of 64 bits takes at most ten bytes. -/

namespace Telemetry.Wire

/-- How many bytes a number of 64 bits may take. -/
def maxVarintLength : Nat := 10

def writeVarint : (more : Nat) → Nat → Bytes
  | 0, n => [UInt8.ofNat n]
  | more + 1, n =>
    if n < 128 then [UInt8.ofNat n] else UInt8.ofNat (n % 128 + 128) :: writeVarint more (n / 128)

/-- The shortest form of a number. -/
def varint (n : UInt64) : Bytes := writeVarint maxVarintLength n.toNat

def readVarintFrom : (more : Nat) → Bytes → Option (Nat × Bytes)
  | 0, _ => none
  | _ + 1, [] => none
  | more + 1, b :: r =>
    if b < 128 then
      if more = 0 && 1 < b then none else some (b.toNat, r)
    else (readVarintFrom more r).map fun (n, r) => (b.toNat % 128 + 128 * n, r)

/-- A number and the bytes behind it. There is none where the bytes end too early, or go on after
the tenth byte, or hold more than 64 bits. -/
def readVarint (s : Bytes) : Option (UInt64 × Bytes) :=
  (readVarintFrom maxVarintLength s).map fun (n, r) => (UInt64.ofNat n, r)

theorem toNat_byte {n : Nat} (h : n < 256) : (UInt8.ofNat n).toNat = n :=
  UInt8.toNat_ofNat_of_lt' h

theorem writeVarint_of_lt {m n : Nat} (h : n < 128) : writeVarint m n = [UInt8.ofNat n] := by
  cases m <;> simp [writeVarint, h]

theorem readVarintFrom_writeVarint {k m n : Nat} (r : Bytes) (hn : n < 2 * Nat.pow 128 k)
    (hm : k ≤ m) : readVarintFrom (k + 1) (writeVarint m n ++ r) = some (n, r) := by
  induction k generalizing m n with
  | zero =>
    have hn : n < 2 := hn
    have hb := toNat_byte (by omega : n < 256)
    rw [writeVarint_of_lt (by omega)]
    simp only [List.cons_append, List.nil_append, readVarintFrom, UInt8.lt_iff_toNat_lt, hb]
    rw [if_pos (Nat.lt_trans hn (by decide)), if_neg (by simp; omega)]
  | succ k ih =>
    have hpow : Nat.pow 128 (k + 1) = Nat.pow 128 k * 128 := rfl
    by_cases h : n < 128
    · have hb := toNat_byte (by omega : n < 256)
      rw [writeVarint_of_lt h]
      simp [readVarintFrom, UInt8.lt_iff_toNat_lt, hb, h]
    · obtain ⟨m, rfl⟩ : ∃ m', m = m' + 1 := ⟨m - 1, by omega⟩
      have hb := toNat_byte (by omega : n % 128 + 128 < 256)
      rw [writeVarint, if_neg h, List.cons_append, readVarintFrom,
        if_neg (by rw [UInt8.lt_iff_toNat_lt, hb]; simp), ih (by omega) (by omega)]
      simp only [hb, Option.map_some, Option.some.injEq, Prod.mk.injEq, and_true]
      omega

/-- A number is read from its shortest form, whatever follows. -/
@[simp] theorem readVarint_varint (n : UInt64) (r : Bytes) :
    readVarint (varint n ++ r) = some (n, r) := by
  rw [readVarint, varint, maxVarintLength,
    readVarintFrom_writeVarint (k := 9) r n.toNat_lt (by decide)]
  simp

end Telemetry.Wire
