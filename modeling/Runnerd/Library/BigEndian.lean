import Mathlib.Tactic.Ring

/-!
# Big-endian integers

`bigEndian n v` is the `n`-byte big-endian form of `v`, and `fromBigEndian` reads such a form back.
The two are inverse on numbers below `256 ^ n` and on lists of `n` bytes.
-/

/-- The `n` low bytes of `v`, highest first. -/
def bigEndian : ℕ → ℕ → List UInt8
  | 0, _ => []
  | n + 1, v => (v / 256 ^ n).toUInt8 :: bigEndian n v

/-- The number a list of bytes spells, highest byte first. -/
def fromBigEndian (bytes : List UInt8) : ℕ := bytes.foldl (fun v b => v * 256 + b.toNat) 0

@[simp] theorem length_bigEndian (n v : ℕ) : (bigEndian n v).length = n := by
  induction n with
  | zero => rfl
  | succ n ih => rw [bigEndian, List.length_cons, ih]

theorem foldl_bigEndian (bytes : List UInt8) (v : ℕ) :
    bytes.foldl (fun v b => v * 256 + b.toNat) v =
      v * 256 ^ bytes.length + fromBigEndian bytes := by
  unfold fromBigEndian
  induction bytes generalizing v with
  | nil => simp
  | cons b rest ih =>
    rw [List.foldl_cons, List.foldl_cons, ih, ih (0 * 256 + b.toNat), List.length_cons]
    ring

theorem fromBigEndian_cons (b : UInt8) (rest : List UInt8) :
    fromBigEndian (b :: rest) = b.toNat * 256 ^ rest.length + fromBigEndian rest := by
  rw [show fromBigEndian (b :: rest) = rest.foldl (fun v b => v * 256 + b.toNat) (0 * 256 + b.toNat)
    from rfl, foldl_bigEndian]
  ring

theorem fromBigEndian_lt (bytes : List UInt8) : fromBigEndian bytes < 256 ^ bytes.length := by
  induction bytes with
  | nil => decide
  | cons b rest ih =>
    have hb : b.toNat < 256 := b.toNat_lt
    rw [fromBigEndian_cons, List.length_cons, pow_succ]
    calc b.toNat * 256 ^ rest.length + fromBigEndian rest
        < b.toNat * 256 ^ rest.length + 256 ^ rest.length := by omega
      _ = (b.toNat + 1) * 256 ^ rest.length := by ring
      _ ≤ 256 * 256 ^ rest.length := Nat.mul_le_mul_right _ (by omega)
      _ = 256 ^ rest.length * 256 := by ring

theorem fromBigEndian_bigEndian_mod (n v : ℕ) : fromBigEndian (bigEndian n v) = v % 256 ^ n := by
  induction n with
  | zero => simp [bigEndian, fromBigEndian, Nat.mod_one]
  | succ n ih =>
    rw [bigEndian, fromBigEndian_cons, length_bigEndian, ih]
    have hb : (v / 256 ^ n).toUInt8.toNat = v / 256 ^ n % 256 := rfl
    rw [hb, pow_succ, Nat.mod_mul]
    ring

/-- Reading back a number that fits in `n` bytes. -/
theorem fromBigEndian_bigEndian {n v : ℕ} (h : v < 256 ^ n) :
    fromBigEndian (bigEndian n v) = v := by
  rw [fromBigEndian_bigEndian_mod, Nat.mod_eq_of_lt h]

/-- Writing back a number read from bytes. -/
theorem bigEndian_fromBigEndian (bytes : List UInt8) :
    bigEndian bytes.length (fromBigEndian bytes) = bytes := by
  have key : ∀ (bytes : List UInt8) (v : ℕ),
      bigEndian bytes.length (v * 256 ^ bytes.length + fromBigEndian bytes) = bytes := by
    intro bytes
    induction bytes with
    | nil => intro v; rfl
    | cons b rest ih =>
      intro v
      have hlt := fromBigEndian_lt rest
      have hpos : 0 < 256 ^ rest.length := Nat.pow_pos (by decide)
      have hv : v * 256 ^ (rest.length + 1) + fromBigEndian (b :: rest) =
          (v * 256 + b.toNat) * 256 ^ rest.length + fromBigEndian rest := by
        rw [fromBigEndian_cons, pow_succ]
        ring
      rw [List.length_cons, hv, bigEndian, ih]
      congr 1
      rw [Nat.add_comm, Nat.add_mul_div_right _ _ hpos, Nat.div_eq_of_lt hlt, Nat.zero_add]
      apply UInt8.toNat_inj.mp
      show (v * 256 + b.toNat) % 256 = b.toNat
      have hb : b.toNat < 256 := b.toNat_lt
      omega
  simpa using key bytes 0
