/-
SpringDome.Lib.Varint — base-128 numbers of bounded length.

`encode` writes seven bits to a byte, low bits first, with the high bit set on
every byte but the last; `decode` reads such a number back and says what is
behind it. Both take the number of bytes they may use, so they are structural
recursions. `decode` accepts more than `encode` writes: a number may be padded
with zero groups up to the limit.

* `decode_encode` — a number that fits is read back, with whatever follows.
* `length_encode` — how many bytes it takes, by its binary logarithm.
-/
import Mathlib.Data.Nat.Log
import Mathlib.Algebra.Ring.Nat

namespace SpringDome.Lib.WireFormat

/-- Why bytes cannot be read. -/
inductive Failure where
  | truncated
  | malformedVarint
  | negativeSize
  | invalidTag
  | invalidEndTag
  | invalidWireType
  | recursionLimit
  deriving DecidableEq, Repr

namespace Varint

/-! ## 1. Numbers and bytes -/

def encode : Nat → Nat → List UInt8
  | 0, _ => []
  | limit + 1, n =>
      if n < 128 then [UInt8.ofNat n]
      else UInt8.ofNat (n % 128 + 128) :: encode limit (n / 128)

def decode : Nat → List UInt8 → Except Failure (Nat × List UInt8)
  | 0, _ => .error .malformedVarint
  | _ + 1, [] => .error .truncated
  | limit + 1, b :: bytes =>
      if b.toNat < 128 then .ok (b.toNat, bytes)
      else (decode limit bytes).map fun (n, rest) => (b.toNat - 128 + 128 * n, rest)

theorem encode_small {n : Nat} (h : n < 128) (limit : Nat) :
    encode (limit + 1) n = [UInt8.ofNat n] := by
  rw [encode, if_pos h]

theorem encode_large {n : Nat} (h : 128 ≤ n) (limit : Nat) :
    encode (limit + 1) n = UInt8.ofNat (n % 128 + 128) :: encode limit (n / 128) := by
  rw [encode, if_neg (by omega)]

theorem decode_last {b : UInt8} (h : b.toNat < 128) (limit : Nat) (bytes : List UInt8) :
    decode (limit + 1) (b :: bytes) = .ok (b.toNat, bytes) := by
  rw [decode, if_pos h]

theorem decode_more {b : UInt8} (h : 128 ≤ b.toNat) (limit : Nat) (bytes : List UInt8) :
    decode (limit + 1) (b :: bytes) =
      (decode limit bytes).map fun (n, rest) => (b.toNat - 128 + 128 * n, rest) := by
  rw [decode, if_neg (by omega)]

/-- What a number with more bytes to come is made of. -/
theorem decode_more_ok {b : UInt8} (h : 128 ≤ b.toNat) {limit n : Nat} {bytes rest : List UInt8} :
    decode (limit + 1) (b :: bytes) = .ok (n, rest) ↔
      ∃ m, decode limit bytes = .ok (m, rest) ∧ n = b.toNat - 128 + 128 * m := by
  rw [decode_more h]
  cases decode limit bytes with
  | error failure => exact ⟨fun h => (by cases h), fun ⟨_, h, _⟩ => by cases h⟩
  | ok x =>
      obtain ⟨m, rest'⟩ := x
      show Except.ok (b.toNat - 128 + 128 * m, rest') = .ok (n, rest) ↔ _
      constructor
      · intro heq
        cases heq
        exact ⟨m, rfl, rfl⟩
      · intro heq
        obtain ⟨m', hm', rfl⟩ := heq
        cases hm'
        rfl

theorem toNat_last {n : Nat} (h : n < 128) : (UInt8.ofNat n).toNat = n := by
  rw [UInt8.toNat_ofNat']
  omega

theorem toNat_more (n : Nat) : (UInt8.ofNat (n % 128 + 128)).toNat = n % 128 + 128 := by
  rw [UInt8.toNat_ofNat']
  omega

/-- The groups that are left fit into the bytes that are left. -/
theorem div_lt_pow {n limit : Nat} (h : n < 128 ^ (limit + 1)) : n / 128 < 128 ^ limit := by
  rw [Nat.div_lt_iff_lt_mul (by decide)]
  rwa [← Nat.pow_succ]

/-- Induction on the groups of a number that fits. -/
theorem fits_induction {motive : Nat → Nat → Prop}
    (small : ∀ limit n, n < 128 → motive (limit + 1) n)
    (large : ∀ limit n, 128 ≤ n → n < 128 ^ (limit + 2) → motive (limit + 1) (n / 128) →
      motive (limit + 2) n)
    {limit n : Nat} (h : n < 128 ^ (limit + 1)) : motive (limit + 1) n := by
  induction limit generalizing n with
  | zero => exact small 0 n (by omega)
  | succ limit ih =>
      by_cases hsmall : n < 128
      · exact small _ n hsmall
      · exact large limit n (by omega) h (ih (div_lt_pow h))

/-! ## 2. Reading what was written -/

theorem decode_encode {limit n : Nat} (h : n < 128 ^ (limit + 1)) (rest : List UInt8) :
    decode (limit + 1) (encode (limit + 1) n ++ rest) = .ok (n, rest) := by
  refine fits_induction (motive := fun limit n => decode limit (encode limit n ++ rest) = .ok (n, rest))
    ?_ ?_ h
  · intro limit n hsmall
    rw [encode_small hsmall, List.singleton_append, decode_last (by rwa [toNat_last hsmall]),
      toNat_last hsmall]
  · intro limit n hlarge _ ih
    rw [encode_large hlarge, List.cons_append, decode_more (by rw [toNat_more]; omega), ih,
      toNat_more]
    show Except.ok (n % 128 + 128 - 128 + 128 * (n / 128), rest) = _
    rw [Nat.add_sub_cancel, Nat.mod_add_div]

/-- What follows a number does not change how it is read. -/
theorem decode_append {limit n : Nat} {bytes rest : List UInt8}
    (h : decode limit bytes = .ok (n, rest)) (more : List UInt8) :
    decode limit (bytes ++ more) = .ok (n, rest ++ more) := by
  induction limit generalizing n bytes with
  | zero => cases h
  | succ limit ih =>
      cases bytes with
      | nil => cases h
      | cons b bytes =>
          by_cases hlast : b.toNat < 128
          · rw [decode_last hlast] at h
            cases h
            rw [List.cons_append, decode_last hlast]
          · obtain ⟨m, hm, rfl⟩ := (decode_more_ok (by omega)).mp h
            exact (decode_more_ok (by omega)).mpr ⟨m, ih hm, rfl⟩

/-- A number takes up its bytes and leaves the rest. -/
theorem exists_of_decode {limit n : Nat} {bytes rest : List UInt8}
    (h : decode limit bytes = .ok (n, rest)) :
    ∃ front, bytes = front ++ rest ∧ 0 < front.length ∧ front.length ≤ limit ∧
      n < 128 ^ front.length := by
  induction limit generalizing n bytes with
  | zero => cases h
  | succ limit ih =>
      cases bytes with
      | nil => cases h
      | cons b bytes =>
          by_cases hlast : b.toNat < 128
          · rw [decode_last hlast] at h
            cases h
            exact ⟨[b], rfl, by simp, by simp, by simpa using hlast⟩
          · obtain ⟨m, hm, rfl⟩ := (decode_more_ok (by omega)).mp h
            obtain ⟨front, rfl, _, hle, hlt⟩ := ih hm
            have hb := b.toNat_lt
            refine ⟨b :: front, rfl, by simp, by simpa using hle, ?_⟩
            rw [List.length_cons, Nat.pow_succ]
            omega

/-- A number takes no more bytes than it has groups. -/
theorem length_encode_le {limit n size : Nat} (h : n < 128 ^ size) (hpos : 0 < size) :
    (encode limit n).length ≤ size := by
  induction limit generalizing n size with
  | zero => exact Nat.zero_le _
  | succ limit ih =>
      by_cases hsmall : n < 128
      · rw [encode_small hsmall]
        exact hpos
      · rw [encode_large (by omega), List.length_cons]
        cases size with
        | zero => omega
        | succ size =>
            have hdiv := div_lt_pow h
            cases size with
            | zero => omega
            | succ size => exact Nat.succ_le_succ (ih hdiv (Nat.succ_pos size))

theorem length_encode_le_limit (limit n : Nat) : (encode limit n).length ≤ limit := by
  induction limit generalizing n with
  | zero => exact Nat.le_refl _
  | succ limit ih =>
      by_cases hsmall : n < 128
      · rw [encode_small hsmall]
        exact Nat.succ_le_succ (Nat.zero_le _)
      · rw [encode_large (by omega), List.length_cons]
        exact Nat.succ_le_succ (ih _)

/-- There are two ways not to be a number. -/
theorem decode_error {limit : Nat} {bytes : List UInt8} {failure : Failure}
    (h : decode limit bytes = .error failure) :
    failure = .truncated ∨ failure = .malformedVarint := by
  induction limit generalizing bytes with
  | zero =>
      cases h
      exact .inr rfl
  | succ limit ih =>
      cases bytes with
      | nil =>
          cases h
          exact .inl rfl
      | cons b bytes =>
          by_cases hlast : b.toNat < 128
          · rw [decode_last hlast] at h
            cases h
          · rw [decode_more (by omega)] at h
            cases hbytes : decode limit bytes with
            | error failure' =>
                rw [hbytes] at h
                cases h
                exact ih hbytes
            | ok x =>
                rw [hbytes] at h
                cases h

/-- More bytes do not make a number of too many. -/
theorem decode_malformed_append {limit : Nat} {bytes : List UInt8}
    (h : decode limit bytes = .error .malformedVarint) (more : List UInt8) :
    decode limit (bytes ++ more) = .error .malformedVarint := by
  induction limit generalizing bytes with
  | zero => exact h
  | succ limit ih =>
      cases bytes with
      | nil => cases h
      | cons b bytes =>
          by_cases hlast : b.toNat < 128
          · rw [decode_last hlast] at h
            cases h
          · rw [decode_more (by omega)] at h
            have hbytes : decode limit bytes = .error .malformedVarint := by
              cases hbytes : decode limit bytes with
              | error failure =>
                  rw [hbytes] at h
                  cases h
                  rfl
              | ok x =>
                  rw [hbytes] at h
                  cases h
            rw [List.cons_append, decode_more (by omega), ih hbytes]
            rfl

/-- As many bytes as a number may take, or a byte at the end that is the last
of a number, are enough to tell. -/
theorem decode_ne_truncated {limit : Nat} {bytes : List UInt8}
    (h : limit ≤ bytes.length ∨ ∃ b, bytes.getLast? = some b ∧ b.toNat < 128) :
    decode limit bytes ≠ .error .truncated := by
  induction limit generalizing bytes with
  | zero => exact fun hdecode => nomatch hdecode
  | succ limit ih =>
      cases bytes with
      | nil =>
          rcases h with h | ⟨b, hb, -⟩
          · cases h
          · cases hb
      | cons b bytes =>
          by_cases hlast : b.toNat < 128
          · rw [decode_last hlast]
            exact fun hdecode => nomatch hdecode
          · have hrest : decode limit bytes ≠ .error .truncated := by
              refine ih ?_
              rcases h with h | ⟨last, hend, hsmall⟩
              · exact .inl (Nat.le_of_succ_le_succ h)
              · cases bytes with
                | nil =>
                    obtain rfl := Option.some.inj hend
                    exact absurd hsmall hlast
                | cons b' bytes => exact .inr ⟨last, hend, hsmall⟩
            rw [decode_more (by omega)]
            cases hbytes : decode limit bytes with
            | error failure =>
                rw [hbytes] at hrest
                intro hdecode
                cases hdecode
                exact hrest rfl
            | ok x => exact fun hdecode => nomatch hdecode

/-! ## 3. Length -/

/-- Seven bits less are seven powers of two less. -/
theorem log2_div {n : Nat} (h : 128 ≤ n) : Nat.log2 (n / 128) + 7 = Nat.log2 n := by
  have hle := Nat.log2_self_le (n := n / 128) (by omega)
  have hlt := Nat.lt_log2_self (n := n / 128)
  have hup : 2 ^ (Nat.log2 (n / 128) + 7) = 128 * 2 ^ Nat.log2 (n / 128) := by
    rw [Nat.pow_add, Nat.mul_comm]
  have hup' : 2 ^ (Nat.log2 (n / 128) + 7 + 1) = 128 * 2 ^ (Nat.log2 (n / 128) + 1) := by
    rw [Nat.add_right_comm, Nat.pow_add, Nat.mul_comm]
  refine ((Nat.log2_eq_iff (by omega)).mpr ⟨?_, ?_⟩).symm
  · rw [hup]
    omega
  · rw [hup']
    omega

/-- One byte for seven bits. -/
theorem length_encode {limit n : Nat} (h : n < 128 ^ (limit + 1)) :
    (encode (limit + 1) n).length = Nat.log2 n / 7 + 1 := by
  refine fits_induction (motive := fun limit n => (encode limit n).length = Nat.log2 n / 7 + 1)
    ?_ ?_ h
  · intro limit n hsmall
    have hlog : Nat.log2 n < 7 := by
      by_cases hzero : n = 0
      · rw [hzero, Nat.log2_zero]
        decide
      · exact (Nat.log2_lt hzero).mpr hsmall
    rw [encode_small hsmall, List.length_singleton]
    omega
  · intro limit n hlarge _ ih
    have hlog := log2_div hlarge
    rw [encode_large hlarge, List.length_cons, ih]
    omega

end Varint

/-! ## 4. Bits put together -/

/-- Bits put above others are added to them, as far as there is room. -/
theorem toNat_or_shiftLeft {w k : Nat} {x : BitVec w} (h : x.toNat < 2 ^ k) (hk : k ≤ w)
    (y : BitVec w) : (x ||| y <<< k).toNat = (x.toNat + y.toNat * 2 ^ k) % 2 ^ w := by
  have hpow : 2 ^ w = 2 ^ k * 2 ^ (w - k) := by
    rw [← Nat.pow_add, Nat.add_sub_cancel' hk]
  have hmod : y.toNat * 2 ^ k % 2 ^ w = 2 ^ k * (y.toNat % 2 ^ (w - k)) := by
    rw [hpow, Nat.mul_comm, Nat.mul_mod_mul_left]
  have hlt : 2 ^ k * (y.toNat % 2 ^ (w - k)) + x.toNat < 2 ^ w := by
    have hroom := Nat.mod_lt y.toNat (Nat.two_pow_pos (w - k))
    have hle := Nat.mul_le_mul_left (2 ^ k) hroom
    rw [Nat.succ_eq_add_one, Nat.mul_add, Nat.mul_one, ← hpow] at hle
    omega
  calc (x ||| y <<< k).toNat
      = 2 ^ k * (y.toNat % 2 ^ (w - k)) ||| x.toNat := by
        rw [BitVec.toNat_or, BitVec.toNat_shiftLeft, Nat.shiftLeft_eq, hmod, Nat.or_comm]
    _ = 2 ^ k * (y.toNat % 2 ^ (w - k)) + x.toNat := (Nat.two_pow_add_eq_or_of_lt h _).symm
    _ = (x.toNat + y.toNat * 2 ^ k) % 2 ^ w := by
        rw [← Nat.mod_eq_of_lt hlt, ← hmod, Nat.mod_add_mod, Nat.add_comm]

theorem toNat_or_shiftLeft32 {k x : UInt32} (hk : k.toNat < 32) (h : x.toNat < 2 ^ k.toNat)
    (y : UInt32) : (x ||| y <<< k).toNat = (x.toNat + y.toNat * 2 ^ k.toNat) % 2 ^ 32 := by
  rw [UInt32.toNat_or, UInt32.toNat_shiftLeft, Nat.mod_eq_of_lt hk]
  exact toNat_or_shiftLeft (x := x.toBitVec) h (Nat.le_of_lt hk) y.toBitVec

theorem toNat_or_shiftLeft64 {k x : UInt64} (hk : k.toNat < 64) (h : x.toNat < 2 ^ k.toNat)
    (y : UInt64) : (x ||| y <<< k).toNat = (x.toNat + y.toNat * 2 ^ k.toNat) % 2 ^ 64 := by
  rw [UInt64.toNat_or, UInt64.toNat_shiftLeft, Nat.mod_eq_of_lt hk]
  exact toNat_or_shiftLeft (x := x.toBitVec) h (Nat.le_of_lt hk) y.toBitVec

end SpringDome.Lib.WireFormat
