import Mathlib.Data.List.Basic
import Mathlib.Data.Nat.Bits
import Mathlib.Algebra.Order.Ring.Nat
import Mathlib.Tactic.Ring
import Mathlib.Tactic.NormNum

/-!
# Fixed-width byte encodings of naturals

A multi-byte field is written either least significant byte first, the way a
little-endian machine stores it, or most significant byte first, the way a
network protocol sends it.  Both are lists of `w` bytes, and one is the reversal
of the other, so everything is proved for `leBytes` and read off for `beBytes`.

* `leNat_leBytes`, `beNat_beBytes`: decoding an encoding gives the number modulo
  `256 ^ w`;
* `leBytes_leNat`, `beBytes_beNat`: encoding a decoding gives the bytes back.

`byteSwap` is the conversion between the two orders on the numbers themselves.
It is what `htons` and `htonl` are on a little-endian machine: `leBytes_byteSwap`
says that storing the swapped number writes the network order.
-/

namespace MmoBackend
namespace Bytes

/-! ## Least significant byte first -/

/-- The `w` low bytes of `n`, least significant first. -/
def leBytes : ℕ → ℕ → List UInt8
  | 0, _ => []
  | w + 1, n => UInt8.ofNat n :: leBytes w (n / 256)

/-- The number stored in a list of bytes, least significant first. -/
def leNat : List UInt8 → ℕ
  | [] => 0
  | b :: l => b.toNat + 256 * leNat l

@[simp] theorem leBytes_zero (n : ℕ) : leBytes 0 n = [] := rfl

theorem leBytes_succ (w n : ℕ) :
    leBytes (w + 1) n = UInt8.ofNat n :: leBytes w (n / 256) := rfl

@[simp] theorem leNat_nil : leNat [] = 0 := rfl

@[simp] theorem leNat_cons (b : UInt8) (l : List UInt8) :
    leNat (b :: l) = b.toNat + 256 * leNat l := rfl

@[simp] theorem length_leBytes (w n : ℕ) : (leBytes w n).length = w := by
  induction w generalizing n with
  | zero => rfl
  | succ w ih => rw [leBytes_succ, List.length_cons, ih]

/-- Decoding an encoding truncates to the width. -/
theorem leNat_leBytes (w n : ℕ) : leNat (leBytes w n) = n % 256 ^ w := by
  induction w generalizing n with
  | zero => rw [leBytes_zero, leNat_nil, pow_zero, Nat.mod_one]
  | succ w ih =>
    have hlow : (UInt8.ofNat n).toNat = n % 256 := UInt8.toNat_ofNat'
    rw [leBytes_succ, leNat_cons, hlow, ih, pow_succ', Nat.mod_mul]

theorem leNat_lt (l : List UInt8) : leNat l < 256 ^ l.length := by
  induction l with
  | nil => exact Nat.one_pos
  | cons b l ih =>
    have hb : b.toNat < 256 := b.toNat_lt
    rw [leNat_cons, List.length_cons, pow_succ]
    omega

/-- The low bytes of a number are the front of the bytes it was read from. -/
theorem leBytes_leNat_take {l : List UInt8} {n : ℕ} (h : n ≤ l.length) :
    leBytes n (leNat l) = l.take n := by
  induction n generalizing l with
  | zero => rfl
  | succ n ih =>
    obtain ⟨b, l, rfl⟩ := List.exists_cons_of_length_pos (by omega : 0 < l.length)
    have hb : b.toNat < 256 := b.toNat_lt
    have hdiv : (b.toNat + 256 * leNat l) / 256 = leNat l := by omega
    have hhead : UInt8.ofNat (b.toNat + 256 * leNat l) = b := by
      rw [UInt8.ofNat_eq_iff_mod_eq_toNat]
      omega
    rw [leNat_cons, leBytes_succ, hdiv, hhead, ih (Nat.le_of_succ_le_succ h), List.take_succ_cons]

/-- Encoding a decoding gives the bytes back. -/
theorem leBytes_leNat (l : List UInt8) : leBytes l.length (leNat l) = l := by
  rw [leBytes_leNat_take (le_refl l.length), List.take_length]

/-! ## Most significant byte first -/

/-- The `w` low bytes of `n`, most significant first: the network order. -/
def beBytes (w n : ℕ) : List UInt8 := (leBytes w n).reverse

/-- The number stored in a list of bytes, most significant first. -/
def beNat (l : List UInt8) : ℕ := leNat l.reverse

@[simp] theorem length_beBytes (w n : ℕ) : (beBytes w n).length = w := by
  rw [beBytes, List.length_reverse, length_leBytes]

theorem beNat_beBytes (w n : ℕ) : beNat (beBytes w n) = n % 256 ^ w := by
  rw [beNat, beBytes, List.reverse_reverse, leNat_leBytes]

theorem beNat_beBytes_of_lt {w n : ℕ} (h : n < 256 ^ w) : beNat (beBytes w n) = n := by
  rw [beNat_beBytes, Nat.mod_eq_of_lt h]

theorem beNat_lt (l : List UInt8) : beNat l < 256 ^ l.length := by
  rw [← List.length_reverse, beNat]
  exact leNat_lt _

theorem beBytes_beNat (l : List UInt8) : beBytes l.length (beNat l) = l := by
  rw [beBytes, beNat, ← List.length_reverse, leBytes_leNat, List.reverse_reverse]

/-- Numbers of one width are decoded apart. -/
theorem beNat_inj {l l' : List UInt8} (h : l.length = l'.length) : beNat l = beNat l' ↔ l = l' := by
  refine ⟨fun heq => ?_, congrArg beNat⟩
  rw [← beBytes_beNat l, ← beBytes_beNat l', h, heq]

/-- A word holds any bytes that fit into it. -/
theorem exists_leBytes_toNat {w k : ℕ} (hw : 256 ^ w ≤ 2 ^ k) {l : List UInt8}
    (hl : l.length = w) : ∃ v : BitVec k, leBytes w v.toNat = l := by
  have hlt := leNat_lt l
  rw [hl] at hlt
  refine ⟨BitVec.ofNat k (leNat l), ?_⟩
  rw [BitVec.toNat_ofNat, Nat.mod_eq_of_lt (lt_of_lt_of_le hlt hw), ← hl, leBytes_leNat]

/-! ## Changing the byte order of a number -/

/-- The number whose `w` bytes are those of `n` in the opposite order.  Bytes of
`n` above the width are dropped, as the conversion to the argument type of
`htons` or `htonl` drops them. -/
def byteSwap (w n : ℕ) : ℕ := beNat (leBytes w n)

theorem byteSwap_lt (w n : ℕ) : byteSwap w n < 256 ^ w := by
  have h := beNat_lt (leBytes w n)
  rwa [length_leBytes] at h

/-- What was stored in the network order is loaded swapped. -/
theorem leNat_beBytes (w n : ℕ) : leNat (beBytes w n) = byteSwap w n := rfl

/-- **Storing a swapped number writes the network order.** -/
theorem leBytes_byteSwap (w n : ℕ) : leBytes w (byteSwap w n) = beBytes w n := by
  have h := leBytes_leNat (beBytes w n)
  rwa [length_beBytes] at h

/-- Swapping what was loaded reads the network order. -/
theorem byteSwap_leNat (l : List UInt8) : byteSwap l.length (leNat l) = beNat l := by
  rw [byteSwap, leBytes_leNat]

/-- Swapping twice is truncation to the width. -/
theorem byteSwap_byteSwap (w n : ℕ) : byteSwap w (byteSwap w n) = n % 256 ^ w := by
  have h : byteSwap w (byteSwap w n) = beNat (leBytes w (byteSwap w n)) := rfl
  rw [h, leBytes_byteSwap, beNat_beBytes]

example : leBytes 4 0x01020304 = [4, 3, 2, 1] := by decide

end Bytes
end MmoBackend
