import Mathlib.Algebra.GroupWithZero.Nat
import Mathlib.Data.List.Induction

/-!
# Fixed-width big-endian numbers

`toBytesBE width value` is a number as a given number of bytes, most significant first, and
`ofBytesBE` reads such bytes back.

* `ofBytesBE_toBytesBE`: a number that fits the width is read back.
* `toBytesBE_ofBytesBE`: bytes of the width are those of the number they read as.
* `ofBytesBE_lt`: that number fits the width.

So both are bijections between the numbers below `256 ^ width` and the lists of `width` bytes. A
number that does not fit is cut to its low bytes.
-/

namespace GroupAgent.Lib

/-- The low `width` bytes of a number, most significant first. -/
def toBytesBE : Nat → Nat → List UInt8
  | 0, _ => []
  | width + 1, value => toBytesBE width (value / 256) ++ [UInt8.ofNat value]

def ofBytesBE (bytes : List UInt8) : Nat := bytes.foldl (fun n byte => n * 256 + byte.toNat) 0

@[simp] theorem toBytesBE_length (width value : Nat) : (toBytesBE width value).length = width := by
  induction width generalizing value with
  | zero => rfl
  | succ width ih => simp [toBytesBE, ih]

theorem ofBytesBE_snoc (bytes : List UInt8) (byte : UInt8) :
    ofBytesBE (bytes ++ [byte]) = ofBytesBE bytes * 256 + byte.toNat := by
  unfold ofBytesBE
  rw [List.foldl_append]
  rfl

/-- Bytes that are wide enough for a number keep it. -/
theorem ofBytesBE_toBytesBE {width value : Nat} (h : value < 256 ^ width) :
    ofBytesBE (toBytesBE width value) = value := by
  induction width generalizing value with
  | zero =>
    have : value = 0 := by simpa using h
    subst this
    rfl
  | succ width ih =>
    have hhigh : value / 256 < 256 ^ width :=
      Nat.div_lt_of_lt_mul (by rw [Nat.pow_succ] at h; omega)
    have hlow : (UInt8.ofNat value).toNat = value % 256 := by simp
    rw [toBytesBE, ofBytesBE_snoc, ih hhigh, hlow]
    omega

theorem ofBytesBE_lt (bytes : List UInt8) : ofBytesBE bytes < 256 ^ bytes.length := by
  induction bytes using List.reverseRecOn with
  | nil => exact Nat.one_pos
  | append_singleton bytes byte ih =>
    have hbyte := byte.toNat_lt
    rw [ofBytesBE_snoc, List.length_append, List.length_singleton, Nat.pow_succ]
    omega

/-- Bytes are the big-endian form of the number they stand for. -/
theorem toBytesBE_ofBytesBE (bytes : List UInt8) :
    toBytesBE bytes.length (ofBytesBE bytes) = bytes := by
  induction bytes using List.reverseRecOn with
  | nil => rfl
  | append_singleton bytes byte ih =>
    have hbyte := byte.toNat_lt
    have hhigh : (ofBytesBE bytes * 256 + byte.toNat) / 256 = ofBytesBE bytes := by omega
    have hlow : UInt8.ofNat (ofBytesBE bytes * 256 + byte.toNat) = byte := by
      apply UInt8.toNat_inj.mp
      rw [UInt8.toNat_ofNat']
      omega
    rw [List.length_append, List.length_singleton, toBytesBE, ofBytesBE_snoc, hhigh, hlow, ih]

end GroupAgent.Lib
