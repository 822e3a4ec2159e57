import Mathlib

/-!
Numbers as bytes, the most significant first, and records of several such fields of one width.
-/

namespace TaskRunner.Base

/-- The last `width` bytes of a number. -/
def toBigEndian : ℕ → ℕ → List UInt8
  | 0, _ => []
  | width + 1, n => toBigEndian width (n / 256) ++ [UInt8.ofNat n]

def ofBigEndian (bytes : List UInt8) : ℕ := bytes.foldl (fun n byte => n * 256 + byte.toNat) 0

@[simp] theorem length_toBigEndian (width n : ℕ) : (toBigEndian width n).length = width := by
  induction width generalizing n with
  | zero => rfl
  | succ width ih => rw [toBigEndian, List.length_append, ih, List.length_singleton]

theorem ofBigEndian_concat (bytes : List UInt8) (byte : UInt8) :
    ofBigEndian (bytes ++ [byte]) = ofBigEndian bytes * 256 + byte.toNat := by
  rw [ofBigEndian, List.foldl_append, List.foldl_cons, List.foldl_nil, ofBigEndian]

theorem ofBigEndian_toBigEndian (width n : ℕ) : ofBigEndian (toBigEndian width n) = n % 256 ^ width := by
  induction width generalizing n with
  | zero =>
    rw [pow_zero, Nat.mod_one]
    rfl
  | succ width ih =>
    rw [toBigEndian, ofBigEndian_concat, ih, UInt8.toNat_ofNat', pow_succ' 256 width, Nat.mod_mul]
    omega

/-! ### Records -/

/-- The fields one after another. -/
def packBigEndian (width : ℕ) (fields : List ℕ) : List UInt8 := fields.flatMap (toBigEndian width)

/-- As many fields as asked for, from the front. -/
def unpackBigEndian (width : ℕ) : ℕ → List UInt8 → List ℕ
  | 0, _ => []
  | count + 1, bytes => ofBigEndian (bytes.take width) :: unpackBigEndian width count (bytes.drop width)

theorem length_packBigEndian (width : ℕ) (fields : List ℕ) :
    (packBigEndian width fields).length = width * fields.length := by
  induction fields with
  | nil => rfl
  | cons field rest ih =>
    rw [packBigEndian, List.flatMap_cons, List.length_append, length_toBigEndian, ← packBigEndian, ih, List.length_cons,
      Nat.mul_succ, Nat.add_comm]

/-- Fields that fit come back, whatever follows them. -/
theorem unpack_pack {width : ℕ} {fields : List ℕ} (fit : ∀ field ∈ fields, field < 256 ^ width) (rest : List UInt8) :
    unpackBigEndian width fields.length (packBigEndian width fields ++ rest) = fields := by
  induction fields with
  | nil => rfl
  | cons field fields ih =>
    have length := length_toBigEndian width field
    rw [packBigEndian, List.flatMap_cons, ← packBigEndian, List.length_cons, unpackBigEndian, List.append_assoc,
      List.take_left' length, List.drop_left' length, ofBigEndian_toBigEndian,
      Nat.mod_eq_of_lt (fit field List.mem_cons_self), ih fun other member => fit other (List.mem_cons_of_mem _ member)]

end TaskRunner.Base
