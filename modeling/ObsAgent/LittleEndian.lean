import Mathlib.Data.List.Basic
import Mathlib.Tactic

/-! Records of fixed layout as octets: little-endian fields at fixed offsets, reading behind
writing, and how much of a record one field depends on. -/
namespace ObsAgent
namespace LittleEndian

def ofBytes : List UInt8 → ℕ
  | [] => 0
  | b :: bs => b.toNat + 256*ofBytes bs

/-- The `w` octets of a number, the lowest first. -/
def toBytes : ℕ → ℕ → List UInt8
  | 0, _ => []
  | w+1, n => (n % 256).toUInt8 :: toBytes w (n/256)

/-- The number in the `w` octets at an offset. -/
def field (bytes : List UInt8) (off w : ℕ) : ℕ := ofBytes ((bytes.drop off).take w)

@[simp] theorem toBytes_length (w n : ℕ) : (toBytes w n).length = w := by
  induction w generalizing n with
  | zero => rfl
  | succ w ih => simp [toBytes,ih]

theorem ofBytes_toBytes {w n : ℕ} (h : n < 256^w) : ofBytes (toBytes w n) = n := by
  induction w generalizing n with
  | zero => simpa [toBytes,ofBytes,eq_comm] using h
  | succ w ih =>
    have hdiv : n/256 < 256^w := Nat.div_lt_of_lt_mul (by rwa [← pow_succ'])
    have hlow : (n % 256).toUInt8.toNat = n % 256 := by simp
    rw [toBytes,ofBytes,ih hdiv,hlow]
    omega

theorem drop_skip (w n : ℕ) (rest : List UInt8) {off : ℕ} (h : w ≤ off) :
    (toBytes w n ++ rest).drop off = rest.drop (off-w) := by
  rw [List.drop_append,List.drop_of_length_le (by simpa using h),List.nil_append,toBytes_length]

theorem field_skip (w n : ℕ) (rest : List UInt8) {off w' : ℕ} (h : w ≤ off) :
    field (toBytes w n ++ rest) off w' = field rest (off-w) w' := by
  rw [field,field,drop_skip w n rest h]

theorem field_here {w n : ℕ} (rest : List UInt8) (h : n < 256^w) :
    field (toBytes w n ++ rest) 0 w = n := by
  rw [field,List.drop_zero,List.take_append_of_le_length (by simp),
    List.take_of_length_le (by simp),ofBytes_toBytes h]

end LittleEndian
end ObsAgent
