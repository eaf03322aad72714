import Mathlib.Data.List.Basic
import Mathlib.Tactic

/-! Bit strings, most significant bit first.  A word accumulator together with
its bit count denotes one such string, so shifting, masking and comparing the
accumulator are taking, dropping and comparing leading bits. -/
namespace BitString

def value : List Bool → ℕ
  | [] => 0
  | b :: bs => b.toNat * 2 ^ bs.length + value bs

/-- The low `w` bits of `v`, most significant first. -/
def bits : ℕ → ℕ → List Bool
  | 0, _ => []
  | w+1, v => v.testBit w :: bits w v

@[simp] theorem bits_length (w v : ℕ) : (bits w v).length = w := by
  induction w <;> simp_all [bits]

theorem value_lt (l : List Bool) : value l < 2 ^ l.length := by
  induction l with
  | nil => simp [value]
  | cons b bs ih =>
    have hb : b.toNat ≤ 1 := Bool.toNat_le b
    simp only [value,List.length_cons,pow_succ]
    nlinarith

theorem value_replicate_true (n : ℕ) : value (List.replicate n true) = 2 ^ n - 1 := by
  induction n with
  | zero => rfl
  | succ n ih =>
    have hpos : 0 < 2 ^ n := by positivity
    simp only [List.replicate_succ,value,ih,List.length_replicate,Bool.toNat_true,pow_succ]
    omega

theorem value_append (l m : List Bool) :
    value (l ++ m) = value l * 2 ^ m.length + value m := by
  induction l with
  | nil => simp [value]
  | cons b bs ih =>
    simp only [List.cons_append,value,ih,List.length_append,pow_add]
    ring

@[simp] theorem value_bits (w v : ℕ) : value (bits w v) = v % 2 ^ w := by
  induction w with
  | zero => simp [bits,value,Nat.mod_one]
  | succ w ih =>
    simp only [bits,value,bits_length,ih,pow_succ]
    rw [Nat.mod_mul,Nat.toNat_testBit]
    ring

theorem value_injective {l m : List Bool} (hlen : l.length = m.length)
    (hval : value l = value m) : l = m := by
  induction l generalizing m with
  | nil => exact (List.length_eq_zero_iff.mp hlen.symm).symm
  | cons b bs ih =>
    cases m with
    | nil => simp at hlen
    | cons c cs =>
      have hl : bs.length = cs.length := by simpa using hlen
      have hb := value_lt bs
      have hc := value_lt cs
      simp only [value,hl] at hval
      rw [hl] at hb
      cases b <;> cases c <;> simp only [Bool.toNat_true,Bool.toNat_false,zero_mul,one_mul,
        zero_add] at hval
      · rw [ih hl hval]
      · omega
      · omega
      · rw [ih hl (by omega)]

@[simp] theorem bits_value (l : List Bool) : bits l.length (value l) = l :=
  value_injective (by simp) (by simp [Nat.mod_eq_of_lt (value_lt l)])

theorem value_take (l : List Bool) (n : ℕ) :
    value (l.take n) = value l / 2 ^ (l.length - n) := by
  conv_rhs => rw [← List.take_append_drop n l,value_append]
  have hlt := value_lt (l.drop n)
  have hlen : (l.take n ++ l.drop n).length - n = (l.drop n).length := by simp
  rw [hlen,Nat.add_comm,Nat.add_mul_div_right _ _ (by positivity),Nat.div_eq_of_lt hlt]
  simp

theorem value_drop (l : List Bool) (n : ℕ) :
    value (l.drop n) = value l % 2 ^ (l.length - n) := by
  conv_rhs => rw [← List.take_append_drop n l,value_append]
  have hlt := value_lt (l.drop n)
  have hlen : (l.take n ++ l.drop n).length - n = (l.drop n).length := by simp
  rw [hlen,Nat.add_comm,Nat.add_mul_mod_self_right,Nat.mod_eq_of_lt hlt]

/-- A fixed-width word leads a bit string exactly when the shifted accumulator equals it. -/
theorem bits_leads_iff {w c : ℕ} (hc : c < 2 ^ w) (l : List Bool) :
    bits w c <+: l ↔ w ≤ l.length ∧ value l / 2 ^ (l.length - w) = c := by
  constructor
  · intro h
    have hw : w ≤ l.length := by simpa using h.length_le
    have ht : bits w c = l.take w := by simpa using List.prefix_iff_eq_take.mp h
    refine ⟨hw,?_⟩
    rw [← value_take,← ht,value_bits,Nat.mod_eq_of_lt hc]
  · rintro ⟨hw,hv⟩
    rw [List.prefix_iff_eq_take,bits_length]
    apply value_injective
    · simp [hw]
    · rw [value_bits,Nat.mod_eq_of_lt hc,value_take,hv]

end BitString
