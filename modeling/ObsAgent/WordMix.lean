import Mathlib.Data.Int.ModEq
import Mathlib.Data.BitVec
import Mathlib.Tactic

/-! Steps of word mixers on words of any width: none of them loses a bit of its input. -/
namespace WordMix

variable {w : ℕ}

theorem eq_zero_of_shiftRight_eq {d : BitVec w} {k : ℕ} (hk : 0 < k) (h : d >>> k = d) :
    d = 0#w := by
  have hnat : d.toNat / 2^k = d.toNat := by
    have heq := congrArg BitVec.toNat h
    rwa [BitVec.toNat_ushiftRight,Nat.shiftRight_eq_div_pow] at heq
  apply BitVec.eq_of_toNat_eq
  rw [BitVec.toNat_zero]
  by_contra hne
  have hlt := Nat.div_lt_self (Nat.pos_of_ne_zero hne) (Nat.one_lt_two_pow hk.ne')
  omega

theorem xorShift_injective {k : ℕ} (hk : 0 < k) :
    Function.Injective fun z : BitVec w => z ^^^ (z >>> k) := by
  have hswap : ∀ a b c d : Bool, (a ^^ c) = (b ^^ d) → (c ^^ d) = (a ^^ b) := by decide
  intro x y h
  rw [← BitVec.xor_eq_zero_iff]
  apply eq_zero_of_shiftRight_eq hk
  rw [BitVec.ushiftRight_xor_distrib]
  apply BitVec.eq_of_getLsbD_eq
  intro i _
  have hbit := congrArg (fun z : BitVec w => z.getLsbD i) h
  simp only [BitVec.getLsbD_xor] at hbit ⊢
  exact hswap _ _ _ _ hbit

theorem mul_odd_injective {c : BitVec w} (hc : c.toNat % 2 = 1) :
    Function.Injective fun z : BitVec w => z * c := by
  intro x y h
  have hcop : (2^w).gcd c.toNat = 1 := (Nat.coprime_two_left.mpr (Nat.odd_iff.mpr hc)).pow_left w
  have hnat := congrArg BitVec.toNat h
  simp only [BitVec.toNat_mul] at hnat
  have hmod : x.toNat ≡ y.toNat [MOD 2^w] := Nat.ModEq.cancel_right_of_coprime hcop hnat
  exact BitVec.eq_of_toNat_eq (Nat.ModEq.eq_of_lt_of_lt hmod x.isLt y.isLt)

/-- Two words side by side in one that is wide enough for both. -/
def pack (w : ℕ) {m n : ℕ} (hi : BitVec m) (lo : BitVec n) : BitVec w :=
  (hi.setWidth w <<< n) ^^^ lo.setWidth w

theorem getLsbD_pack_low {m n : ℕ} (hw : n + m ≤ w) (hi : BitVec m) (lo : BitVec n) {i : ℕ}
    (h : i < n) : (pack w hi lo).getLsbD i = lo.getLsbD i := by
  simp [pack,h,show i < w by omega]

theorem getLsbD_pack_high {m n : ℕ} (hw : n + m ≤ w) (hi : BitVec m) (lo : BitVec n) {i : ℕ}
    (h : i < m) : (pack w hi lo).getLsbD (n+i) = hi.getLsbD i := by
  simp [pack,show n + i < w by omega]

theorem pack_inj {m n : ℕ} (hw : n + m ≤ w) {hi hi' : BitVec m} {lo lo' : BitVec n} :
    pack w hi lo = pack w hi' lo' ↔ hi = hi' ∧ lo = lo' := by
  constructor
  · intro h
    constructor
    · apply BitVec.eq_of_getLsbD_eq
      intro i hi'
      rw [← getLsbD_pack_high hw _ lo hi',h,getLsbD_pack_high hw _ lo' hi']
    · apply BitVec.eq_of_getLsbD_eq
      intro i hi'
      rw [← getLsbD_pack_low hw hi _ hi',h,getLsbD_pack_low hw _ _ hi']
  · rintro ⟨rfl,rfl⟩
    rfl

end WordMix
