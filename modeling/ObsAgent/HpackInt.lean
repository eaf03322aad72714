import ObsAgent.HpackRoundTrip

/-! The integers of the format, for any octets whatsoever: what is refused, what is consumed, and
how far the accumulator of the loop gets. -/
namespace ObsAgent
namespace Hpack

open Rfc7541

/-- Octets of a continuation that do not end it. -/
def Unended (tail : List UInt8) : Prop := ∀ c ∈ tail, 128 ≤ c.toNat

theorem decodeIntLoop_eq_none_iff (tail : List UInt8) (v : ℕ) {k : ℕ} (hk : k ≤ 4) :
    decodeIntLoop tail v (7*k) = none ↔ Unended (tail.take (5-k)) := by
  induction tail generalizing v k with
  | nil => simp [decodeIntLoop,Unended]
  | cons b tail ih =>
    have htake : (b :: tail).take (5-k) = b :: tail.take (4-k) := by
      rw [show 5-k = (4-k)+1 by omega,List.take_succ_cons]
    rw [htake,Unended,List.forall_mem_cons,decodeIntLoop]
    by_cases hb : b.toNat < 128
    · simp [(and_0x80_eq_zero b).mpr hb,hb]
    have hflag : ¬ b &&& 0x80 = 0 := by rw [and_0x80_eq_zero]; exact hb
    simp only [if_neg hflag,Nat.not_lt.mp hb,true_and]
    rcases Nat.lt_or_ge k 4 with hlt | hge
    · rw [if_neg (by omega),show 7*k+7 = 7*(k+1) by ring,ih _ (by omega),Unended]
      simp only [show 5-(k+1) = 4-k by omega]
    · obtain rfl : k = 4 := by omega
      simp

theorem unended_take_iff (tail : List UInt8) (n : ℕ) :
    Unended (tail.take n) ↔ Unended tail ∨ n ≤ tail.length ∧ Unended (tail.take n) := by
  constructor
  · intro h
    rcases Nat.lt_or_ge tail.length n with hlt | hge
    · rw [List.take_of_length_le hlt.le] at h
      exact Or.inl h
    · exact Or.inr ⟨hge,h⟩
  · rintro (h | h)
    · exact fun c hc => h c (List.mem_of_mem_take hc)
    · exact h.2

/-- The loop with a limit for its accumulator, on 64 bits: none if an addition leaves the limit or a
shift the word. -/
def decodeIntLoopWithin (limit : ℕ) : List UInt8 → ℕ → ℕ → Option (Option (ℕ × List UInt8))
  | [], _, _ => some none
  | b :: rest, v, shift =>
    let v := v + ((b &&& 0x7f).toNat <<< shift)
    if limit < v ∨ 64 ≤ shift then none
    else if b &&& 0x80 = 0 then some (some (v,rest))
    else if shift + 7 > 28 then some none
    else decodeIntLoopWithin limit rest v (shift + 7)

def decodeIntWithin (limit : ℕ) (src : List UInt8) (prefixBits : ℕ) :
    Option (Option (ℕ × List UInt8)) :=
  match src with
  | [] => some none
  | b :: rest =>
    let mask : UInt8 := (1 <<< prefixBits.toUInt8) - 1
    let v := (b &&& mask).toNat
    if limit < v then none
    else if v < mask.toNat then some (some (v,rest)) else decodeIntLoopWithin limit rest v 0

/-- The accumulator stays below the prefix and the groups that have been read. -/
theorem decodeIntLoopWithin_eq {limit : ℕ} (base : ℕ) (hlimit : base + 2^35 - 1 ≤ limit)
    (tail : List UInt8) {v k : ℕ} (hk : k ≤ 4) (hv : v < base + 2^(7*k)) :
    decodeIntLoopWithin limit tail v (7*k) = some (decodeIntLoop tail v (7*k)) := by
  induction tail generalizing v k with
  | nil => rfl
  | cons b tail ih =>
    have hgroup : (b &&& 0x7f).toNat ≤ 127 := by
      rw [toNat_and_0x7f]
      omega
    have hpow : 2^(7*(k+1)) = 128 * 2^(7*k) := by
      rw [show 7*(k+1) = 7*k + 7 by ring,pow_add]
      ring
    have hnext : v + (b &&& 0x7f).toNat <<< (7*k) < base + 2^(7*(k+1)) := by
      rw [Nat.shiftLeft_eq,hpow]
      have hmul := Nat.mul_le_mul_right (2^(7*k)) hgroup
      omega
    have hmax : 2^(7*(k+1)) ≤ 2^35 := Nat.pow_le_pow_right (by omega) (by omega)
    rw [decodeIntLoopWithin,decodeIntLoop,if_neg (by omega)]
    by_cases hend : b &&& 0x80 = 0
    · rw [if_pos hend,if_pos hend]
    rw [if_neg hend,if_neg hend]
    by_cases hover : 7*k + 7 > 28
    · rw [if_pos hover,if_pos hover]
    · rw [if_neg hover,if_neg hover,show 7*k + 7 = 7*(k+1) by ring]
      exact ih (by omega) hnext

theorem decodeIntWithin_eq {n : ℕ} (hn : Width n) (src : List UInt8) :
    decodeIntWithin (2^7 - 1 + 2^35 - 1) src n = some (decodeInt src n) := by
  cases src with
  | nil => rfl
  | cons b tail =>
    have hmask : 2^n - 1 ≤ 2^7 - 1 := by rcases hn with rfl | rfl | rfl | rfl <;> norm_num
    have hv := Nat.mod_lt b.toNat (Nat.two_pow_pos n)
    simp only [decodeIntWithin,decodeInt,toNat_mask hn,toNat_and_mask hn]
    rw [if_neg (by omega)]
    split_ifs
    · rfl
    · exact decodeIntLoopWithin_eq (2^n - 1) (k := 0) (by omega) tail (by omega)
        (by omega)

theorem decodeIntLoopWithin_le {limit : ℕ} {tail rest : List UInt8} {v shift w : ℕ}
    (h : decodeIntLoopWithin limit tail v shift = some (some (w,rest))) : w ≤ limit := by
  induction tail generalizing v shift with
  | nil => simp [decodeIntLoopWithin] at h
  | cons b tail ih =>
    simp only [decodeIntLoopWithin] at h
    split_ifs at h with hout
    · simp only [Option.some.injEq,Prod.mk.injEq] at h
      omega
    · simp at h
    · exact ih h

theorem decodeIntWithin_le {limit n : ℕ} {src rest : List UInt8} {v : ℕ}
    (h : decodeIntWithin limit src n = some (some (v,rest))) : v ≤ limit := by
  cases src with
  | nil => simp [decodeIntWithin] at h
  | cons b tail =>
    simp only [decodeIntWithin] at h
    split_ifs at h with hout
    · simp only [Option.some.injEq,Prod.mk.injEq] at h
      omega
    · exact decodeIntLoopWithin_le h

theorem decodeInt_eq_none_iff {n : ℕ} (hn : Width n) (src : List UInt8) :
    decodeInt src n = none ↔ src = [] ∨ ∃ b tail, src = b :: tail ∧ b.toNat % 2^n = 2^n - 1 ∧
      (Unended tail ∨ 5 ≤ tail.length ∧ Unended (tail.take 5)) := by
  cases src with
  | nil => simp [decodeInt]
  | cons b tail =>
    have hlt := Nat.mod_lt b.toNat (Nat.two_pow_pos n)
    have hloop := decodeIntLoop_eq_none_iff tail (b.toNat % 2^n) (k := 0) (by omega)
    simp only [decodeInt,toNat_mask hn,toNat_and_mask hn]
    split_ifs with hv
    · have hne : b.toNat % 2^n ≠ 2^n - 1 := by omega
      simp [hne]
    · have heq : b.toNat % 2^n = 2^n - 1 := by omega
      rw [Nat.mul_zero,Nat.sub_zero,unended_take_iff] at hloop
      rw [hloop]
      simp [heq]

/-- An integer is read back from its code whatever the bits above the prefix and the octets behind
it, only an unended code is refused, and no octets overflow the word of the accumulator. -/
theorem decodeInt_exact {n : ℕ} (hn : Width n) :
    (∀ (high v : ℕ) (rest : List UInt8), high < 2^(8-n) → v < 2^n - 1 + 2^35 →
      decodeInt (encodeInt n high v ++ rest) n = some (v,rest)) ∧
    (∀ src, decodeInt src n = none ↔ src = [] ∨
      ∃ b tail, src = b :: tail ∧ b.toNat % 2^n = 2^n - 1 ∧
        (Unended tail ∨ 5 ≤ tail.length ∧ Unended (tail.take 5))) ∧
    (∀ src v rest, decodeInt src n = some (v,rest) →
      rest <:+ src ∧ rest.length < src.length ∧ v ≤ 2^7 - 1 + 2^35 - 1) ∧
    ∀ src, decodeIntWithin (2^7 - 1 + 2^35 - 1) src n = some (decodeInt src n) := by
  refine ⟨?_,decodeInt_eq_none_iff hn,?_,decodeIntWithin_eq hn⟩
  · intro high v rest hhigh hv
    have hfits : (high+1)*2^n ≤ 256 := by
      have hpow : 2^(8-n) * 2^n = 256 := by rcases hn with rfl | rfl | rfl | rfl <;> rfl
      rw [← hpow]
      exact Nat.mul_le_mul_right _ hhigh
    obtain ⟨b,cont,heq,hcode,_,hlen⟩ := encodeInt_code n high v hfits
    rw [heq,List.cons_append,decodeInt_code hn hcode,if_pos (hlen hv)]
  · intro src v rest h
    have hwithin := decodeIntWithin_eq hn src
    rw [h] at hwithin
    obtain ⟨hsuffix,hlt⟩ := decodeInt_consumes h
    exact ⟨hsuffix,hlt,decodeIntWithin_le hwithin⟩

/-- 1337 behind a prefix of five bits, the example of the format. -/
theorem decodeInt_exact_1337 :
    encodeInt 5 7 1337 = [255,154,10] ∧ decodeInt ([255,154,10] ++ [1]) 5 = some (1337,[1]) ∧
    decodeInt [255,154] 5 = none := by
  have henc : encodeInt 5 7 1337 = [255,154,10] := by decide +kernel
  obtain ⟨hcode,hnone,-,-⟩ := decodeInt_exact (n := 5) (by simp [Width])
  refine ⟨henc,henc ▸ hcode 7 1337 [1] (by norm_num) (by norm_num),?_⟩
  exact (hnone _).mpr (Or.inr ⟨255,[154],rfl,by decide,Or.inl (by simp [Unended])⟩)

end Hpack
end ObsAgent
