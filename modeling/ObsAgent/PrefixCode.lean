import Mathlib.Data.List.Sort
import ObsAgent.BitString

/-! Prefix codes over an arbitrary alphabet: unique parsing of a concatenation of
code words followed by a tail that no code word leads, and a linear certificate
that a table of numeric code words is prefix free and complete. -/
namespace PrefixCode

variable {α : Type*}

/-- No code word leads another one. -/
def PrefixFree (code : α → List Bool) : Prop := ∀ a b, code a <+: code b → a = b

def encode (code : α → List Bool) (xs : List α) : List Bool := xs.flatMap code

/-- No code word leads the string, so a decoder waits for more input. -/
def Stuck (code : α → List Bool) (l : List Bool) : Prop := ∀ a, ¬ code a <+: l

@[simp] theorem encode_nil (code : α → List Bool) : encode code [] = [] := rfl
@[simp] theorem encode_cons (code : α → List Bool) (x : α) (xs : List α) :
    encode code (x :: xs) = code x ++ encode code xs := by simp [encode]
@[simp] theorem encode_append (code : α → List Bool) (xs ys : List α) :
    encode code (xs ++ ys) = encode code xs ++ encode code ys := by simp [encode]

theorem head_unique {code : α → List Bool} (hp : PrefixFree code) {a b : α} {x y : List Bool}
    (h : code a ++ x = code b ++ y) : a = b := by
  rcases List.prefix_or_prefix_of_prefix ⟨x,rfl⟩ (h ▸ List.prefix_append (code b) y) with hab | hba
  · exact hp a b hab
  · exact (hp b a hba).symm

theorem parsed_initial {code : α → List Bool} (hp : PrefixFree code) {xs ys : List α}
    {tail pad : List Bool} (hpad : Stuck code pad)
    (h : encode code ys ++ tail = encode code xs ++ pad) : ys <+: xs := by
  induction ys generalizing xs with
  | nil => exact List.nil_prefix
  | cons y ys ih =>
    cases xs with
    | nil =>
      refine absurd ⟨encode code ys ++ tail,?_⟩ (hpad y)
      simpa using h
    | cons x xs =>
      have hyx : y = x := by
        apply head_unique hp (x := encode code ys ++ tail) (y := encode code xs ++ pad)
        simpa using h
      subst y
      have hrest : encode code ys ++ tail = encode code xs ++ pad := by simpa using h
      exact (List.cons_prefix_cons).mpr ⟨rfl,ih hrest⟩

theorem parse_unique {code : α → List Bool} (hp : PrefixFree code) {xs ys : List α}
    {tail pad : List Bool} (htail : Stuck code tail) (hpad : Stuck code pad)
    (h : encode code ys ++ tail = encode code xs ++ pad) : ys = xs ∧ tail = pad := by
  have hyx := parsed_initial hp hpad h
  have hxy := parsed_initial hp htail h.symm
  have he : ys = xs := hyx.eq_of_length (le_antisymm hyx.length_le hxy.length_le)
  subst ys
  exact ⟨rfl,List.append_cancel_left h⟩

/-- A code word `(c,w)` is the number `c` written in `w` bits.  Left aligned in `N` bits it covers the
interval from `low` to `high`; the words are prefix free when these intervals, in increasing order,
tile `2^N`. -/
def word (p : ℕ × ℕ) : List Bool := BitString.bits p.2 p.1

def low (N : ℕ) (p : ℕ × ℕ) : ℕ := p.1 * 2 ^ (N - p.2)
def high (N : ℕ) (p : ℕ × ℕ) : ℕ := (p.1 + 1) * 2 ^ (N - p.2)

def tiles (N : ℕ) : ℕ → List (ℕ × ℕ) → ℕ → Bool
  | a, [], b => a == b
  | a, p :: ps, b => Nat.ble p.2 N && low N p == a && tiles N (high N p) ps b

/-- Two words whose intervals do not meet. -/
def Apart (N : ℕ) (p q : ℕ × ℕ) : Prop := high N p ≤ low N q ∨ high N q ≤ low N p

theorem low_lt_high (N : ℕ) (p : ℕ × ℕ) : low N p < high N p := by
  have h : 0 < 2 ^ (N - p.2) := by positivity
  simp only [low,high]
  nlinarith

theorem tiles_bounds {N a b : ℕ} {l : List (ℕ × ℕ)} (h : tiles N a l b = true) :
    a ≤ b ∧ ∀ p ∈ l, p.2 ≤ N ∧ a ≤ low N p ∧ high N p ≤ b := by
  induction l generalizing a with
  | nil => simp_all [tiles]
  | cons p ps ih =>
    simp only [tiles,Bool.and_eq_true,Nat.ble_eq,beq_iff_eq] at h
    obtain ⟨⟨hw,hl⟩,ht⟩ := h
    obtain ⟨hb,hall⟩ := ih ht
    have hlt := low_lt_high N p
    refine ⟨by omega,?_⟩
    intro q hq
    rcases List.mem_cons.mp hq with rfl | hq
    · exact ⟨hw,by omega,hb⟩
    · obtain ⟨hqw,hql,hqh⟩ := hall q hq
      exact ⟨hqw,by omega,hqh⟩

theorem tiles_pairwise {N a b : ℕ} {l : List (ℕ × ℕ)} (h : tiles N a l b = true) :
    l.Pairwise (Apart N) := by
  induction l generalizing a with
  | nil => exact List.Pairwise.nil
  | cons p ps ih =>
    simp only [tiles,Bool.and_eq_true,Nat.ble_eq,beq_iff_eq] at h
    refine List.Pairwise.cons ?_ (ih h.2)
    intro q hq
    exact Or.inl ((tiles_bounds h.2).2 q hq).2.1

theorem word_fits {N b : ℕ} {p : ℕ × ℕ} (hw : p.2 ≤ N) (hh : high N p ≤ b) (hb : b ≤ 2 ^ N) :
    p.1 < 2 ^ p.2 := by
  have hpow : 2 ^ N = 2 ^ p.2 * 2 ^ (N - p.2) := by rw [← pow_add]; congr 1; omega
  have hpos : 0 < 2 ^ (N - p.2) := by positivity
  have hle : (p.1 + 1) * 2 ^ (N - p.2) ≤ 2 ^ p.2 * 2 ^ (N - p.2) := by
    simp only [high] at hh
    omega
  exact Nat.le_of_mul_le_mul_right hle hpos

theorem low_mem_of_leads {N : ℕ} {p q : ℕ × ℕ} (hp : p.1 < 2 ^ p.2) (hq : q.1 < 2 ^ q.2)
    (hN : q.2 ≤ N) (h : word p <+: word q) : low N p ≤ low N q ∧ low N q < high N p := by
  obtain ⟨hw,hv⟩ := (BitString.bits_leads_iff hp (word q)).mp h
  simp only [word,BitString.bits_length,BitString.value_bits,Nat.mod_eq_of_lt hq] at hw hv
  have hpow : 2 ^ (N - p.2) = 2 ^ (q.2 - p.2) * 2 ^ (N - q.2) := by
    rw [← pow_add]; congr 1; omega
  have hpos : 0 < 2 ^ (q.2 - p.2) := by positivity
  have hpos' : 0 < 2 ^ (N - q.2) := by positivity
  have hlo : p.1 * 2 ^ (q.2 - p.2) ≤ q.1 := by rw [← hv]; exact Nat.div_mul_le_self _ _
  have hhi : q.1 < (p.1 + 1) * 2 ^ (q.2 - p.2) := by
    rw [← hv]
    exact Nat.lt_mul_of_div_lt (Nat.lt_succ_self _) hpos
  simp only [low,high,hpow,← mul_assoc]
  exact ⟨Nat.mul_le_mul_right _ hlo,Nat.mul_lt_mul_of_pos_right hhi hpos'⟩

/-- The certificate: a table that some reordering shows to tile is prefix free. -/
theorem eq_of_word_leads {N : ℕ} {table sorted : List (ℕ × ℕ)} (hperm : sorted.Perm table)
    (ht : tiles N 0 sorted (2 ^ N) = true) {i j : Fin table.length}
    (h : word (table.get i) <+: word (table.get j)) : i = j := by
  have hbounds := (tiles_bounds ht).2
  have hfit : ∀ k : Fin table.length, (table.get k).2 ≤ N ∧
      (table.get k).1 < 2 ^ (table.get k).2 := by
    intro k
    obtain ⟨hw,_,hh⟩ := hbounds _ (hperm.mem_iff.mpr (List.get_mem table k))
    exact ⟨hw,word_fits hw hh le_rfl⟩
  have hpair : table.Pairwise (Apart N) := by
    refine (hperm.pairwise_iff ?_).mp (tiles_pairwise ht)
    intro p q hpq
    exact Or.symm hpq
  have hin := low_mem_of_leads (N := N) (hfit i).2 (hfit j).2 (hfit j).1 h
  have hi := low_lt_high N (table.get i)
  have hj := low_lt_high N (table.get j)
  by_contra hne
  have hapart : Apart N (table.get i) (table.get j) := by
    rcases lt_or_gt_of_ne hne with hlt | hgt
    · exact List.pairwise_iff_get.mp hpair i j hlt
    · exact Or.symm (List.pairwise_iff_get.mp hpair j i hgt)
  rcases hapart with ha | ha <;> omega

theorem tiles_cover {N a b v : ℕ} {l : List (ℕ × ℕ)} (h : tiles N a l b = true) (ha : a ≤ v)
    (hb : v < b) : ∃ p ∈ l, low N p ≤ v ∧ v < high N p := by
  induction l generalizing a with
  | nil =>
    simp only [tiles,beq_iff_eq] at h
    omega
  | cons p ps ih =>
    simp only [tiles,Bool.and_eq_true,beq_iff_eq] at h
    by_cases hv : v < high N p
    · exact ⟨p,by simp,by omega,hv⟩
    · obtain ⟨q,hq,hlow,hhigh⟩ := ih h.2 (by omega)
      exact ⟨q,by simp [hq],hlow,hhigh⟩

theorem word_leads_of_mem {p : ℕ × ℕ} {l : List Bool} (hp : p.1 < 2 ^ p.2)
    (hw : p.2 ≤ l.length) (hlow : low l.length p ≤ BitString.value l)
    (hhigh : BitString.value l < high l.length p) : word p <+: l := by
  refine (BitString.bits_leads_iff hp l).mpr ⟨hw,?_⟩
  have hpos : 0 < 2 ^ (l.length - p.2) := by positivity
  apply le_antisymm
  · exact Nat.lt_succ_iff.mp ((Nat.div_lt_iff_lt_mul hpos).mpr hhigh)
  · exact (Nat.le_div_iff_mul_le hpos).mpr hlow

/-- The same certificate makes the code complete: some word leads every string of `N` bits. -/
theorem word_leads_of_tiles {N : ℕ} {table sorted : List (ℕ × ℕ)} (hperm : sorted.Perm table)
    (ht : tiles N 0 sorted (2 ^ N) = true) {l : List Bool} (hl : N ≤ l.length) :
    ∃ p ∈ table, word p <+: l := by
  have hlen : (l.take N).length = N := by simp [hl]
  have hval := BitString.value_lt (l.take N)
  rw [hlen] at hval
  obtain ⟨p,hp,hlow,hhigh⟩ := tiles_cover ht (Nat.zero_le _) hval
  obtain ⟨hw,_,hh⟩ := (tiles_bounds ht).2 p hp
  have hlead : word p <+: l.take N := by
    apply word_leads_of_mem (word_fits hw hh le_rfl)
    · rwa [hlen]
    · rwa [hlen]
    · rwa [hlen]
  exact ⟨p,hperm.mem_iff.mp hp,hlead.trans (List.take_prefix N l)⟩

end PrefixCode
