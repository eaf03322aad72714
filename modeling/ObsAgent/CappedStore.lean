import ObsAgent.FiniteMap

/-! Stores with a cap on the number of keys.  A record whose key is new to a full store goes to
one entry for all such records, and this entry may come on top of the cap. -/
namespace CappedStore

variable {K V : Type} [DecidableEq K]

/-- The key is new and the store is full. -/
def redirects (cap : ℕ) (m : FiniteMap K V) (k : K) : Bool := !m.contains k && decide (m.len ≥ cap)

/-- The key under which a record is kept. -/
def slot (cap : ℕ) (other : K) (m : FiniteMap K V) (k : K) : K :=
  if redirects cap m k then other else k

structure Capped (cap : ℕ) (other : K) (m : FiniteMap K V) : Prop where
  few : m.len ≤ cap + 1
  full : cap < m.len → m.contains other = true

theorem capped_empty (cap : ℕ) (other : K) : Capped cap other (∅ : FiniteMap K V) :=
  ⟨Nat.zero_le _,fun h => absurd h (Nat.not_lt_zero _)⟩

theorem Capped.put {cap : ℕ} {other : K} {m : FiniteMap K V} (h : Capped cap other m) (k : K) (v : V) :
    Capped cap other (m.put (slot cap other m k) v) := by
  have hkeep : ∀ k', m.contains other = true → (m.put k' v).contains other = true := fun k' hin => by
    rw [FiniteMap.contains_put,hin,Bool.or_true]
  cases hin : m.contains (slot cap other m k) with
  | true =>
    have hlen := FiniteMap.len_put_of_contains hin v
    exact ⟨hlen.le.trans h.few,fun hlt => hkeep _ (h.full (hlen ▸ hlt))⟩
  | false =>
    have hlen := FiniteMap.len_put_le m (slot cap other m k) v
    cases hred : redirects cap m k with
    | true =>
      have hslot : slot cap other m k = other := by simp [slot,hred]
      rw [hslot] at hin hlen ⊢
      have hroom : m.len ≤ cap := Nat.le_of_not_lt fun hlt => by simp [h.full hlt] at hin
      exact ⟨by omega,fun _ => by simp [FiniteMap.contains_put]⟩
    | false =>
      have hslot : slot cap other m k = k := by simp [slot,hred]
      rw [hslot] at hin hlen ⊢
      have hroom : m.len < cap := by simpa [redirects,hin] using hred
      exact ⟨by omega,fun hlt => absurd hlt (by omega)⟩

end CappedStore
