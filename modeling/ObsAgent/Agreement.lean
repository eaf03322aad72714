import ObsAgent.FiniteMap

/-! Maps that agree on some of the keys. -/
namespace FiniteMap

variable {K V : Type} [DecidableEq K] {P : K → Prop} {m m' m'' : FiniteMap K V} {k : K}

def AgreeOn (P : K → Prop) (m m' : FiniteMap K V) : Prop := ∀ k, P k → m.get k = m'.get k

namespace AgreeOn

theorem refl (m : FiniteMap K V) : AgreeOn P m m := fun _ _ => rfl

theorem trans (h : AgreeOn P m m') (h' : AgreeOn P m' m'') : AgreeOn P m m'' :=
  fun k hk => (h k hk).trans (h' k hk)

theorem contains (h : AgreeOn P m m') (hk : P k) : m.contains k = m'.contains k := by
  rw [FiniteMap.contains,FiniteMap.contains,h k hk]

theorem put (h : AgreeOn P m m') (k : K) (v : V) : AgreeOn P (m.put k v) (m'.put k v) := by
  intro k' hk'
  rw [get_put,get_put,h k' hk']

theorem remove (h : AgreeOn P m m') (k : K) : AgreeOn P (m.remove k) (m'.remove k) := by
  intro k' hk'
  rw [get_remove,get_remove,h k' hk']

theorem put_left (h : AgreeOn P m m') (hk : ¬P k) (v : V) : AgreeOn P (m.put k v) m' := by
  intro k' hk'
  have hne : k' ≠ k := fun heq => hk (heq ▸ hk')
  rw [get_put,if_neg hne,h k' hk']

theorem remove_left (h : AgreeOn P m m') (hk : ¬P k) : AgreeOn P (m.remove k) m' := by
  intro k' hk'
  have hne : k' ≠ k := fun heq => hk (heq ▸ hk')
  rw [get_remove,if_neg hne,h k' hk']

end AgreeOn

def All (Q : K → V → Prop) (m : FiniteMap K V) : Prop := ∀ k v, m.get k = some v → Q k v

namespace All

variable {Q : K → V → Prop}

theorem empty : All Q ∅ := fun _ _ h => by cases h

theorem put (h : All Q m) {v : V} (hv : Q k v) : All Q (m.put k v) := by
  intro k' v' hget
  rw [get_put] at hget
  split_ifs at hget with hk
  · rw [hk,← Option.some.inj hget]
    exact hv
  · exact h k' v' hget

theorem remove (h : All Q m) (k : K) : All Q (m.remove k) := by
  intro k' v' hget
  rw [get_remove] at hget
  split_ifs at hget
  exact h k' v' hget

theorem retain (h : All Q m) (p : K → V → Bool) : All Q (m.retain p) := by
  intro k v hget
  rw [get_retain] at hget
  exact h k v (Option.filter_eq_some_iff.mp hget).1

end All
end FiniteMap
