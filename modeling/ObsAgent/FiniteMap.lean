import Mathlib.Algebra.GroupWithZero.Nat
import Mathlib.Data.List.AList
import Mathlib.Data.Finset.Card

/-! Finite maps with the operations of a hash map: lookup, insertion, removal,
retention of the entries that pass a test, and the number of entries. -/

/-- Association lists without repeated keys. -/
abbrev FiniteMap (K V : Type) := AList (fun _ : K => V)

namespace FiniteMap

variable {K V : Type} [DecidableEq K]

def get (m : FiniteMap K V) (k : K) : Option V := m.lookup k

def contains (m : FiniteMap K V) (k : K) : Bool := (m.get k).isSome

def put (m : FiniteMap K V) (k : K) (v : V) : FiniteMap K V := AList.insert k v m

def remove (m : FiniteMap K V) (k : K) : FiniteMap K V := AList.erase k m

def len (m : FiniteMap K V) : ℕ := m.entries.length

/-- Keep the entries that pass the test, in their order. -/
def retain (m : FiniteMap K V) (p : K → V → Bool) : FiniteMap K V where
  entries := m.entries.filter fun e => p e.1 e.2
  nodupKeys := m.nodupKeys.sublist List.filter_sublist

def rejected (m : FiniteMap K V) (p : K → V → Bool) : List K :=
  (m.entries.filter fun e => !p e.1 e.2).map (·.1)

/-- Put the value of a key through `f`, starting from `fresh` if there is none. -/
def upsert (m : FiniteMap K V) (k : K) (fresh : V) (f : V → V) : FiniteMap K V :=
  m.put k (f ((m.get k).getD fresh))

/-- Put all entries of another map. -/
def extend (m other : FiniteMap K V) : FiniteMap K V :=
  other.entries.foldl (fun m e => m.put e.1 e.2) m

def total {K V : Type} (m : FiniteMap K V) (g : V → ℕ) : ℕ := (m.entries.map fun e => g e.2).sum

@[simp] theorem get_empty (k : K) : get (∅ : FiniteMap K V) k = none := rfl

@[simp] theorem len_empty {K V : Type} : len (∅ : FiniteMap K V) = 0 := rfl

theorem get_put (m : FiniteMap K V) (k k' : K) (v : V) :
    (m.put k v).get k' = if k' = k then some v else m.get k' := by
  by_cases h : k' = k
  · subst k'; simp [get,put]
  · simp [get,put,h,AList.lookup_insert_ne h]

@[simp] theorem get_put_self (m : FiniteMap K V) (k : K) (v : V) : (m.put k v).get k = some v := by
  simp [get_put]

theorem get_remove (m : FiniteMap K V) (k k' : K) :
    (m.remove k).get k' = if k' = k then none else m.get k' := by
  by_cases h : k' = k
  · subst k'; simp [get,remove]
  · simp [get,remove,h,AList.lookup_erase_ne h]

@[simp] theorem get_remove_self (m : FiniteMap K V) (k : K) : (m.remove k).get k = none := by
  simp [get_remove]

theorem contains_put (m : FiniteMap K V) (k k' : K) (v : V) :
    (m.put k v).contains k' = (decide (k' = k) || m.contains k') := by
  simp only [contains,get_put]
  by_cases h : k' = k <;> simp [h]

theorem contains_remove (m : FiniteMap K V) (k k' : K) :
    (m.remove k).contains k' = (!decide (k' = k) && m.contains k') := by
  simp only [contains,get_remove]
  by_cases h : k' = k <;> simp [h]

theorem get_eq_some_iff (m : FiniteMap K V) (k : K) (v : V) :
    m.get k = some v ↔ (⟨k,v⟩ : Sigma fun _ : K => V) ∈ m.entries := by
  have h := AList.mem_lookup_iff (a := k) (b := v) (s := m)
  simpa [get,Option.mem_def] using h

theorem get_foldl_put {es : List (Sigma fun _ : K => V)} (h : es.NodupKeys) (m : FiniteMap K V)
    (k : K) : (es.foldl (fun m e => m.put e.1 e.2) m).get k = (es.dlookup k).or (m.get k) := by
  induction es generalizing m with
  | nil => rfl
  | cons e es ih =>
    obtain ⟨hnew,hrest⟩ := List.nodupKeys_cons.mp h
    rw [List.foldl_cons,ih hrest,get_put]
    split_ifs with hk
    · subst hk
      rw [List.dlookup_eq_none.mpr hnew,List.dlookup_cons_eq]
      rfl
    · rw [List.dlookup_cons_ne _ e hk]

theorem get_extend (m other : FiniteMap K V) (k : K) :
    (m.extend other).get k = (other.get k).or (m.get k) := get_foldl_put other.nodupKeys m k

theorem get_retain (m : FiniteMap K V) (p : K → V → Bool) (k : K) :
    (m.retain p).get k = (m.get k).filter (p k) := by
  ext v
  rw [get_eq_some_iff,Option.filter_eq_some_iff,get_eq_some_iff]
  simp [retain]

theorem get_isSome_of_retain {m : FiniteMap K V} {p : K → V → Bool} {k : K}
    (h : ((m.retain p).get k).isSome = true) : (m.get k).isSome = true := by
  obtain ⟨v,hv⟩ := Option.isSome_iff_exists.mp h
  rw [get_retain] at hv
  rw [(Option.filter_eq_some_iff.mp hv).1]
  rfl

theorem mem_rejected_iff (m : FiniteMap K V) (p : K → V → Bool) (k : K) :
    k ∈ m.rejected p ↔ ∃ v, m.get k = some v ∧ p k v = false := by
  constructor
  · intro h
    obtain ⟨⟨k,v⟩,he,rfl⟩ := List.mem_map.mp h
    obtain ⟨hin,hfail⟩ := List.mem_filter.mp he
    exact ⟨v,(m.get_eq_some_iff k v).mpr hin,by simpa using hfail⟩
  · rintro ⟨v,hget,hfail⟩
    have hin := (m.get_eq_some_iff k v).mp hget
    exact List.mem_map.mpr ⟨⟨k,v⟩,List.mem_filter.mpr ⟨hin,by simp [hfail]⟩,rfl⟩

theorem get_of_rejected {m : FiniteMap K V} {p : K → V → Bool} {k : K} (h : k ∈ m.rejected p) :
    (m.get k).isSome = true ∧ (m.retain p).get k = none := by
  obtain ⟨v,hget,hfail⟩ := (m.mem_rejected_iff p k).mp h
  refine ⟨by rw [hget]; rfl,?_⟩
  rw [get_retain,hget,Option.filter_some_neg]
  simpa using hfail

theorem count_rejected (m : FiniteMap K V) (p : K → V → Bool) (k : K) :
    (m.rejected p).count k + ((m.retain p).contains k).toNat = (m.contains k).toNat := by
  have hnodup : (m.rejected p).Nodup :=
    m.keys_nodup.sublist (List.filter_sublist.map Sigma.fst)
  rw [hnodup.count,contains,contains,get_retain]
  simp only [mem_rejected_iff]
  cases hget : m.get k with
  | none => simp
  | some v => cases hp : p k v <;> simp [hp]

theorem mem_keys_iff (m : FiniteMap K V) (k : K) : k ∈ m.keys ↔ (m.get k).isSome = true :=
  AList.lookup_isSome.symm

theorem len_eq_of_keys {W : Type} {m : FiniteMap K V} {m' : FiniteMap K W}
    (h : ∀ k, (m.get k).isSome = (m'.get k).isSome) : m.len = m'.len := by
  have hperm : m.keys.Perm m'.keys :=
    (List.perm_ext_iff_of_nodup m.keys_nodup m'.keys_nodup).mpr fun k => by
      rw [mem_keys_iff,mem_keys_iff,h]
  simpa [len,AList.keys,List.keys] using hperm.length_eq

theorem card_keys (m : FiniteMap K V) : m.keys.toFinset.card = m.len := by
  rw [List.toFinset_card_of_nodup m.keys_nodup]
  simp [len,AList.keys,List.keys]

theorem len_remove_le (m : FiniteMap K V) (k : K) : (m.remove k).len ≤ m.len :=
  (List.kerase_sublist k m.entries).length_le

theorem len_remove_of_contains {m : FiniteMap K V} {k : K} (h : m.contains k = true) :
    (m.remove k).len < m.len := by
  have hkeys : (m.remove k).keys.length < m.keys.length := by
    have hin := (m.mem_keys_iff k).mpr h
    rw [remove,AList.keys_erase,List.length_erase_of_mem hin]
    exact Nat.sub_lt (List.length_pos_of_mem hin) Nat.one_pos
  simpa [len,AList.keys,List.keys] using hkeys

theorem len_put_le (m : FiniteMap K V) (k : K) (v : V) : (m.put k v).len ≤ m.len + 1 := by
  simpa [len,put,AList.insert,List.kinsert] using (List.kerase_sublist k m.entries).length_le

theorem len_put_of_contains {m : FiniteMap K V} {k : K} (h : m.contains k = true) (v : V) :
    (m.put k v).len = m.len := by
  refine len_eq_of_keys fun k' => ?_
  rw [get_put]
  split_ifs with hk
  · subst hk
    exact h.symm
  · rfl

theorem get_upsert (m : FiniteMap K V) (k k' : K) (fresh : V) (f : V → V) :
    (m.upsert k fresh f).get k' =
      if k' = k then some (f ((m.get k).getD fresh)) else m.get k' := m.get_put _ _ _

theorem sum_kerase (k : K) (g : V → ℕ) (l : List (Sigma fun _ : K => V)) (h : l.NodupKeys) :
    ((l.kerase k).map fun e => g e.2).sum + ((l.dlookup k).map g).getD 0 =
      (l.map fun e => g e.2).sum := by
  induction l with
  | nil => simp
  | cons e l ih =>
    have hrest := ih (List.nodupKeys_cons.mp h).2
    by_cases hk : k = e.1
    · subst hk
      have hfound : List.dlookup e.1 (e :: l) = some e.2 := List.dlookup_cons_eq l e.1 e.2
      rw [List.kerase_cons_eq rfl,hfound]
      simp [Nat.add_comm]
    · rw [List.kerase_cons_ne hk,List.dlookup_cons_ne l e hk]
      simp only [List.map_cons,List.sum_cons]
      omega

theorem total_put (m : FiniteMap K V) (k : K) (v : V) (g : V → ℕ) :
    (m.put k v).total g + ((m.get k).map g).getD 0 = m.total g + g v := by
  have herase := sum_kerase k g m.entries m.nodupKeys
  have hentries : (m.put k v).entries = ⟨k,v⟩ :: m.entries.kerase k := rfl
  simp only [total,hentries,get,AList.lookup,List.map_cons,List.sum_cons]
  omega

/-- A change that adds `d` to the measure of a value adds it to the total. -/
theorem total_upsert (m : FiniteMap K V) (k : K) {fresh : V} {f : V → V} {g : V → ℕ} {d : ℕ}
    (hfresh : g fresh = 0) (hf : ∀ v, g (f v) = g v + d) :
    (m.upsert k fresh f).total g = m.total g + d := by
  have hput := m.total_put k (f ((m.get k).getD fresh)) g
  rw [hf] at hput
  cases hget : m.get k with
  | none =>
    rw [hget] at hput
    simp only [upsert,hget,Option.getD_none,hfresh,Option.map_none] at hput ⊢
    omega
  | some v =>
    rw [hget] at hput
    simp only [upsert,hget,Option.getD_some,Option.map_some] at hput ⊢
    omega

end FiniteMap
