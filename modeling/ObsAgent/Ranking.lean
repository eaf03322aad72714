import Mathlib.Data.List.Dedup
import Mathlib.Data.List.Sort
import Mathlib.Data.Multiset.Count

/-! The members of a multiset in the order of their multiplicities. -/
namespace Ranking

variable {α : Type*} [LinearOrder α]

/-- The more frequent one is in front, and of two equally frequent ones the smaller. -/
def Outranks (m : Multiset α) (a b : α) : Prop :=
  m.count b < m.count a ∨ m.count b = m.count a ∧ a < b

instance (m : Multiset α) (a b : α) : Decidable (Outranks m a b) :=
  inferInstanceAs (Decidable (_ ∨ _))

instance (m : Multiset α) : Std.Irrefl (Outranks m) :=
  ⟨fun _ h => h.elim (lt_irrefl _) fun h => lt_irrefl _ h.2⟩

instance (m : Multiset α) : Std.Antisymm (Outranks m) where
  antisymm a b hab hba := by
    rcases hab with hlt | ⟨heq,hlt⟩ <;> rcases hba with hlt' | ⟨heq',hlt'⟩
    · omega
    · omega
    · omega
    · exact absurd hlt' hlt.asymm

/-- Every member once, each in front of those that it outranks. -/
structure RankedAs (m : Multiset α) (l : List α) : Prop where
  mem_iff : ∀ a, a ∈ l ↔ a ∈ m
  ordered : l.Pairwise (Outranks m)

theorem RankedAs.unique {m : Multiset α} {l l' : List α} (h : RankedAs m l) (h' : RankedAs m l') :
    l = l' :=
  h.ordered.eq_of_mem_iff h'.ordered fun a => (h.mem_iff a).trans (h'.mem_iff a).symm

theorem RankedAs.eq_nil_iff {m : Multiset α} {l : List α} (h : RankedAs m l) : l = [] ↔ m = 0 := by
  rw [List.eq_nil_iff_forall_not_mem,Multiset.eq_zero_iff_forall_notMem]
  exact forall_congr' fun a => not_congr (h.mem_iff a)

/-- The comparison of entries with their multiplicities that a sort uses. -/
def inFront (a b : α × ℕ) : Bool := b.2 < a.2 || b.2 = a.2 && (a.1 < b.1 || a.1 = b.1)

theorem inFront_iff {a b : α × ℕ} : inFront a b ↔ b.2 < a.2 ∨ b.2 = a.2 ∧ a.1 ≤ b.1 := by
  simp only [inFront,Bool.or_eq_true,Bool.and_eq_true,decide_eq_true_eq,le_iff_lt_or_eq]

theorem inFront_trans (a b c : α × ℕ) (hab : inFront a b) (hbc : inFront b c) : inFront a c := by
  rw [inFront_iff] at hab hbc ⊢
  rcases hab with hlt | ⟨heq,hle⟩ <;> rcases hbc with hlt' | ⟨heq',hle'⟩
  · exact .inl (hlt'.trans hlt)
  · exact .inl (heq' ▸ hlt)
  · exact .inl (heq ▸ hlt')
  · exact .inr ⟨heq'.trans heq,hle.trans hle'⟩

theorem inFront_total (a b : α × ℕ) : (inFront a b || inFront b a) = true := by
  rw [Bool.or_eq_true,inFront_iff,inFront_iff]
  rcases lt_trichotomy a.2 b.2 with hlt | heq | hlt
  · exact .inr (.inl hlt)
  · rcases le_total a.1 b.1 with hle | hle
    · exact .inl (.inr ⟨heq.symm,hle⟩)
    · exact .inr (.inr ⟨heq,hle⟩)
  · exact .inl (.inl hlt)

theorem rankedAs_mergeSort (l : List α) :
    RankedAs l (((l.dedup.map fun a => (a,l.count a)).mergeSort inFront).map Prod.fst) := by
  have hperm := List.mergeSort_perm (l.dedup.map fun a => (a,l.count a)) inFront
  have hnames := hperm.map Prod.fst
  rw [List.map_map,Function.comp_def,List.map_id'] at hnames
  refine ⟨fun a => ?_,?_⟩
  · rw [hnames.mem_iff,List.mem_dedup,Multiset.mem_coe]
  · have hsorted := List.pairwise_mergeSort inFront_trans inFront_total
      (l.dedup.map fun a => (a,l.count a))
    have hdistinct := List.pairwise_map.mp (hnames.nodup_iff.mpr l.nodup_dedup)
    rw [List.pairwise_map]
    refine (hsorted.and hdistinct).imp_of_mem fun {x y} hx hy hxy => ?_
    obtain ⟨a,-,rfl⟩ := List.mem_map.mp (hperm.mem_iff.mp hx)
    obtain ⟨b,-,rfl⟩ := List.mem_map.mp (hperm.mem_iff.mp hy)
    rw [Outranks,Multiset.coe_count,Multiset.coe_count]
    exact (inFront_iff.mp hxy.1).imp id fun h => ⟨h.1,lt_of_le_of_ne h.2 hxy.2⟩

end Ranking
