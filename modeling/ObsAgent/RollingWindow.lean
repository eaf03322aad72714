import ObsAgent.FiniteMap
import ObsAgent.TimedQueue

/-! Samples by key, in queues whose expired front is popped when a sample is pushed.  A reader who
counts only what has not expired sees the same as in a log of all samples. -/
namespace RollingWindow

variable {S : Type} (stamp : S → ℕ) (width : ℕ)

def expired (now : ℕ) (s : S) : Bool := decide (width < now - stamp s)

/-- Without the expired ones at the front. -/
def pop (now : ℕ) (q : List S) : List S := q.dropWhile (expired stamp width now)

def recent (now : ℕ) (q : List S) : List S := q.filter fun s => !expired stamp width now s

variable {stamp width}

theorem expired_mono {t now : ℕ} (ht : t ≤ now) {s : S} (h : expired stamp width t s = true) :
    expired stamp width now s = true := by
  simp only [expired,decide_eq_true_eq] at h ⊢
  omega

theorem recent_pop {t now : ℕ} (ht : t ≤ now) (q : List S) :
    recent stamp width now (pop stamp width t q) = recent stamp width now q :=
  TimedQueue.filter_dropWhile (fun s hs => by rw [expired_mono ht hs]; rfl) q

/-- In a queue by time it is enough to look at the front. -/
theorem pop_eq_recent {q : List S} (hq : q.Pairwise fun a b => stamp a ≤ stamp b) (now : ℕ) :
    pop stamp width now q = recent stamp width now q := by
  have hfront : ∀ a b, stamp a ≤ stamp b → expired stamp width now b = true →
      expired stamp width now a = true := by
    intro a b hab hb
    simp only [expired,decide_eq_true_eq] at hb ⊢
    omega
  have hkept := TimedQueue.not_of_mem_dropWhile hq hfront
  rw [← recent_pop le_rfl q]
  exact (List.filter_eq_self.mpr fun s hs => by rw [hkept s hs]; rfl).symm

theorem length_recent (now : ℕ) (q : List S) :
    (recent stamp width now q).length = ((q.map stamp).filter fun t => now - t ≤ width).length := by
  rw [List.filter_map,List.length_map,recent]
  congr 1
  refine List.filter_congr fun s _ => ?_
  rw [expired,← decide_not]
  exact decide_eq_decide.mpr Nat.not_lt

section Keyed

variable {K V : Type} [DecidableEq K]

/-- The samples of one key. -/
def samplesOf (k : K) (log : List (K × S)) : List S := (log.filter fun e => e.1 = k).map Prod.snd

theorem samplesOf_concat (k : K) (log : List (K × S)) (e : K × S) :
    samplesOf k (log ++ [e]) = samplesOf k log ++ if e.1 = k then [e.2] else [] := by
  by_cases h : e.1 = k <;> simp [samplesOf,h]

/-- A store of queues against the log of all samples, for a reader at `now`. -/
structure Keeps (stamp : S → ℕ) (width now : ℕ) (queue : V → List S) (m : FiniteMap K V)
    (log : List (K × S)) : Prop where
  suffix : ∀ k v, m.get k = some v → queue v <:+ samplesOf k log
  seen : ∀ k, recent stamp width now (((m.get k).map queue).getD []) =
    recent stamp width now (samplesOf k log)
  total : m.total (fun v => (recent stamp width now (queue v)).length) =
    (recent stamp width now (log.map Prod.snd)).length

variable {now : ℕ} {queue : V → List S} {m : FiniteMap K V} {log : List (K × S)}

theorem keeps_empty : Keeps stamp width now queue (∅ : FiniteMap K V) [] :=
  ⟨fun _ _ h => absurd h (by simp),fun _ => rfl,rfl⟩

theorem Keeps.upsert (h : Keeps stamp width now queue m log) {fresh : V} {f : V → V} {s : S} {t : ℕ}
    (k : K) (ht : t ≤ now) (hfresh : queue fresh = [])
    (hf : ∀ v, queue (f v) = pop stamp width t (queue v ++ [s])) :
    Keeps stamp width now queue (m.upsert k fresh f) (log ++ [(k,s)]) := by
  have hpush : ∀ v, recent stamp width now (queue (f v)) =
      recent stamp width now (queue v) ++ recent stamp width now [s] := by
    intro v
    rw [hf,recent_pop ht,recent,List.filter_append]
    rfl
  have hqueue : queue ((m.get k).getD fresh) = ((m.get k).map queue).getD [] := by
    cases m.get k with
    | none => exact hfresh
    | some v => rfl
  refine ⟨?_,?_,?_⟩
  · intro k' v hget
    rw [FiniteMap.get_upsert] at hget
    rw [samplesOf_concat]
    split_ifs at hget with hk
    · subst hk
      obtain rfl := Option.some_inj.mp hget
      have hold : queue ((m.get k').getD fresh) <:+ samplesOf k' log := by
        rw [hqueue]
        cases hold : m.get k' with
        | none => exact List.nil_suffix
        | some v => exact h.suffix k' v hold
      obtain ⟨front,hfront⟩ := hold
      rw [if_pos rfl,hf,← hfront,List.append_assoc]
      exact (List.dropWhile_suffix _).trans (List.suffix_append front _)
    · rw [if_neg (Ne.symm hk),List.append_nil]
      exact h.suffix k' v hget
  · intro k'
    rw [FiniteMap.get_upsert,samplesOf_concat]
    by_cases hk : k' = k
    · subst hk
      have hold := h.seen k'
      rw [if_pos rfl,if_pos rfl,Option.map_some,Option.getD_some,hpush]
      rw [hqueue,hold,recent,recent,recent,
        List.filter_append]
    · rw [if_neg hk,if_neg (Ne.symm hk),List.append_nil]
      exact h.seen k'
  · rw [List.map_append,recent,List.filter_append,List.length_append]
    refine (FiniteMap.total_upsert m k ?_ fun v => ?_).trans (by rw [h.total]; rfl)
    · rw [hfresh]
      rfl
    · rw [hpush,List.length_append]
      rfl

end Keyed

section Table

variable {K V R : Type}

def table (row : V → Option R) (count : R → ℕ) (m : FiniteMap K V) : List (K × R) :=
  (m.entries.filterMap fun e => (row e.2).map fun r => (e.1,r)).mergeSort
    fun a b => count b.2 ≤ count a.2

variable {row : V → Option R} {count : R → ℕ} {m : FiniteMap K V}

theorem mem_table [DecidableEq K] {k : K} {r : R} :
    (k,r) ∈ table row count m ↔ ∃ v, m.get k = some v ∧ row v = some r := by
  rw [table,List.mem_mergeSort,List.mem_filterMap]
  constructor
  · rintro ⟨⟨k',v⟩,hin,hrow⟩
    obtain ⟨r',hr',heq⟩ := Option.map_eq_some_iff.mp hrow
    obtain ⟨rfl,rfl⟩ := Prod.mk.inj heq
    exact ⟨v,(m.get_eq_some_iff k' v).mpr hin,hr'⟩
  · rintro ⟨v,hget,hrow⟩
    exact ⟨⟨k,v⟩,(m.get_eq_some_iff k v).mp hget,by rw [hrow]; rfl⟩

theorem table_sorted : (table row count m).Pairwise fun a b => count b.2 ≤ count a.2 := by
  have htrans : ∀ a b c : K × R, decide (count b.2 ≤ count a.2) = true →
      decide (count c.2 ≤ count b.2) = true → decide (count c.2 ≤ count a.2) = true := by
    intro a b c hab hbc
    exact decide_eq_true ((of_decide_eq_true hbc).trans (of_decide_eq_true hab))
  have htotal : ∀ a b : K × R,
      (decide (count b.2 ≤ count a.2) || decide (count a.2 ≤ count b.2)) = true := by
    intro a b
    rw [Bool.or_eq_true,decide_eq_true_eq,decide_eq_true_eq]
    exact le_total _ _
  exact (List.pairwise_mergeSort htrans htotal _).imp of_decide_eq_true

theorem table_keys_nodup : ((table row count m).map Prod.fst).Nodup := by
  have hsub : ∀ es : List (Sigma fun _ : K => V),
      ((es.filterMap fun e => (row e.2).map fun r => (e.1,r)).map Prod.fst).Sublist
        (es.map Sigma.fst) := by
    intro es
    induction es with
    | nil => exact List.Sublist.slnil
    | cons e es ih =>
      cases hrow : row e.2 with
      | none => simpa [hrow] using ih.cons e.1
      | some r => simpa [hrow] using ih.cons_cons e.1
  exact ((List.mergeSort_perm _ _).map Prod.fst).nodup_iff.mpr (m.keys_nodup.sublist (hsub m.entries))

theorem sum_table [DecidableEq K] {g : V → ℕ}
    (h : ∀ k v, m.get k = some v → ((row v).map count).getD 0 = g v) :
    ((table row count m).map fun e => count e.2).sum = m.total g := by
  have hsum : ∀ es : List (Sigma fun _ : K => V), (∀ e ∈ es, ((row e.2).map count).getD 0 = g e.2) →
      ((es.filterMap fun e => (row e.2).map fun r => (e.1,r)).map fun e => count e.2).sum =
        (es.map fun e => g e.2).sum := by
    intro es hes
    induction es with
    | nil => rfl
    | cons e es ih =>
      have he := hes e List.mem_cons_self
      have hrest := ih fun e' h' => hes e' (List.mem_cons_of_mem e h')
      cases hrow : row e.2 with
      | none =>
        rw [hrow] at he
        simp [hrow,hrest,← he]
      | some r =>
        rw [hrow] at he
        simp [hrow,hrest,← he]
  refine (((List.mergeSort_perm _ _).map _).sum_eq).trans (hsum m.entries fun e he => ?_)
  exact h e.1 e.2 ((m.get_eq_some_iff e.1 e.2).mpr he)

/-- The row of some samples, where none have no row. -/
def rowOf (f : List S → R) (q : List S) : Option R := if q = [] then none else some (f q)

section

variable [DecidableEq K] {now : ℕ} {queue : V → List S} {log : List (K × S)} {f : List S → R}
  (h : Keeps stamp width now queue m log)
  (hrow : ∀ k v, m.get k = some v → row v = rowOf f (recent stamp width now (queue v)))

include h hrow

/-- Where every row is that of the recent samples, the table is that of the log. -/
theorem Keeps.mem_table {k : K} {r : R} :
    (k,r) ∈ table row count m ↔
      recent stamp width now (samplesOf k log) ≠ [] ∧
        r = f (recent stamp width now (samplesOf k log)) := by
  rw [RollingWindow.mem_table,← h.seen]
  cases hget : m.get k with
  | none => simp [recent]
  | some v =>
    have hv := hrow k v hget
    by_cases hnone : recent stamp width now (queue v) = []
    · simp [hv,rowOf,hnone]
    · simp [hv,rowOf,hnone,eq_comm]

theorem Keeps.sum_table (hcount : ∀ q, count (f q) = q.length) :
    ((table row count m).map fun e => count e.2).sum =
      (recent stamp width now (log.map Prod.snd)).length := by
  refine (RollingWindow.sum_table fun k v hget => ?_).trans h.total
  rw [hrow k v hget,rowOf]
  split_ifs with hnone
  · rw [hnone]
    rfl
  · exact hcount _

end

end Table

end RollingWindow
