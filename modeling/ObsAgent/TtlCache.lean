import ObsAgent.Agreement

/-! Caches whose entries carry the time when they were read.  An entry is used as long as it is not
too old; a cache that is full forgets the entries that are, and everything if there are none. -/
namespace TtlCache

variable {K V : Type} (stamp : V → ℕ) (ttl cap : ℕ)

def fresh (now : ℕ) (e : V) : Bool := decide (now - stamp e ≤ ttl)

/-- The entries that stay when another one comes. -/
def makeRoom (m : FiniteMap K V) (now : ℕ) : FiniteMap K V :=
  let kept := if m.len ≥ cap then m.retain fun _ e => fresh stamp ttl now e else m
  if kept.len ≥ cap then ∅ else kept

/-- A fresh entry, or else the one that is read now. -/
def fetch [DecidableEq K] (m : FiniteMap K V) (k : K) (now : ℕ) (read : V) : FiniteMap K V × V :=
  match (m.get k).filter (fresh stamp ttl now) with
  | some e => (m,e)
  | none => ((makeRoom stamp ttl cap m now).put k read,read)

section

variable {stamp : V → ℕ} {ttl cap : ℕ} {m : FiniteMap K V} {k : K} {now : ℕ} {read : V}

theorem len_makeRoom_lt (hcap : 0 < cap) : (makeRoom stamp ttl cap m now).len < cap := by
  simp only [makeRoom]
  by_cases hfull : (if m.len ≥ cap then m.retain fun _ e => fresh stamp ttl now e else m).len ≥ cap
  · rw [if_pos hfull]
    exact hcap
  · rw [if_neg hfull]
    exact Nat.lt_of_not_le hfull

theorem makeRoom_of_lt (h : m.len < cap) : makeRoom stamp ttl cap m now = m := by
  simp only [makeRoom,if_neg (Nat.not_le.mpr h)]

variable [DecidableEq K]

theorem get_makeRoom {e : V} (h : (makeRoom stamp ttl cap m now).get k = some e) :
    m.get k = some e := by
  by_cases hfull : m.len ≥ cap
  · simp only [makeRoom,if_pos hfull] at h
    split_ifs at h
    · simp at h
    · rw [FiniteMap.get_retain] at h
      exact (Option.filter_eq_some_iff.mp h).1
  · rwa [makeRoom_of_lt (Nat.lt_of_not_le hfull)] at h

theorem fetch_all (stamp : V → ℕ) (ttl cap now : ℕ) (read : V) {Q : K → V → Prop} (h : m.All Q)
    (hread : Q k read) :
    (fetch stamp ttl cap m k now read).1.All Q ∧ Q k (fetch stamp ttl cap m k now read).2 := by
  simp only [fetch]
  cases hhit : (m.get k).filter (fresh stamp ttl now) with
  | some e => exact ⟨h,h k e (Option.filter_eq_some_iff.mp hhit).1⟩
  | none => exact ⟨FiniteMap.All.put (fun k' e he => h k' e (get_makeRoom he)) hread,hread⟩

theorem fetch_fresh (m : FiniteMap K V) (k : K) (hread : stamp read = now) :
    now - stamp (fetch stamp ttl cap m k now read).2 ≤ ttl := by
  simp only [fetch]
  cases hhit : (m.get k).filter (fresh stamp ttl now) with
  | some e => exact of_decide_eq_true (Option.filter_eq_some_iff.mp hhit).2
  | none => simp [hread]

theorem len_fetch_le (hcap : 0 < cap) (h : m.len ≤ cap) :
    (fetch stamp ttl cap m k now read).1.len ≤ cap := by
  simp only [fetch]
  cases (m.get k).filter (fresh stamp ttl now) with
  | some e => exact h
  | none =>
    exact (FiniteMap.len_put_le _ k read).trans (len_makeRoom_lt hcap)

theorem len_fetch_le_succ (h : m.len < cap) :
    (fetch stamp ttl cap m k now read).1.len ≤ m.len + 1 := by
  simp only [fetch]
  cases (m.get k).filter (fresh stamp ttl now) with
  | some e => exact Nat.le_succ _
  | none =>
    rw [makeRoom_of_lt h]
    exact FiniteMap.len_put_le m k read

theorem get_fetch (stamp : V → ℕ) (ttl cap : ℕ) (m : FiniteMap K V) (k : K) (now : ℕ) (read : V) :
    (fetch stamp ttl cap m k now read).1.get k = some (fetch stamp ttl cap m k now read).2 := by
  simp only [fetch]
  cases hhit : (m.get k).filter (fresh stamp ttl now) with
  | some e => exact (Option.filter_eq_some_iff.mp hhit).1
  | none => exact FiniteMap.get_put_self _ k read

theorem get_fetch_other (h : m.len < cap) {k' : K} (hne : k' ≠ k) :
    (fetch stamp ttl cap m k now read).1.get k' = m.get k' := by
  simp only [fetch]
  cases (m.get k).filter (fresh stamp ttl now) with
  | some e => rfl
  | none => rw [makeRoom_of_lt h,FiniteMap.get_put,if_neg hne]

theorem fetch_of_get {e : V} (hget : m.get k = some e) (hfresh : now - stamp e ≤ ttl) (read : V) :
    fetch stamp ttl cap m k now read = (m,e) := by
  have hhit : (m.get k).filter (fresh stamp ttl now) = some e := by
    rw [hget]
    exact Option.filter_eq_some_iff.mpr ⟨rfl,decide_eq_true hfresh⟩
  simp only [fetch,hhit]

end

end TtlCache
