import Mathlib.Data.List.Basic
import Mathlib.Tactic

/-! Listings that come in pages, and indexes in which the last writer of a key wins. -/
namespace Paging

variable {ε σ δ ι β : Type*}

/-- Pages are absorbed one after another up to the first that no other follows, of which there may
be so many. -/
def collect (absorb : σ → δ → σ) (overrun : ε) (page : ℕ → Except ε (δ × Bool)) :
    ℕ → ℕ → σ → Except ε σ
  | 0, _, _ => .error overrun
  | n+1, i, acc => (page i).bind fun p =>
    if p.2 then collect absorb overrun page n (i+1) (absorb acc p.1) else .ok (absorb acc p.1)

/-- From page `i` on, `n` pages are followed by another one and the next is the last. -/
structure EndsAt (page : ℕ → Except ε (δ × Bool)) (chunk : ℕ → δ) (i n : ℕ) : Prop where
  followed : ∀ j < n, page (i+j) = .ok (chunk (i+j),true)
  last : page (i+n) = .ok (chunk (i+n),false)

section

variable {page : ℕ → Except ε (δ × Bool)} {chunk : ℕ → δ} {i n : ℕ}

theorem endsAt_zero : EndsAt page chunk i 0 ↔ page i = .ok (chunk i,false) :=
  ⟨fun h => h.last,fun h => ⟨by simp,h⟩⟩

theorem endsAt_succ :
    EndsAt page chunk i (n+1) ↔ page i = .ok (chunk i,true) ∧ EndsAt page chunk (i+1) n := by
  have hshift : ∀ j, i + 1 + j = i + (j + 1) := fun j => by omega
  constructor
  · intro h
    refine ⟨h.followed 0 (Nat.succ_pos n),fun j hj => ?_,?_⟩
    · rw [hshift]
      exact h.followed (j+1) (Nat.succ_lt_succ hj)
    · rw [hshift]
      exact h.last
  · rintro ⟨hfirst,hrest⟩
    refine ⟨fun j hj => ?_,?_⟩
    · cases j with
      | zero => exact hfirst
      | succ j =>
        rw [← hshift]
        exact hrest.followed j (Nat.lt_of_succ_lt_succ hj)
    · rw [← hshift]
      exact hrest.last

end

theorem collect_eq_ok_iff {absorb : σ → δ → σ} {overrun : ε} {page : ℕ → Except ε (δ × Bool)}
    (chunk : ℕ → δ) (hchunk : ∀ i p, page i = .ok p → p.1 = chunk i) (m i : ℕ) (acc r : σ) :
    collect absorb overrun page m i acc = .ok r ↔
      ∃ n < m, EndsAt page chunk i n ∧ ((List.range' i (n+1)).map chunk).foldl absorb acc = r := by
  induction m generalizing i acc with
  | zero => simp [collect]
  | succ m ih =>
    rw [collect]
    cases hpage : page i with
    | error e =>
      refine iff_of_false (by simp [Except.bind]) ?_
      rintro ⟨n,-,hends,-⟩
      cases n with
      | zero => simp [endsAt_zero,hpage] at hends
      | succ n => simp [endsAt_succ,hpage] at hends
    | ok p =>
      obtain ⟨d,more⟩ := p
      obtain rfl : d = chunk i := hchunk i _ hpage
      cases more with
      | false =>
        simp only [Except.bind,Bool.false_eq_true,if_false,Except.ok.injEq]
        constructor
        · rintro rfl
          exact ⟨0,Nat.succ_pos m,endsAt_zero.mpr hpage,rfl⟩
        · rintro ⟨n,-,hends,hr⟩
          cases n with
          | zero => exact hr
          | succ n => simp [endsAt_succ,hpage] at hends
      | true =>
        simp only [Except.bind,if_true]
        rw [ih]
        constructor
        · rintro ⟨n,hn,hends,hr⟩
          exact ⟨n+1,Nat.succ_lt_succ hn,endsAt_succ.mpr ⟨hpage,hends⟩,hr⟩
        · rintro ⟨n,hn,hends,hr⟩
          cases n with
          | zero => simp [endsAt_zero,hpage] at hends
          | succ n => exact ⟨n,Nat.lt_of_succ_lt_succ hn,(endsAt_succ.mp hends).2,hr⟩

theorem look_foldl (look : σ → Option β) {step : σ → ι → σ} {writes : ι → Option β}
    (hstep : ∀ s x, look (step s x) = (writes x).or (look s)) (xs : List ι) (s : σ) :
    look (xs.foldl step s) = (xs.reverse.findSome? writes).or (look s) := by
  induction xs generalizing s with
  | nil => rfl
  | cons x xs ih =>
    rw [List.foldl_cons,ih,hstep,List.reverse_cons,List.findSome?_append,Option.or_assoc]
    cases hx : writes x <;> simp [hx]

theorem look_index (look : σ → Option β) {step : σ → ι → σ} {writes : ι → Option β} {empty : σ}
    (hempty : look empty = none) (hstep : ∀ s x, look (step s x) = (writes x).or (look s))
    (xs : List ι) : look (xs.foldl step empty) = xs.reverse.findSome? writes := by
  rw [look_foldl look hstep,hempty,Option.or_none]

/-- Absorbing the indexes of pages shows what the index of all their items shows. -/
theorem look_absorbed (look : σ → Option β) {absorb : σ → σ → σ} {index : List ι → σ}
    {writes : ι → Option β} {empty : σ} (hempty : look empty = none)
    (habsorb : ∀ s s', look (absorb s s') = (look s').or (look s))
    (hindex : ∀ xs, look (index xs) = xs.reverse.findSome? writes) (pages : List (List ι)) :
    look ((pages.map index).foldl absorb empty) = look (index pages.flatten) := by
  induction pages using List.reverseRecOn with
  | nil => rw [hindex]; exact hempty
  | append_singleton pages page ih =>
    rw [List.map_append,List.foldl_append,List.map_singleton,List.foldl_cons,List.foldl_nil,habsorb,
      ih,hindex,hindex,hindex,List.flatten_append,List.flatten_singleton,List.reverse_append,
      List.findSome?_append]

end Paging
