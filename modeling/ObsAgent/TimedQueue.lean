import Mathlib.Data.List.Basic
import Mathlib.Tactic

/-! Queues that are popped from the front, and readers that look for entries from the back. -/
namespace TimedQueue

variable {α : Type*}

/-- What a reader never keeps can be popped: it reads the same behind it. -/
theorem filter_dropWhile {p keep : α → Bool} (h : ∀ a, p a = true → keep a = false) (q : List α) :
    (q.dropWhile p).filter keep = q.filter keep := by
  induction q with
  | nil => rfl
  | cons a q ih =>
    rw [List.dropWhile_cons]
    split_ifs with ha
    · rw [ih,List.filter_cons_of_neg (by simp [h a ha])]
    · rfl

/-- In an ordered queue, popping the expired ones from the front pops all of them. -/
theorem not_of_mem_dropWhile {R : α → α → Prop} {p : α → Bool} {q : List α} (hq : q.Pairwise R)
    (h : ∀ a b, R a b → p b = true → p a = true) : ∀ a ∈ q.dropWhile p, p a = false := by
  induction q with
  | nil => simp
  | cons a q ih =>
    rw [List.pairwise_cons] at hq
    rw [List.dropWhile_cons]
    split_ifs with ha
    · exact ih hq.2
    · intro b hb
      rcases List.mem_cons.mp hb with rfl | hb
      · simpa using ha
      · exact Bool.eq_false_iff.mpr fun hpb => ha (h a b (hq.1 b hb) hpb)

theorem find?_reverse (p : α → Bool) (q : List α) : q.reverse.find? p = (q.filter p).getLast? := by
  rw [← List.head?_filter,List.filter_reverse,List.head?_reverse]

theorem getLast?_eq_max? [LinearOrder α] {q : List α} (hq : q.Pairwise (· ≤ ·)) :
    q.getLast? = q.max? := by
  cases hlast : q.getLast? with
  | none =>
    rw [List.getLast?_eq_none_iff.mp hlast]
    rfl
  | some a =>
    obtain ⟨ys,rfl⟩ := List.getLast?_eq_some_iff.mp hlast
    refine (List.max?_eq_some_iff.mpr ⟨by simp,fun b hb => ?_⟩).symm
    rcases List.mem_append.mp hb with hb | hb
    · exact (List.pairwise_append.mp hq).2.2 b hb a (by simp)
    · rw [List.mem_singleton.mp hb]

end TimedQueue
