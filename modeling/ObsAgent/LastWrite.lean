import Mathlib.Data.List.Induction
import Mathlib.Tactic

/-! A register over a log: every entry of the log leaves it, clears it or writes it.
What the register holds is what the last entry that touched it wrote. -/
namespace LastWrite

variable {α β : Type*}

inductive Effect (β : Type*)
  | keep | clear
  | write (b : β)

/-- The register after an entry at position `n`. -/
def Effect.update (held : Option (ℕ × β)) (n : ℕ) : Effect β → Option (ℕ × β)
  | .keep => held
  | .clear => none
  | .write b => some (n,b)

/-- The register at the end of a log, with the position of the write. -/
def held (eff : α → Effect β) (log : List α) : Option (ℕ × β) :=
  log.zipIdx.foldl (fun r e => (eff e.1).update r e.2) none

@[simp] theorem held_nil (eff : α → Effect β) : held eff [] = none := rfl

theorem held_concat (eff : α → Effect β) (log : List α) (a : α) :
    held eff (log ++ [a]) = (eff a).update (held eff log) log.length := by
  simp [held,List.zipIdx_append]

theorem held_append_keep {eff : α → Effect β} {log more : List α}
    (h : ∀ a ∈ more, eff a = .keep) : held eff (log ++ more) = held eff log := by
  induction more using List.reverseRecOn with
  | nil => simp
  | append_singleton more a ih =>
    rw [← List.append_assoc,held_concat,h a (by simp),Effect.update,
      ih fun b hb => h b (by simp [hb])]

/-- The register holds `b` since position `i`: it was written there and not touched again. -/
def Since (eff : α → Effect β) (log : List α) (i : ℕ) (b : β) : Prop :=
  (∃ a, log[i]? = some a ∧ eff a = .write b) ∧
    ∀ m a, i < m → log[m]? = some a → eff a = .keep

theorem getElem?_take_eq_some {log : List α} {n i : ℕ} {a : α} :
    (log.take n)[i]? = some a ↔ i < n ∧ log[i]? = some a := by
  rw [List.getElem?_take]
  split_ifs with hi <;> simp [hi]

theorem getElem?_concat_cases {log : List α} {a x : α} {m : ℕ}
    (h : (log ++ [a])[m]? = some x) : log[m]? = some x ∨ m = log.length ∧ x = a := by
  rcases Nat.lt_trichotomy m log.length with hlt | rfl | hgt
  · exact Or.inl (by rwa [List.getElem?_append_left hlt] at h)
  · exact Or.inr ⟨rfl,by simpa using h.symm⟩
  · have := (List.getElem?_eq_some_iff.mp h).1
    simp only [List.length_append,List.length_singleton] at this
    omega

/-- `b` was written at position `i`, and every later entry keeps it. -/
def Lasts (writes : α → β → Prop) (keeps : β → α → Prop) (log : List α) (i : ℕ) (b : β) : Prop :=
  (∃ a, log[i]? = some a ∧ writes a b) ∧ ∀ m a, i < m → log[m]? = some a → keeps b a

theorem lasts_concat {writes : α → β → Prop} {keeps : β → α → Prop} {log : List α} {a : α} {i : ℕ}
    {b : β} :
    Lasts writes keeps (log ++ [a]) i b ↔
      keeps b a ∧ Lasts writes keeps log i b ∨ writes a b ∧ i = log.length := by
  have hlast : (log ++ [a])[log.length]? = some a := by simp
  have hbefore : ∀ {m : ℕ} {x : α}, log[m]? = some x → (log ++ [a])[m]? = some x := fun hx => by
    rw [List.getElem?_append_left (List.getElem?_eq_some_iff.mp hx).1,hx]
  constructor
  · rintro ⟨⟨x,hx,hw⟩,hkeep⟩
    rcases getElem?_concat_cases hx with hx | ⟨rfl,rfl⟩
    · have hi := (List.getElem?_eq_some_iff.mp hx).1
      exact Or.inl ⟨hkeep _ a hi hlast,⟨x,hx,hw⟩,fun m y hm hy => hkeep m y hm (hbefore hy)⟩
    · exact Or.inr ⟨hw,rfl⟩
  · rintro (⟨ha,⟨x,hx,hw⟩,hkeep⟩ | ⟨ha,rfl⟩)
    · refine ⟨⟨x,hbefore hx,hw⟩,fun m y hm hy => ?_⟩
      rcases getElem?_concat_cases hy with hy | ⟨_,rfl⟩
      · exact hkeep m y hm hy
      · exact ha
    · refine ⟨⟨a,hlast,ha⟩,fun m y hm hy => ?_⟩
      rcases getElem?_concat_cases hy with hy | ⟨rfl,_⟩
      · have := (List.getElem?_eq_some_iff.mp hy).1
        omega
      · omega

theorem since_concat {eff : α → Effect β} {log : List α} {a : α} {i : ℕ} {b : β} :
    Since eff (log ++ [a]) i b ↔
      eff a = .keep ∧ Since eff log i b ∨ eff a = .write b ∧ i = log.length :=
  @lasts_concat _ _ (fun a b => eff a = .write b) (fun _ a => eff a = .keep) log a i b

theorem held_eq_some_iff {eff : α → Effect β} {log : List α} {i : ℕ} {b : β} :
    held eff log = some (i,b) ↔ Since eff log i b := by
  induction log using List.reverseRecOn with
  | nil => simp [Since]
  | append_singleton log a ih =>
    rw [held_concat,since_concat,← ih]
    cases eff a with
    | keep => simp [Effect.update]
    | clear => simp [Effect.update]
    | write c => simp [Effect.update,and_comm,eq_comm]

section Kept

variable (writes : α → Option β) (drops : β → α → Bool)

/-- The register after an entry at position `n`. -/
def keep (held : Option (ℕ × β)) (n : ℕ) (a : α) : Option (ℕ × β) :=
  match writes a with
  | some b => some (n,b)
  | none => held.filter fun h => !drops h.2 a

def kept (log : List α) : Option (ℕ × β) :=
  log.zipIdx.foldl (fun r e => keep writes drops r e.2 e.1) none

theorem kept_concat (log : List α) (a : α) :
    kept writes drops (log ++ [a]) = keep writes drops (kept writes drops log) log.length a := by
  simp [kept,List.zipIdx_append]

theorem map_snd_keep (r : Option (ℕ × β)) (n : ℕ) (a : α) :
    (keep writes drops r n a).map Prod.snd =
      (writes a).or ((r.map Prod.snd).filter fun b => !drops b a) := by
  rw [keep]
  cases writes a with
  | some b => rfl
  | none =>
    cases r with
    | none => rfl
    | some h => by_cases hd : drops h.2 a = true <;> simp [Option.filter,hd]

/-- The register holds the last write that nothing dropped. -/
theorem kept_eq_some_iff {log : List α} {i : ℕ} {b : β} :
    kept writes drops log = some (i,b) ↔
      Lasts (fun a b => writes a = some b) (fun b a => writes a = none ∧ drops b a = false) log i
        b := by
  induction log using List.reverseRecOn with
  | nil => simp [kept,Lasts]
  | append_singleton log a ih =>
    rw [kept_concat,lasts_concat,← ih,keep]
    cases writes a with
    | none =>
      simp only [Option.filter_eq_some_iff,reduceCtorEq,false_and,or_false,true_and,
        Bool.not_eq_true']
      exact and_comm
    | some c =>
      simp only [Option.some.injEq,Prod.mk.injEq,reduceCtorEq,false_and,false_or]
      exact ⟨fun h => ⟨h.2,h.1.symm⟩,fun h => ⟨h.2.symm,h.1⟩⟩

end Kept

end LastWrite
