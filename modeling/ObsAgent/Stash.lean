import ObsAgent.Machine
import Mathlib.Tactic

/-! The slot of a caller: the start of a call may fill it, and its end empties it.  Whatever else
runs between the two, the end of a call finds what its own start has left. -/
namespace Stash

inductive Role
  | enter | exit | idle
  deriving DecidableEq

variable {S E O V : Type} {step : S → E → S × List O} {role : E → Role} {slot : S → Option V}
  {stash : S → E → Option V}

variable (step role slot stash) in
/-- What the inputs do to the slot. -/
structure Slotted : Prop where
  enter : ∀ s e, role e = .enter → slot (step s e).1 = (stash s e).or (slot s)
  exit : ∀ s e, role e = .exit → slot (step s e).1 = none
  idle : ∀ s e, role e = .idle → slot (step s e).1 = slot s

variable (role) in
/-- Every call that has started has ended. -/
def Closed (es : List E) : Prop :=
  ∀ pre e post, es = pre ++ e :: post → role e = .enter → ∃ x ∈ post, role x = .exit

theorem closed_of_no_enter {es : List E} (h : ∀ e ∈ es, role e ≠ .enter) : Closed role es := by
  intro pre e post hes henter
  exact absurd henter (h e (by simp [hes]))

theorem Closed.of_concat_idle {es : List E} {e : E} (h : Closed role (es ++ [e]))
    (hidle : role e = .idle) : Closed role es := by
  intro pre a post hes ha
  obtain ⟨x,hx,hexit⟩ := h pre a (post ++ [e]) (by rw [hes]; simp) ha
  rcases List.mem_append.mp hx with hx | hx
  · exact ⟨x,hx,hexit⟩
  · rw [List.mem_singleton.mp hx,hidle] at hexit
    cases hexit

theorem Closed.not_concat_enter {es : List E} {e : E} (h : Closed role (es ++ [e])) :
    role e ≠ .enter := by
  intro henter
  obtain ⟨x,hx,-⟩ := h es e [] rfl henter
  cases hx

/-- Behind calls that have all ended the slot is empty. -/
theorem Slotted.empty_of_closed (h : Slotted step role slot stash) {s : S} (hs : slot s = none)
    {es : List E} (hclosed : Closed role es) : slot (Machine.final step s es) = none := by
  induction es using List.reverseRecOn with
  | nil => exact hs
  | append_singleton es e ih =>
    rw [Machine.final_concat]
    cases hrole : role e with
    | enter => exact absurd hrole hclosed.not_concat_enter
    | exit => exact h.exit _ e hrole
    | idle => rw [h.idle _ e hrole,ih (hclosed.of_concat_idle hrole)]

theorem Slotted.unchanged (h : Slotted step role slot stash) (s : S) {es : List E}
    (hidle : ∀ e ∈ es, role e = .idle) : slot (Machine.final step s es) = slot s := by
  induction es using List.reverseRecOn with
  | nil => rfl
  | append_singleton es e ih =>
    rw [Machine.final_concat,h.idle _ e (hidle e (by simp)),ih fun a ha => hidle a (by simp [ha])]

/-- The end of a call finds what the start of the same call has left. -/
theorem Slotted.taken (h : Slotted step role slot stash) {s : S} (hs : slot s = none)
    {before between : List E} {e : E} (hclosed : Closed role before) (henter : role e = .enter)
    (hidle : ∀ a ∈ between, role a = .idle) :
    slot (Machine.final step s (before ++ e :: between)) = stash (Machine.final step s before) e := by
  have hbefore := h.empty_of_closed hs hclosed
  rw [Machine.final_append]
  change slot (Machine.final step (step (Machine.final step s before) e).1 between) = _
  rw [h.unchanged _ hidle,h.enter _ e henter,hbefore,Option.or_none]

variable {starts : E → Option V} {ends : S → E → Prop}

variable (step slot starts ends) in
structure FirstKept : Prop where
  ended : ∀ s e, ends s e → slot (step s e).1 = none
  kept : ∀ s e, ¬ends s e → slot (step s e).1 = (slot s).or (starts e)

/-- What the slot holds was given to it when it was empty, and nothing has ended it since. -/
theorem FirstKept.origin (h : FirstKept step slot starts ends) {s : S} (hs : slot s = none)
    {es : List E} {v : V} (hv : slot (Machine.final step s es) = some v) :
    ∃ pre e mid, es = pre ++ e :: mid ∧ starts e = some v ∧
      slot (Machine.final step s pre) = none ∧
      Machine.Along step (fun s e => ¬ends s e) (Machine.final step s (pre ++ [e])) mid := by
  induction es using List.reverseRecOn with
  | nil =>
    rw [Machine.final,List.foldl_nil,hs] at hv
    cases hv
  | append_singleton es a ih =>
    rw [Machine.final_concat] at hv
    by_cases hend : ends (Machine.final step s es) a
    · rw [h.ended _ a hend] at hv
      cases hv
    · rw [h.kept _ a hend] at hv
      cases hslot : slot (Machine.final step s es) with
      | none =>
        rw [hslot,Option.none_or] at hv
        exact ⟨es,a,[],rfl,hv,hslot,trivial⟩
      | some w =>
        rw [hslot,Option.some_or] at hv
        obtain ⟨pre,e,mid,rfl,hstart,hempty,halong⟩ := ih (hslot.trans hv)
        refine ⟨pre,e,mid ++ [a],by simp,hstart,hempty,?_⟩
        rw [Machine.along_concat,← Machine.final_append,List.append_assoc,List.singleton_append]
        exact ⟨halong,hend⟩

/-- An empty slot was given nothing since it was last ended. -/
theorem FirstKept.unstarted (h : FirstKept step slot starts ends) {s : S} {es : List E}
    (hnone : slot (Machine.final step s es) = none) :
    ∃ old since, es = old ++ since ∧
      (old = [] ∨ ∃ es' e, old = es' ++ [e] ∧ ends (Machine.final step s es') e) ∧
        ∀ e ∈ since, starts e = none := by
  induction es using List.reverseRecOn with
  | nil => exact ⟨[],[],rfl,.inl rfl,nofun⟩
  | append_singleton es a ih =>
    by_cases hend : ends (Machine.final step s es) a
    · exact ⟨es ++ [a],[],(List.append_nil _).symm,.inr ⟨es,a,rfl,hend⟩,nofun⟩
    · rw [Machine.final_concat,h.kept _ a hend,Option.or_eq_none_iff] at hnone
      obtain ⟨old,since,rfl,hold,hsince⟩ := ih hnone.1
      refine ⟨old,since ++ [a],List.append_assoc _ _ _,hold,fun e he => ?_⟩
      rcases List.mem_append.mp he with he | he
      · exact hsince e he
      · rw [List.mem_singleton.mp he]
        exact hnone.2

end Stash
