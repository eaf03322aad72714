import Mathlib.Data.List.Basic

/-! Machines that answer every input with a list of outputs, and a rule for comparing a run
with the run on a part of its inputs. -/
namespace Machine

variable {S E O : Type} (step : S → E → S × List O)

/-- All outputs of a run, in order. -/
def outputs (s : S) : List E → List O
  | [] => []
  | e :: es => (step s e).2 ++ outputs (step s e).1 es

/-- The last state of a run. -/
def final (s : S) (es : List E) : S := es.foldl (fun s e => (step s e).1) s

theorem final_append (s : S) (es es' : List E) :
    final step s (es ++ es') = final step (final step s es) es' := by
  rw [final,List.foldl_append,final,final]

theorem final_concat (s : S) (es : List E) (e : E) :
    final step s (es ++ [e]) = (step (final step s es) e).1 := final_append step s es [e]

theorem final_invariant {I : S → Prop} (hstep : ∀ {s} e, I s → I (step s e).1) {s : S} (h : I s)
    (es : List E) : I (final step s es) := by
  induction es generalizing s with
  | nil => exact h
  | cons e es ih => exact ih (hstep e h)

/-- A relation between the state and all outputs so far holds behind a run. -/
theorem final_log {I : S → List O → Prop}
    (hstep : ∀ {s log} e, I s log → I (step s e).1 (log ++ (step s e).2)) {s : S} {log : List O}
    (h : I s log) (es : List E) : I (final step s es) (log ++ outputs step s es) := by
  induction es generalizing s log with
  | nil => simpa [outputs,final] using h
  | cons e es ih =>
    rw [outputs,← List.append_assoc]
    exact ih (hstep e h)

theorem final_log_of_forall {I : S → List O → Prop} {P : E → Prop}
    (hstep : ∀ {s log e}, I s log → P e → I (step s e).1 (log ++ (step s e).2)) {s : S}
    {log : List O} (h : I s log) {es : List E} (hes : ∀ e ∈ es, P e) :
    I (final step s es) (log ++ outputs step s es) := by
  induction es generalizing s log with
  | nil => simpa [outputs,final] using h
  | cons e es ih =>
    rw [outputs,← List.append_assoc]
    exact ih (hstep h (hes e List.mem_cons_self)) fun a ha => hes a (.tail e ha)

/-- A relation between the inputs so far and the state holds behind a run. -/
theorem final_history {I : List E → S → Prop}
    (hstep : ∀ {es s} e, I es s → I (es ++ [e]) (step s e).1) {past : List E} {s : S} (h : I past s)
    (es : List E) : I (past ++ es) (final step s es) := by
  induction es generalizing past s with
  | nil => simpa [final] using h
  | cons e es ih =>
    rw [List.append_cons]
    exact ih (hstep e h)

theorem outputs_map {P : Type} {f : O → P} {g : E → List P} (h : ∀ s e, (step s e).2.map f = g e)
    (s : S) (es : List E) : (outputs step s es).map f = es.flatMap g := by
  induction es generalizing s with
  | nil => rfl
  | cons e es ih => rw [outputs,List.map_append,h,ih,List.flatMap_cons]

/-- Every input of a run meets a condition on the state that it finds. -/
def Along (P : S → E → Prop) (s : S) : List E → Prop
  | [] => True
  | e :: es => P s e ∧ Along P (step s e).1 es

theorem along_concat {P : S → E → Prop} {s : S} {es : List E} {e : E} :
    Along step P s (es ++ [e]) ↔ Along step P s es ∧ P (final step s es) e := by
  induction es generalizing s with
  | nil => simp [Along,final]
  | cons a es ih =>
    rw [List.cons_append,Along,Along,ih,and_assoc]
    rfl

theorem along_of_forall {P : E → Prop} {es : List E} (h : ∀ e ∈ es, P e) (s : S) :
    Along step (fun _ => P) s es := by
  induction es generalizing s with
  | nil => trivial
  | cons e es ih => exact ⟨h e List.mem_cons_self,ih (fun a ha => h a (.tail e ha)) _⟩

theorem final_along {I : S → Prop} {P : S → E → Prop}
    (hstep : ∀ {s e}, I s → P s e → I (step s e).1) {s : S} (h : I s) {es : List E}
    (halong : Along step P s es) : I (final step s es) := by
  induction es generalizing s with
  | nil => exact h
  | cons e es ih => exact ih (hstep h halong.1) halong.2

theorem outputs_along {I : S → Prop} {P : S → E → Prop} {Q : O → Prop}
    (hstep : ∀ {s e}, I s → P s e → I (step s e).1 ∧ ∀ o ∈ (step s e).2, Q o) {s : S} (h : I s)
    {es : List E} (halong : Along step P s es) : ∀ o ∈ outputs step s es, Q o := by
  induction es generalizing s with
  | nil => simp [outputs]
  | cons e es ih =>
    obtain ⟨hnext,hout⟩ := hstep h halong.1
    intro o ho
    rcases List.mem_append.mp ho with ho | ho
    · exact hout o ho
    · exact ih hnext halong.2 o ho

/-- Unwinding: a relation between the states of the two runs, and what is still to come, that
an input of the first run alone keeps without an output of interest, and that an input of both
keeps with the same outputs. -/
theorem outputs_filter {keep : E → Bool} {mine : O → Bool} {R : List E → S → S → Prop}
    (hskip : ∀ {e es s t}, R (e :: es) s t → keep e = false →
      R es (step s e).1 t ∧ (step s e).2.filter mine = [])
    (hboth : ∀ {e es s t}, R (e :: es) s t → keep e = true →
      R es (step s e).1 (step t e).1 ∧ (step s e).2.filter mine = (step t e).2)
    {es : List E} {s t : S} (h : R es s t) :
    (outputs step s es).filter mine = outputs step t (es.filter keep) := by
  induction es generalizing s t with
  | nil => rfl
  | cons e es ih =>
    rw [outputs,List.filter_append]
    cases hk : keep e with
    | false =>
      obtain ⟨hnext,hout⟩ := hskip h hk
      rw [hout,List.nil_append,ih hnext,List.filter_cons_of_neg (by simp [hk])]
    | true =>
      obtain ⟨hnext,hout⟩ := hboth h hk
      rw [hout,ih hnext,List.filter_cons_of_pos hk,outputs]

/-- Lockstep: two runs on inputs that go in pairs, with a relation between their states, and what
is still to come, that every pair keeps with the same outputs in view. -/
theorem lockstep {T P : Type} {f g : T → E} {view : O → Option P} {R : List T → S → S → Prop}
    (hstep : ∀ {t ts s s'}, R (t :: ts) s s' →
      R ts (step s (f t)).1 (step s' (g t)).1 ∧
        (step s (f t)).2.filterMap view = (step s' (g t)).2.filterMap view)
    {ts : List T} {s s' : S} (h : R ts s s') :
    (outputs step s (ts.map f)).filterMap view = (outputs step s' (ts.map g)).filterMap view ∧
      R [] (final step s (ts.map f)) (final step s' (ts.map g)) := by
  induction ts generalizing s s' with
  | nil => exact ⟨rfl,h⟩
  | cons t ts ih =>
    obtain ⟨hnext,hout⟩ := hstep h
    obtain ⟨houts,hend⟩ := ih hnext
    refine ⟨?_,hend⟩
    rw [List.map_cons,List.map_cons,outputs,outputs,List.filterMap_append,List.filterMap_append,hout,
      houts]

/-- The inputs that a reader picks out, each with the state that it finds. -/
def seen {Q : Type} (reads : S → E → Option Q) (s : S) : List E → List Q :=
  outputs (fun s e => ((step s e).1,(reads s e).toList)) s

theorem seen_of_input {Q : Type} (f : E → Option Q) (s : S) (es : List E) :
    seen step (fun _ => f) s es = es.filterMap f := by
  induction es generalizing s with
  | nil => rfl
  | cons e es ih =>
    change (f e).toList ++ seen step (fun _ => f) (step s e).1 es = _
    rw [ih]
    cases he : f e with
    | none => simp [he]
    | some q => simp [he]

theorem mem_seen {Q : Type} {reads : S → E → Option Q} {s : S} {es : List E} {q : Q}
    (h : q ∈ seen step reads s es) : ∃ s' e, e ∈ es ∧ reads s' e = some q := by
  induction es generalizing s with
  | nil => cases h
  | cons e es ih =>
    rcases List.mem_append.mp h with h | h
    · exact ⟨s,e,List.mem_cons_self,Option.mem_toList.mp h⟩
    · obtain ⟨s',e',he',hq⟩ := ih h
      exact ⟨s',e',List.mem_cons_of_mem e he',hq⟩

/-- A machine whose every step is one of a second machine, on a part of the state and of the outputs:
its runs are runs of the second machine. -/
theorem refines {S' E' O' : Type} (step' : S' → E' → S' × List O') (part : S → S')
    (reads : S → E → E') (view : O → Option O') {P : E → Prop}
    (hstep : ∀ s {e}, P e → part (step s e).1 = (step' (part s) (reads s e)).1 ∧
      (step s e).2.filterMap view = (step' (part s) (reads s e)).2)
    (s : S) {es : List E} (hes : ∀ e ∈ es, P e) :
    let inputs := seen step (fun s e => some (reads s e)) s es
    part (final step s es) = final step' (part s) inputs ∧
      (outputs step s es).filterMap view = outputs step' (part s) inputs := by
  induction es generalizing s with
  | nil => exact ⟨rfl,rfl⟩
  | cons e es ih =>
    obtain ⟨he,hes⟩ := List.forall_mem_cons.mp hes
    obtain ⟨hpart,hout⟩ := hstep s he
    obtain ⟨hend,houts⟩ := ih (step s e).1 hes
    rw [hpart] at hend houts
    refine ⟨hend,?_⟩
    rw [outputs,List.filterMap_append,hout,houts]
    rfl

/-- One answer: a state that waits shows the first input that is read and is idle from then on.
Both conditions are on the state and what is still to come. -/
theorem outputs_once {Q : Type} {reads : S → E → Option Q} {view : O → Option Q}
    {W I : List E → S → Prop}
    (hidle : ∀ {e es s}, I (e :: es) s → I es (step s e).1 ∧ (step s e).2.filterMap view = [])
    (hwait : ∀ {e es s}, W (e :: es) s → reads s e = none →
      W es (step s e).1 ∧ (step s e).2.filterMap view = [])
    (hanswer : ∀ {e es s q}, W (e :: es) s → reads s e = some q →
      I es (step s e).1 ∧ (step s e).2.filterMap view = [q])
    {es : List E} {s : S} (h : W es s) :
    (outputs step s es).filterMap view = (seen step reads s es).take 1 := by
  have hsilent : ∀ {es s}, I es s → (outputs step s es).filterMap view = [] := by
    intro es
    induction es with
    | nil => intro s _; rfl
    | cons e es ih =>
      intro s hs
      obtain ⟨hnext,hout⟩ := hidle hs
      rw [outputs,List.filterMap_append,hout,ih hnext,List.nil_append]
  induction es generalizing s with
  | nil => rfl
  | cons e es ih =>
    rw [outputs,List.filterMap_append,seen,outputs]
    cases hr : reads s e with
    | none =>
      obtain ⟨hnext,hout⟩ := hwait h hr
      rw [hout,List.nil_append,ih hnext]
      rfl
    | some q =>
      obtain ⟨hnext,hout⟩ := hanswer h hr
      rw [hout,hsilent hnext]
      rfl

end Machine
