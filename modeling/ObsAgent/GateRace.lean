import ObsAgent.CaptureGate
import ObsAgent.Machine

/-! The two writers of `DENIED_TGID` at the grain of their locks.  The drain loop denies a process
lazily, the sweep makes the map follow a snapshot; both hold a lock for one access to the map or to
the account of it and release it in between. -/
namespace ObsAgent

/-- Where the drain loop is in `lazy_deny_insert`. -/
inductive DrainPc
  | idle
  | checked (t : UInt32)
  | inserted (t : UInt32)
  deriving DecidableEq

/-- The drain loop is about to write this key. -/
def DrainPc.On (t : UInt32) (pc : DrainPc) : Prop := pc = .checked t ∨ pc = .inserted t

/-- One round of a loop of `apply_tgid_hashmap`. -/
inductive SweepAct
  | remove (t : UInt32)
  | insert (t : UInt32)
  deriving DecidableEq

def SweepAct.key : SweepAct → UInt32
  | remove t | insert t => t

/-- The map with its account, the drain loop, and the rounds of the sweep: the one whose account is
still to be written, and those to come. -/
structure GateThreads where
  gate : TgidMap
  drain : DrainPc
  half : Option SweepAct
  todo : List SweepAct

/-- One section under a lock. -/
inductive GateStep
  | check (t : UInt32)
  | lazyInsert (fails : Bool)
  | lazyPublish
  | sweepStart (desired : TgidSet)
  | sweepMap (fails : Bool)
  | sweepPublish

def SweepAct.sections (faults : Faults) : SweepAct → List GateStep
  | .remove t => [.sweepMap (faults.remove t),.sweepPublish]
  | .insert t => [.sweepMap (faults.insert t),.sweepPublish]

def SweepAct.apply (faults : Faults) (m : TgidMap) : SweepAct → TgidMap
  | .remove t => m.remove faults.remove t
  | .insert t => m.insert faults.insert t

def sweepPlan (published desired : TgidSet) : List SweepAct :=
  (tgidMapDelta published desired).1.map .remove ++ (tgidMapDelta published desired).2.map .insert

namespace GateThreads

def start : GateThreads := ⟨⟨∅,∅⟩,.idle,none,[]⟩

/-- A section that its thread has not come to changes nothing. -/
def step (s : GateThreads) : GateStep → GateThreads
  | .check t =>
    if s.drain = .idle then
      {s with drain := if s.gate.published.contains t then .idle else .checked t}
    else s
  | .lazyInsert fails =>
    match s.drain with
    | .checked t =>
      if fails then {s with drain := .idle}
      else {s with gate := {s.gate with map := s.gate.map.put t 1}, drain := .inserted t}
    | _ => s
  | .lazyPublish =>
    match s.drain with
    | .inserted t =>
      {s with gate := {s.gate with published := s.gate.published.put t ()}, drain := .idle}
    | _ => s
  | .sweepStart desired =>
    if s.half = none ∧ s.todo = [] then {s with todo := sweepPlan s.gate.published desired} else s
  | .sweepMap fails =>
    match s.half,s.todo with
    | none,.remove t :: rest =>
      if fails || !s.gate.map.contains t then {s with todo := rest}
      else {s with
        gate := {s.gate with map := s.gate.map.remove t}
        half := some (.remove t)
        todo := rest}
    | none,.insert t :: rest =>
      if fails then {s with todo := rest}
      else {s with
        gate := {s.gate with map := s.gate.map.put t 1}
        half := some (.insert t)
        todo := rest}
    | _,_ => s
  | .sweepPublish =>
    match s.half with
    | some (.remove t) =>
      {s with gate := {s.gate with published := s.gate.published.remove t}, half := none}
    | some (.insert t) =>
      {s with gate := {s.gate with published := s.gate.published.put t ()}, half := none}
    | none => s

def machine (s : GateThreads) (e : GateStep) : GateThreads × List Unit := (s.step e,[])

/-- A thread has written the map at this key and not yet the account. -/
def Writing (s : GateThreads) (t : UInt32) : Prop :=
  s.half = some (.remove t) ∨ s.half = some (.insert t) ∨ s.drain = .inserted t

/-- The drain loop does not hold a check that a sweep has overtaken when the next sweep starts. -/
def Timely (s : GateThreads) : GateStep → Prop
  | .sweepStart _ => ∀ t, s.drain.On t → s.gate.published.contains t = false
  | _ => True

/-- The map and the account agree on every key that no thread is writing. -/
structure Consistent (s : GateThreads) : Prop where
  distinct : ((s.half.toList ++ s.todo).map SweepAct.key).Nodup
  published : ∀ t, .remove t ∈ s.half.toList ++ s.todo → s.gate.published.contains t = true
  apart : ∀ t, .remove t ∈ s.half.toList ++ s.todo → ¬s.drain.On t
  removed : ∀ t, s.half = some (.remove t) → s.gate.map.contains t = false
  inserted : ∀ t, s.half = some (.insert t) → s.gate.map.contains t = true
  lazily : ∀ t, s.drain = .inserted t → s.gate.map.contains t = true
  settled : ∀ t, s.half ≠ some (.remove t) → s.half ≠ some (.insert t) → s.drain ≠ .inserted t →
    s.gate.published.contains t = s.gate.map.contains t

theorem mem_of_half {s : GateThreads} {a : SweepAct} (h : s.half = some a) :
    a ∈ s.half.toList ++ s.todo := by
  rw [h]
  exact List.mem_cons_self

theorem Consistent.start : Consistent start :=
  ⟨List.nodup_nil,nofun,nofun,nofun,nofun,nofun,fun _ _ _ _ => rfl⟩

theorem Consistent.check {s : GateThreads} (h : s.Consistent) (t : UInt32) :
    (s.step (.check t)).Consistent := by
  simp only [step]
  split_ifs with hidle hpub
  · exact {h with
      apart := fun u _ hon => by simp [DrainPc.On] at hon
      lazily := by simp
      settled := fun u hrem hins _ => h.settled u hrem hins (by simp [hidle])}
  · refine {h with apart := ?_, lazily := by simp, settled := ?_}
    · rintro u hu (hon | hon)
      · cases hon
        exact hpub (h.published t hu)
      · cases hon
    · intro u hrem hins _
      exact h.settled u hrem hins (by simp [hidle])
  · exact h

theorem Consistent.lazyInsert {s : GateThreads} (h : s.Consistent) (fails : Bool) :
    (s.step (.lazyInsert fails)).Consistent := by
  simp only [step]
  split
  · next t hdrain =>
    have hnot : ∀ u, s.drain ≠ .inserted u := fun u => by simp [hdrain]
    split_ifs with hfails
    · exact {h with
        apart := fun u _ hon => by simp [DrainPc.On] at hon
        lazily := by simp
        settled := fun u hrem hins _ => h.settled u hrem hins (hnot u)}
    · have hon : s.drain.On t := .inl hdrain
      refine {h with apart := ?_, removed := ?_, inserted := ?_, lazily := ?_, settled := ?_}
      · rintro u hu (hu' | hu')
        · cases hu'
        · cases hu'
          exact h.apart t hu hon
      · intro u hu
        have hne : u ≠ t := by
          rintro rfl
          exact h.apart u (mem_of_half hu) hon
        rw [FiniteMap.contains_put,h.removed u hu]
        simp [hne]
      · intro u hu
        rw [FiniteMap.contains_put,h.inserted u hu,Bool.or_true]
      · intro u hu
        cases hu
        rw [FiniteMap.contains_put]
        simp
      · intro u hrem hins hne
        have hut : u ≠ t := by
          rintro rfl
          exact hne rfl
        rw [FiniteMap.contains_put,h.settled u hrem hins (hnot u)]
        simp [hut]
  · exact h

theorem Consistent.lazyPublish {s : GateThreads} (h : s.Consistent) :
    (s.step .lazyPublish).Consistent := by
  simp only [step]
  split
  · next t hdrain =>
    have hmap := h.lazily t hdrain
    refine {h with published := ?_, apart := ?_, lazily := by simp, settled := ?_}
    · intro u hu
      rw [FiniteMap.contains_put,h.published u hu,Bool.or_true]
    · intro u _ hon
      simp [DrainPc.On] at hon
    · intro u hrem hins _
      rw [FiniteMap.contains_put]
      by_cases hut : u = t
      · subst hut
        simp [hmap]
      · rw [h.settled u hrem hins (by rw [hdrain]; simpa using Ne.symm hut)]
        simp [hut]
  · exact h

theorem sweepPlan_distinct (published desired : TgidSet) :
    ((sweepPlan published desired).map SweepAct.key).Nodup := by
  have hkeys : (sweepPlan published desired).map SweepAct.key =
      (tgidMapDelta published desired).1 ++ (tgidMapDelta published desired).2 := by
    simp [sweepPlan,Function.comp_def,SweepAct.key]
  rw [hkeys,List.nodup_append]
  refine ⟨published.keys_nodup.filter _,desired.keys_nodup.filter _,?_⟩
  intro a ha b hb hab
  subst hab
  have hin := (FiniteMap.mem_keys_iff published a).mp (List.mem_of_mem_filter ha)
  have hout := (List.mem_filter.mp hb).2
  rw [FiniteMap.contains,hin] at hout
  cases hout

theorem mem_sweepPlan_remove {published desired : TgidSet} {t : UInt32}
    (h : .remove t ∈ sweepPlan published desired) : published.contains t = true := by
  have hin : t ∈ (tgidMapDelta published desired).1 := by simpa [sweepPlan] using h
  exact (FiniteMap.mem_keys_iff published t).mp (List.mem_of_mem_filter hin)

theorem Consistent.sweepStart {s : GateThreads} (h : s.Consistent) {desired : TgidSet}
    (htimely : s.Timely (.sweepStart desired)) : (s.step (.sweepStart desired)).Consistent := by
  simp only [step]
  split_ifs with hidle
  · refine {h with distinct := ?_, published := ?_, apart := ?_}
    · rw [hidle.1]
      exact sweepPlan_distinct _ desired
    · intro t ht
      rw [hidle.1] at ht
      exact mem_sweepPlan_remove ht
    · intro t ht hon
      rw [hidle.1] at ht
      have hpub := mem_sweepPlan_remove ht
      rw [htimely t hon] at hpub
      cases hpub
  · exact h

theorem Consistent.skip {s : GateThreads} (h : s.Consistent) {a : SweepAct} {rest : List SweepAct}
    (hhalf : s.half = none) (htodo : s.todo = a :: rest) : Consistent {s with todo := rest} := by
  have hdistinct := h.distinct
  have hmem : ∀ b ∈ s.half.toList ++ rest, b ∈ s.half.toList ++ s.todo := fun b hb => by
    rw [hhalf] at hb ⊢
    rw [htodo]
    exact .tail a hb
  refine {h with distinct := ?_, published := fun t ht => h.published t (hmem _ ht), apart :=
    fun t ht => h.apart t (hmem _ ht)}
  rw [hhalf,htodo] at hdistinct
  rw [hhalf]
  exact (List.nodup_cons.mp hdistinct).2

theorem Consistent.sweepRemove {s : GateThreads} (h : s.Consistent) {t : UInt32}
    {rest : List SweepAct} (hhalf : s.half = none) (htodo : s.todo = .remove t :: rest) :
    Consistent {s with
      gate := {s.gate with map := s.gate.map.remove t}
      half := some (.remove t)
      todo := rest} := by
  have hdistinct := h.distinct
  have hpublished := h.published
  have hapart := h.apart
  rw [hhalf,htodo] at hdistinct hpublished hapart
  have hdrain : ¬s.drain.On t := hapart t List.mem_cons_self
  refine ⟨hdistinct,hpublished,hapart,?_,by simp,?_,?_⟩
  · intro u hu
    cases hu
    simp [FiniteMap.contains_remove]
  · intro u hu
    have hne : u ≠ t := by
      rintro rfl
      exact hdrain (.inr hu)
    rw [FiniteMap.contains_remove,h.lazily u hu]
    simp [hne]
  · intro u hrem hins hlazy
    have hne : u ≠ t := by
      rintro rfl
      exact hrem rfl
    rw [FiniteMap.contains_remove,h.settled u (by simp [hhalf]) (by simp [hhalf])
      hlazy]
    simp [hne]

theorem Consistent.sweepInsert {s : GateThreads} (h : s.Consistent) {t : UInt32}
    {rest : List SweepAct} (hhalf : s.half = none) (htodo : s.todo = .insert t :: rest) :
    Consistent {s with
      gate := {s.gate with map := s.gate.map.put t 1}
      half := some (.insert t)
      todo := rest} := by
  have hdistinct := h.distinct
  have hpublished := h.published
  have hapart := h.apart
  rw [hhalf,htodo] at hdistinct hpublished hapart
  refine ⟨hdistinct,hpublished,hapart,by simp,?_,?_,?_⟩
  · intro u hu
    cases hu
    simp [FiniteMap.contains_put]
  · intro u hu
    rw [FiniteMap.contains_put,h.lazily u hu,Bool.or_true]
  · intro u hrem hins hlazy
    have hne : u ≠ t := by
      rintro rfl
      exact hins rfl
    rw [FiniteMap.contains_put,h.settled u (by simp [hhalf]) (by simp [hhalf])
      hlazy]
    simp [hne]

theorem Consistent.sweepMap {s : GateThreads} (h : s.Consistent) (fails : Bool) :
    (s.step (.sweepMap fails)).Consistent := by
  simp only [step]
  split
  · next t rest hhalf htodo =>
    split_ifs
    · exact h.skip hhalf htodo
    · exact h.sweepRemove hhalf htodo
  · next t rest hhalf htodo =>
    split_ifs
    · exact h.skip hhalf htodo
    · exact h.sweepInsert hhalf htodo
  · exact h

theorem Consistent.sweepPublish {s : GateThreads} (h : s.Consistent) :
    (s.step .sweepPublish).Consistent := by
  have hdistinct := h.distinct
  have hpublished := h.published
  have hapart := h.apart
  simp only [step]
  split
  · next t hhalf =>
    rw [hhalf] at hdistinct hpublished hapart
    obtain ⟨hfresh,hrest⟩ := List.nodup_cons.mp hdistinct
    refine ⟨hrest,?_,fun u hu => hapart u (.tail _ hu),by simp,by simp,h.lazily,?_⟩
    · intro u hu
      have hne : u ≠ t := by
        rintro rfl
        exact hfresh (List.mem_map.mpr ⟨_,hu,rfl⟩)
      rw [FiniteMap.contains_remove,hpublished u (.tail _ hu)]
      simp [hne]
    · intro u _ _ hlazy
      rw [FiniteMap.contains_remove]
      by_cases hut : u = t
      · subst hut
        simp [h.removed u hhalf]
      · rw [h.settled u (by rw [hhalf]; simpa using Ne.symm hut) (by simp [hhalf]) hlazy]
        simp [hut]
  · next t hhalf =>
    rw [hhalf] at hdistinct hpublished hapart
    refine ⟨(List.nodup_cons.mp hdistinct).2,?_,fun u hu => hapart u (.tail _ hu),by simp,by simp,
      h.lazily,?_⟩
    · intro u hu
      rw [FiniteMap.contains_put,hpublished u (.tail _ hu),Bool.or_true]
    · intro u _ _ hlazy
      rw [FiniteMap.contains_put]
      by_cases hut : u = t
      · subst hut
        simp [h.inserted u hhalf]
      · rw [h.settled u (by simp [hhalf]) (by rw [hhalf]; simpa using Ne.symm hut) hlazy]
        simp [hut]
  · exact h

theorem Consistent.step {s : GateThreads} (h : s.Consistent) {e : GateStep} (he : s.Timely e) :
    (s.step e).Consistent := by
  cases e with
  | check t => exact h.check t
  | lazyInsert fails => exact h.lazyInsert fails
  | lazyPublish => exact h.lazyPublish
  | sweepStart desired => exact h.sweepStart he
  | sweepMap fails => exact h.sweepMap fails
  | sweepPublish => exact h.sweepPublish

/-- In whatever way the two threads interleave, the account names the keys of the map, but for the
key that a thread is writing. -/
theorem gate_account_exact (es : List GateStep) (hes : Machine.Along machine Timely start es)
    (t : UInt32) (hidle : ¬(Machine.final machine start es).Writing t) :
    (Machine.final machine start es).gate.published.contains t =
      (Machine.final machine start es).gate.map.contains t := by
  have h : (Machine.final machine start es).Consistent :=
    Machine.final_along machine (fun h he => h.step he) .start hes
  obtain ⟨hrem,hrest⟩ := not_or.mp hidle
  obtain ⟨hins,hlazy⟩ := not_or.mp hrest
  exact h.settled t hrem hins hlazy

/-- A sweep that removes a key while the drain loop denies another one, and then the removed one. -/
theorem gate_account_exact_of_overlap :
    let es : List GateStep := [.check 9,.lazyInsert false,.lazyPublish,.check 12,.sweepStart ∅,
      .sweepMap false,.lazyInsert false,.sweepPublish,.lazyPublish,.check 9,.lazyInsert false,
      .lazyPublish]
    (Machine.final machine start es).gate.published.contains 9 = true ∧
      (Machine.final machine start es).gate.published.contains 9 =
        (Machine.final machine start es).gate.map.contains 9 := by
  intro es
  have htimely : (Machine.final machine start [.check 9,.lazyInsert false,.lazyPublish,
      .check 12]).Timely (.sweepStart ∅) := by
    rintro t (ht | ht)
    · cases ht
      decide
    · cases ht
  have halong : Machine.Along machine Timely start es :=
    ⟨trivial,trivial,trivial,trivial,htimely,trivial,trivial,trivial,trivial,trivial,trivial,trivial,
      trivial⟩
  refine ⟨by decide,gate_account_exact es halong 9 ?_⟩
  rintro (h | h | h) <;> exact absurd h (by decide)

/-- A check that two sweeps have overtaken: the account keeps a key that the map has lost. -/
example :
    let es : List GateStep := [.check 9,.sweepStart (FiniteMap.put ∅ 9 ()),.sweepMap false,
      .sweepPublish,.sweepStart ∅,.lazyInsert false,.sweepMap false,.sweepPublish,.lazyPublish]
    (Machine.final machine start es).gate.published.contains 9 = true ∧
      (Machine.final machine start es).gate.map.contains 9 = false := by
  decide

theorem lazyDeny_alone (s : GateThreads) (hidle : s.drain = .idle) (t : UInt32) (fails : Bool) :
    Machine.final machine s [.check t,.lazyInsert fails,.lazyPublish] =
      {s with gate := if s.gate.published.contains t then s.gate
        else s.gate.insert (fun _ => fails) t} := by
  obtain ⟨gate,drain,half,todo⟩ := s
  cases hidle
  cases hpub : gate.published.contains t with
  | true => simp [Machine.final,machine,step,hpub]
  | false => cases fails <;> simp [Machine.final,machine,step,hpub,TgidMap.insert]

theorem rounds_alone (faults : Faults) (gate : TgidMap) (drain : DrainPc) (todo : List SweepAct) :
    Machine.final machine ⟨gate,drain,none,todo⟩ (todo.flatMap (SweepAct.sections faults)) =
      ⟨todo.foldl (SweepAct.apply faults) gate,drain,none,[]⟩ := by
  induction todo generalizing gate with
  | nil => rfl
  | cons a todo ih =>
    have hround : Machine.final machine ⟨gate,drain,none,a :: todo⟩ (a.sections faults) =
        ⟨a.apply faults gate,drain,none,todo⟩ := by
      cases a with
      | remove t =>
        simp only [Machine.final,machine,step,SweepAct.sections,SweepAct.apply,TgidMap.remove,
          List.foldl_cons,List.foldl_nil]
        cases faults.remove t || !gate.map.contains t <;> rfl
      | insert t =>
        simp only [Machine.final,machine,step,SweepAct.sections,SweepAct.apply,TgidMap.insert,
          List.foldl_cons,List.foldl_nil]
        cases faults.insert t <;> rfl
    rw [List.flatMap_cons,Machine.final_append,hround,ih,List.foldl_cons]

theorem sweep_alone (s : GateThreads) (hhalf : s.half = none) (htodo : s.todo = [])
    (desired : TgidSet) (faults : Faults) :
    Machine.final machine s (.sweepStart desired ::
      (sweepPlan s.gate.published desired).flatMap (SweepAct.sections faults)) =
      {s with gate := s.gate.applyTgidHashmap desired faults} := by
  obtain ⟨gate,drain,half,todo⟩ := s
  cases hhalf
  cases htodo
  have hplan : (sweepPlan gate.published desired).foldl (SweepAct.apply faults) gate =
      gate.applyTgidHashmap desired faults := by
    simp only [sweepPlan,List.foldl_append,List.foldl_map,SweepAct.apply,TgidMap.applyTgidHashmap]
  have hrounds := rounds_alone faults gate drain (sweepPlan gate.published desired)
  rw [hplan] at hrounds
  exact hrounds

end GateThreads
end ObsAgent
