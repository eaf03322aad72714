import Mathlib.Data.String.Basic
import ObsAgent.Ranking
import ObsAgent.TimedQueue
import ObsAgent.Trace

/-! The sample store against the complete history of its samples.  An eviction, by a push or by the
join of another span, stays behind the windows that are still joined, and the ranking shows nothing
of the order in which the samples came. -/
namespace ObsAgent

open Ranking

/-- A call of the store. -/
inductive ProfileOp
  | push (tgid : UInt32) (tsNs : ℕ) (frames : List String)
  | join (tgid : UInt32) (tStartNs tEndNs : ℕ)

namespace ProfileOp

def time : ProfileOp → ℕ
  | push _ tsNs _ => tsNs
  | join _ _ tEndNs => tEndNs

/-- A push without frames is no sample. -/
def sample : ProfileOp → Option StoredSample
  | push tgid tsNs frames => if frames.isEmpty then none else some ⟨tgid,tsNs,frames⟩
  | join .. => none

end ProfileOp

/-- All samples ever pushed. -/
def pushed (ops : List ProfileOp) : List StoredSample := ops.filterMap ProfileOp.sample

/-- The samples of a process in a span. -/
def samplesIn (tgid : UInt32) (s e : ℕ) (samples : List StoredSample) : List StoredSample :=
  samples.filter fun x => x.tgid = tgid && s ≤ x.tsNs && x.tsNs ≤ e

theorem samplesIn_append (tgid : UInt32) (s e : ℕ) (xs ys : List StoredSample) :
    samplesIn tgid s e (xs ++ ys) = samplesIn tgid s e xs ++ samplesIn tgid s e ys :=
  List.filter_append ..

def framesIn (tgid : UInt32) (s e : ℕ) (samples : List StoredSample) : List String :=
  (samplesIn tgid s e samples).flatMap StoredSample.frames

/-- The first names, on as many places as a span has. -/
def onTop (names : List String) : List String :=
  names.take profileTopFrames ++ List.replicate (profileTopFrames - names.length) ""

namespace ProfileStore

def step (p : ProfileStore) : ProfileOp → ProfileStore
  | .push tgid tsNs frames => p.pushSymbolized tgid tsNs frames
  | .join tgid tStartNs tEndNs => (p.join tgid tStartNs tEndNs).1

def run (config : ProfileConfig) (ops : List ProfileOp) : ProfileStore :=
  ops.foldl step (new config)

theorem run_concat (config : ProfileConfig) (ops : List ProfileOp) (op : ProfileOp) :
    run config (ops ++ [op]) = (run config ops).step op := List.foldl_concat ..

section

variable (p : ProfileStore) (tgid : UInt32)

theorem join_fst (s e : ℕ) : ∃ attempts hits,
    (p.join tgid s e).1 = {
      p with
      samples := if e ≤ s ∨ e - s < p.config.minLatencyNs then p.samples
        else (p.evictBefore e).samples
      joinAttempts := attempts
      joinHits := hits} := by
  rw [join]
  by_cases hle : e ≤ s
  · simp only [hle,if_true,true_or]
    exact ⟨_,_,rfl⟩
  by_cases hlat : e - s < p.config.minLatencyNs
  · simp only [hle,hlat,if_true,if_false,or_true]
    exact ⟨_,_,rfl⟩
  simp only [hle,hlat,if_false,or_false]
  split
  · exact ⟨_,_,rfl⟩
  · split_ifs <;> exact ⟨_,_,rfl⟩

theorem config_step (op : ProfileOp) : (p.step op).config = p.config := by
  cases op with
  | push tgid tsNs frames =>
    simp only [step,pushSymbolized]
    split_ifs <;> rfl
  | join tgid s e =>
    obtain ⟨_,_,h⟩ := p.join_fst tgid s e
    rw [step,h]

theorem config_run (config : ProfileConfig) (ops : List ProfileOp) :
    (run config ops).config = config := by
  induction ops using List.reverseRecOn with
  | nil => rfl
  | append_singleton ops op ih => rw [run_concat,config_step,ih]

theorem samplesIn_evictBefore {s e now : ℕ} (h : now ≤ s + p.config.storeTtlNs) :
    samplesIn tgid s e (p.evictBefore now).samples = samplesIn tgid s e p.samples := by
  apply TimedQueue.filter_dropWhile
  intro x hx
  have hlt : x.tsNs < s := by
    have hold := of_decide_eq_true hx
    omega
  simp [hlt]

theorem samplesIn_step {s e : ℕ} {op : ProfileOp} (h : op.time ≤ s + p.config.storeTtlNs)
    (hkept : (p.step op).samplesDropped = 0) :
    p.samplesDropped = 0 ∧
      samplesIn tgid s e (p.step op).samples =
        samplesIn tgid s e (p.samples ++ op.sample.toList) := by
  cases op with
  | push tgid' tsNs frames =>
    rw [step,pushSymbolized] at hkept ⊢
    rw [ProfileOp.sample]
    by_cases hempty : frames.isEmpty
    · rw [if_pos hempty] at hkept ⊢
      rw [if_pos hempty,Option.toList_none,List.append_nil]
      exact ⟨hkept,rfl⟩
    rw [if_neg hempty] at hkept ⊢
    rw [if_neg hempty,Option.toList_some,samplesIn_append]
    by_cases hfull : (p.evictBefore tsNs).samples.length ≥ (p.evictBefore tsNs).config.storeCap
    · simp only [if_pos hfull] at hkept
      exact absurd hkept (Nat.succ_ne_zero _)
    · simp only [if_neg hfull] at hkept ⊢
      have hbehind : samplesIn tgid s e (p.evictBefore tsNs).samples = samplesIn tgid s e p.samples :=
        p.samplesIn_evictBefore tgid h
      rw [samplesIn_append,hbehind]
      exact ⟨hkept,rfl⟩
  | join tgid' tStartNs tEndNs =>
    obtain ⟨_,_,hjoin⟩ := p.join_fst tgid' tStartNs tEndNs
    rw [step,hjoin] at hkept ⊢
    refine ⟨hkept,?_⟩
    dsimp only
    rw [ProfileOp.sample,Option.toList_none,List.append_nil]
    split_ifs
    · rfl
    · exact p.samplesIn_evictBefore tgid h

end

/-- A span shows every sample that was ever pushed into it. -/
theorem samplesIn_run {config : ProfileConfig} {ops : List ProfileOp} {s : ℕ} (tgid : UInt32)
    (e : ℕ) (htimes : ∀ op ∈ ops, op.time ≤ s + config.storeTtlNs)
    (hkept : (run config ops).samplesDropped = 0) :
    samplesIn tgid s e (run config ops).samples = samplesIn tgid s e (pushed ops) := by
  induction ops using List.reverseRecOn with
  | nil => rfl
  | append_singleton ops op ih =>
    have htime : op.time ≤ s + (run config ops).config.storeTtlNs := by
      rw [config_run]
      exact htimes op (by simp)
    rw [run_concat] at hkept ⊢
    obtain ⟨hbefore,hstep⟩ := (run config ops).samplesIn_step tgid (e := e) htime hkept
    rw [hstep,samplesIn_append,ih (fun o ho => htimes o (by simp [ho])) hbefore,pushed,pushed,
      List.filterMap_append,samplesIn_append]
    cases hsample : op.sample with
    | none => rw [List.filterMap_cons_none hsample]; rfl
    | some x => rw [List.filterMap_cons_some hsample]; rfl

theorem ranked_eq (frames : List String) :
    ranked frames = (frames.dedup.map fun f => (f,frames.count f)).mergeSort inFront := by
  rw [ranked]
  congr 1

/-- The names of the ranking are those of the multiset of frames in its order. -/
def topNames (frames : List String) : List String := (ranked frames).map Prod.fst

theorem rankedAs_topNames (frames : List String) :
    RankedAs (frames : Multiset String) (topNames frames) := by
  rw [topNames,ranked_eq]
  exact rankedAs_mergeSort frames

theorem map_take_ranked (frames : List String) (n : ℕ) :
    ((ranked frames).take n).map (·.1) = (topNames frames).take n := List.map_take ..

theorem join_snd (p : ProfileStore) {tgid : UInt32} {s e : ℕ} (hse : s < e)
    (hlat : p.config.minLatencyNs ≤ e - s) (hend : e ≤ s + p.config.storeTtlNs)
    (hnames : "" ∉ framesIn tgid s e p.samples) :
    (p.join tgid s e).2 =
      if framesIn tgid s e p.samples = [] then none
      else some (onTop (topNames (framesIn tgid s e p.samples))) := by
  have hbehind : samplesIn tgid s e
      ({p with joinAttempts := p.joinAttempts + 1}.evictBefore e).samples =
        samplesIn tgid s e p.samples := samplesIn_evictBefore _ tgid hend
  have hranked := rankedAs_topNames (framesIn tgid s e p.samples)
  rw [samplesIn] at hbehind
  rw [join,if_neg (Nat.not_le.mpr hse),if_neg (Nat.not_lt.mpr hlat)]
  dsimp only
  rw [hbehind,map_take_ranked,← framesIn]
  generalize topNames (framesIn tgid s e p.samples) = names at hranked ⊢
  cases names with
  | nil =>
    rw [if_pos (Multiset.coe_eq_zero _ |>.mp (hranked.eq_nil_iff.mp rfl))]
    rfl
  | cons first rest =>
    have hmem := (hranked.mem_iff first).mp (by simp)
    have hfirst : first ≠ "" := fun h => hnames (h ▸ hmem)
    rw [if_neg (List.ne_nil_of_mem hmem)]
    simp only [profileTopFrames,List.take_succ_cons,if_neg hfirst,onTop,List.length_cons,
      List.length_take]
    have hpad : 4 + 1 - (min 4 rest.length + 1) = 4 + 1 - (rest.length + 1) := by omega
    rw [hpad]

theorem frames_ne_nil {ops : List ProfileOp} {x : StoredSample} (hx : x ∈ pushed ops) :
    x.frames ≠ [] := by
  obtain ⟨op,-,hop⟩ := List.mem_filterMap.mp hx
  cases op with
  | push tgid tsNs frames =>
    rw [ProfileOp.sample] at hop
    split_ifs at hop with hempty
    rw [← Option.some_inj.mp hop]
    simpa using hempty
  | join => simp [ProfileOp.sample] at hop

theorem framesIn_eq_nil_iff (tgid : UInt32) (s e : ℕ) (ops : List ProfileOp) :
    framesIn tgid s e (pushed ops) = [] ↔ samplesIn tgid s e (pushed ops) = [] := by
  rw [framesIn,List.flatMap_eq_nil_iff]
  constructor
  · intro h
    refine List.eq_nil_iff_forall_not_mem.mpr fun x hx => ?_
    exact frames_ne_nil (List.mem_of_mem_filter hx) (h x hx)
  · intro h x hx
    rw [h] at hx
    exact absurd hx List.not_mem_nil

theorem join_run {config : ProfileConfig} {ops : List ProfileOp} {tgid : UInt32} {s e : ℕ}
    (hnames : ∀ x ∈ pushed ops, "" ∉ x.frames) (hkept : (run config ops).samplesDropped = 0)
    (hse : s < e) (hlat : config.minLatencyNs ≤ e - s) (hend : e ≤ s + config.storeTtlNs)
    (htimes : ∀ op ∈ ops, op.time ≤ s + config.storeTtlNs) :
    ((run config ops).join tgid s e).2 =
      if samplesIn tgid s e (pushed ops) = [] then none
      else some (onTop (topNames (framesIn tgid s e (pushed ops)))) := by
  have hshown : framesIn tgid s e (run config ops).samples = framesIn tgid s e (pushed ops) := by
    rw [framesIn,framesIn,samplesIn_run tgid e htimes hkept]
  have hno : "" ∉ framesIn tgid s e (pushed ops) := by
    intro h
    obtain ⟨x,hx,hname⟩ := List.mem_flatMap.mp h
    exact hnames x (List.mem_of_mem_filter hx) hname
  rw [join_snd _ hse (by rwa [config_run]) (by rwa [config_run]) (by rwa [hshown]),hshown]
  simp only [framesIn_eq_nil_iff]

end ProfileStore

/-- Calls that come at one time and differ at most in what their samples hold. -/
inductive ProfileOp.SameClock : ProfileOp → ProfileOp → Prop
  | push (tgid tgid' : UInt32) (tsNs : ℕ) {frames frames' : List String}
      (h : frames.isEmpty = frames'.isEmpty) :
      SameClock (.push tgid tsNs frames) (.push tgid' tsNs frames')
  | join (tgid : UInt32) (s e : ℕ) : SameClock (.join tgid s e) (.join tgid s e)

namespace ProfileStore

/-- Stores with the same timestamps, whatever the samples hold. -/
structure SameClock (p q : ProfileStore) : Prop where
  config : p.config = q.config
  times : p.samples.map StoredSample.tsNs = q.samples.map StoredSample.tsNs
  dropped : p.samplesDropped = q.samplesDropped

theorem SameClock.length {p q : ProfileStore} (h : p.SameClock q) :
    p.samples.length = q.samples.length := by
  have hlen := congrArg List.length h.times
  rwa [List.length_map,List.length_map] at hlen

theorem times_evictBefore (p : ProfileStore) (now : ℕ) :
    (p.evictBefore now).samples.map StoredSample.tsNs =
      (p.samples.map StoredSample.tsNs).dropWhile fun ts => now - ts > p.config.storeTtlNs := by
  rw [List.dropWhile_map]
  rfl

theorem SameClock.evictBefore {p q : ProfileStore} (h : p.SameClock q) (now : ℕ) :
    (p.evictBefore now).SameClock (q.evictBefore now) := by
  refine ⟨h.config,?_,h.dropped⟩
  rw [times_evictBefore,times_evictBefore,h.times,h.config]

theorem SameClock.step {p q : ProfileStore} (h : p.SameClock q) {op op' : ProfileOp}
    (hop : op.SameClock op') : (p.step op).SameClock (q.step op') := by
  cases hop with
  | push tgid tgid' tsNs hempty =>
    have hevicted := h.evictBefore tsNs
    rw [ProfileStore.step,ProfileStore.step,pushSymbolized,pushSymbolized,hempty]
    split_ifs with hnone
    · exact h
    dsimp only
    rw [hevicted.length,hevicted.config]
    split_ifs with hfull
    · refine ⟨rfl,?_,congrArg (· + 1) hevicted.dropped⟩
      simp only [List.map_append,List.map_tail,hevicted.times,List.map_cons,List.map_nil]
    · refine ⟨hevicted.config,?_,hevicted.dropped⟩
      simp only [List.map_append,hevicted.times,List.map_cons,List.map_nil]
  | join tgid s e =>
    obtain ⟨_,_,hp⟩ := p.join_fst tgid s e
    obtain ⟨_,_,hq⟩ := q.join_fst tgid s e
    rw [ProfileStore.step,ProfileStore.step,hp,hq,h.config]
    refine ⟨rfl,?_,h.dropped⟩
    dsimp only
    split_ifs
    · exact h.times
    · exact (h.evictBefore e).times

theorem SameClock.foldl {p q : ProfileStore} (h : p.SameClock q) {ops ops' : List ProfileOp}
    (hops : List.Forall₂ ProfileOp.SameClock ops ops') :
    (ops.foldl ProfileStore.step p).SameClock (ops'.foldl ProfileStore.step q) := by
  induction hops generalizing p q with
  | nil => exact h
  | cons hop _ ih => exact ih (h.step hop)

theorem sameClock_run (config : ProfileConfig) {ops ops' : List ProfileOp}
    (h : List.Forall₂ ProfileOp.SameClock ops ops') :
    (run config ops).SameClock (run config ops') :=
  SameClock.foldl ⟨rfl,rfl,rfl⟩ h

theorem map_time_eq {ops ops' : List ProfileOp} (h : List.Forall₂ ProfileOp.SameClock ops ops') :
    ops.map ProfileOp.time = ops'.map ProfileOp.time := by
  induction h with
  | nil => rfl
  | cons hop _ ih => cases hop <;> exact congrArg (_ :: ·) ih

/-- Nothing of a span that the store still joins has been lost: the join shows the ranking of all
frames that were ever pushed into the span, and nothing of the order of the samples of one time. -/
theorem join_ranks_history (config : ProfileConfig) (ops : List ProfileOp) (tgid : UInt32)
    (s e : ℕ) (hnames : ∀ x ∈ pushed ops, "" ∉ x.frames)
    (hkept : (run config ops).samplesDropped = 0) (hse : s < e)
    (hlat : config.minLatencyNs ≤ e - s) (hend : e ≤ s + config.storeTtlNs)
    (htimes : ∀ op ∈ ops, op.time ≤ s + config.storeTtlNs) :
    (∃ names, RankedAs (framesIn tgid s e (pushed ops) : Multiset String) names ∧
      ((run config ops).join tgid s e).2 =
        if samplesIn tgid s e (pushed ops) = [] then none else some (onTop names)) ∧
    ∀ ops', List.Forall₂ ProfileOp.SameClock ops ops' → (pushed ops).Perm (pushed ops') →
      ((run config ops').join tgid s e).2 = ((run config ops).join tgid s e).2 := by
  refine ⟨⟨_,rankedAs_topNames _,join_run hnames hkept hse hlat hend htimes⟩,?_⟩
  intro ops' hclock hperm
  have hsamples : (samplesIn tgid s e (pushed ops)).Perm (samplesIn tgid s e (pushed ops')) :=
    hperm.filter _
  have hframes : (framesIn tgid s e (pushed ops)).Perm (framesIn tgid s e (pushed ops')) :=
    hsamples.flatMap_right _
  have htop : topNames (framesIn tgid s e (pushed ops')) =
      topNames (framesIn tgid s e (pushed ops)) := by
    have hranked := rankedAs_topNames (framesIn tgid s e (pushed ops))
    rw [Multiset.coe_eq_coe.mpr hframes] at hranked
    exact (rankedAs_topNames _).unique hranked
  have htimes' : ∀ op ∈ ops', op.time ≤ s + config.storeTtlNs := by
    intro op' hop'
    have htime := List.mem_map_of_mem (f := ProfileOp.time) hop'
    rw [← map_time_eq hclock] at htime
    obtain ⟨op,hop,heq⟩ := List.mem_map.mp htime
    exact heq ▸ htimes op hop
  have hkept' : (run config ops').samplesDropped = 0 :=
    (sameClock_run config hclock).dropped.symm.trans hkept
  have hnames' : ∀ x ∈ pushed ops', "" ∉ x.frames := fun x hx => hnames x (hperm.mem_iff.mpr hx)
  have hnone : samplesIn tgid s e (pushed ops') = [] ↔ samplesIn tgid s e (pushed ops) = [] := by
    rw [← List.length_eq_zero_iff,← hsamples.length_eq,List.length_eq_zero_iff]
  rw [join_run hnames hkept hse hlat hend htimes,
    join_run hnames' hkept' hse hlat hend htimes',htop]
  simp only [hnone]

/-- A span whose samples have outlived the join of another one. -/
theorem join_ranks_history_joined :
    ((run ⟨100,3,2000⟩ [.push 7 1000 ["b","a"],.push 8 1000 ["z"],.join 8 900 1100,
        .push 7 1200 ["b"],.push 7 1300 []]).join 7 900 1500).2 =
      some ["b","a","","",""] ∧
    ((run ⟨100,3,2000⟩ [.push 8 1000 ["z"],.push 7 1000 ["b","a"],.join 8 900 1100,
        .push 7 1200 ["b"],.push 7 1300 []]).join 7 900 1500).2 =
      some ["b","a","","",""] := by
  have hkept : (run ⟨100,3,2000⟩ [.push 7 1000 ["b","a"],.push 8 1000 ["z"],.join 8 900 1100,
      .push 7 1200 ["b"],.push 7 1300 []]).samplesDropped = 0 := by
    simp only [run,List.foldl_cons,List.foldl_nil,step]
    obtain ⟨_,_,hjoin⟩ := ((((new ⟨100,3,2000⟩).pushSymbolized 7 1000 ["b","a"]).pushSymbolized
      8 1000 ["z"])).join_fst 8 900 1100
    rw [hjoin]
    rfl
  obtain ⟨⟨names,hranked,hjoin⟩,horder⟩ := join_ranks_history ⟨100,3,2000⟩
    [.push 7 1000 ["b","a"],.push 8 1000 ["z"],.join 8 900 1100,.push 7 1200 ["b"],
      .push 7 1300 []] 7 900 1500 (by decide) hkept (by decide) (by decide) (by decide) (by decide)
  have hframes : framesIn 7 900 1500 (pushed [.push 7 1000 ["b","a"],.push 8 1000 ["z"],
      .join 8 900 1100,.push 7 1200 ["b"],.push 7 1300 []]) = ["b","a","b"] := by decide
  rw [hframes] at hranked
  have hmem : ∀ f, f ∈ ["b","a"] ↔ f ∈ (["b","a","b"] : Multiset String) := by
    intro f
    simp only [Multiset.mem_coe,List.mem_cons,List.not_mem_nil,or_false]
    tauto
  obtain rfl : names = ["b","a"] := hranked.unique ⟨hmem,by decide⟩
  have hshown := hjoin.trans (by decide : _ = some ["b","a","","",""])
  refine ⟨hshown,(horder _ ?_ ?_).trans hshown⟩
  · exact .cons (.push _ _ _ rfl) (.cons (.push _ _ _ rfl) (.cons (.join ..) (.cons (.push _ _ _ rfl)
      (.cons (.push _ _ _ rfl) .nil))))
  · exact .swap ..

end ProfileStore

end ObsAgent
