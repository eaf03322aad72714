import ObsAgent.CommFilter
import ObsAgent.Machine
import Mathlib.Tactic

/-! The sample rate of the kernel program.  It is pinned, or it follows the drop counter of the ring:
twice as sparse with every second that has lost records, half as sparse when none were lost for
long enough. -/
namespace ObsAgent

def sampleNMax : ℕ := 16

def decayTicks : ℕ := 30

def parseBpfSampleN (raw : Option String) : Option UInt32 :=
  (raw.bind Text.parseU32).filter fun n => decide (1 ≤ n)

/-- The next rate and the count of quiet ticks. -/
def nextAutoN (current dropsDelta quietTicks : ℕ) : ℕ × ℕ :=
  let n := max 1 (min current sampleNMax)
  if dropsDelta > 0 then (min (n*2) sampleNMax,0)
  else
    let quiet := quietTicks + 1
    if quiet ≥ decayTicks then (max (n/2) 1,0) else (n,quiet)

/-- `sampleN` is what the kernel reads. -/
structure SampleControl where
  autoN : ℕ
  quietTicks : ℕ
  lastDrops : ℕ
  sampleN : ℕ
  deriving DecidableEq

/-- The drop counter, if it can be read, and whether the rate cannot be written. -/
structure SampleTick where
  drops : Option ℕ
  setFails : Bool

namespace SampleControl

def start (pinned : Option ℕ) : SampleControl := ⟨pinned.getD 1,0,0,pinned.getD 1⟩

def setSampleN (s : SampleControl) (n : ℕ) (fails : Bool) : SampleControl :=
  if fails then s else {s with sampleN := n}

/-- The output is the number of records lost since the last reading. -/
def tick (pinned : Option ℕ) (s : SampleControl) (t : SampleTick) : SampleControl × List ℕ :=
  match t.drops with
  | none => (s,[])
  | some v =>
    match pinned with
    | some n => (s.setSampleN n t.setFails,[])
    | none =>
      let q := nextAutoN s.autoN (v - s.lastDrops) s.quietTicks
      (({s with autoN := q.1, quietTicks := q.2, lastDrops := v} : SampleControl).setSampleN q.1
        t.setFails,[v - s.lastDrops])

def Rate (n : ℕ) : Prop := ∃ k ≤ 4, n = 2^k

theorem nextAutoN_pow {k : ℕ} (hk : k ≤ 4) (dropsDelta quietTicks : ℕ) :
    nextAutoN (2^k) dropsDelta quietTicks =
      if dropsDelta > 0 then (2^min (k+1) 4,0)
      else if quietTicks + 1 ≥ decayTicks then (2^(k-1),0) else (2^k,quietTicks + 1) := by
  interval_cases k <;> rfl

theorem Rate.next {n : ℕ} (h : Rate n) (dropsDelta quietTicks : ℕ) :
    Rate (nextAutoN n dropsDelta quietTicks).1 := by
  obtain ⟨k,hk,rfl⟩ := h
  rw [nextAutoN_pow hk]
  split_ifs
  · exact ⟨min (k+1) 4,by omega,rfl⟩
  · exact ⟨k-1,by omega,rfl⟩
  · exact ⟨k,hk,rfl⟩

/-- The state after the readings: both rates are among the five, and the quiet ticks have been
counted. -/
structure Follows (s : SampleControl) (deltas : List ℕ) : Prop where
  auto : Rate s.autoN
  kernel : Rate s.sampleN
  few : s.quietTicks < decayTicks
  quiet : ∃ front, deltas = front ++ List.replicate s.quietTicks 0

theorem follows_start : Follows (start none) [] :=
  ⟨⟨0,by omega,rfl⟩,⟨0,by omega,rfl⟩,by decide,[],rfl⟩

variable {s : SampleControl} {deltas : List ℕ}

@[simp] theorem setSampleN_autoN (n : ℕ) (fails : Bool) : (s.setSampleN n fails).autoN = s.autoN := by
  unfold setSampleN
  split <;> rfl

@[simp] theorem setSampleN_quietTicks (n : ℕ) (fails : Bool) :
    (s.setSampleN n fails).quietTicks = s.quietTicks := by
  unfold setSampleN
  split <;> rfl

theorem setSampleN_rate {n : ℕ} (hn : Rate n) (hs : Rate s.sampleN) (fails : Bool) :
    Rate (s.setSampleN n fails).sampleN := by
  unfold setSampleN
  split
  · exact hs
  · exact hn

theorem quiet_next (front : List ℕ) (q n d : ℕ) :
    (nextAutoN n d q).2 < decayTicks ∧
      ∃ front', front ++ List.replicate q 0 ++ [d] =
        front' ++ List.replicate (nextAutoN n d q).2 0 := by
  simp only [nextAutoN]
  split_ifs with hdrops hlong
  · exact ⟨Nat.zero_lt_succ _,_,(List.append_nil _).symm⟩
  · exact ⟨Nat.zero_lt_succ _,_,(List.append_nil _).symm⟩
  · refine ⟨by omega,front,?_⟩
    obtain rfl : d = 0 := by omega
    rw [List.append_assoc,← List.replicate_succ']

theorem Follows.tick (h : s.Follows deltas) (t : SampleTick) :
    (s.tick none t).1.Follows (deltas ++ (s.tick none t).2) := by
  unfold SampleControl.tick
  cases t.drops with
  | none => simpa using h
  | some v =>
    obtain ⟨front,hfront⟩ := h.quiet
    obtain ⟨hfew,hquiet⟩ := quiet_next front s.quietTicks s.autoN (v - s.lastDrops)
    have hrate := h.auto.next (v - s.lastDrops) s.quietTicks
    refine ⟨?_,setSampleN_rate hrate (s := {s with autoN := _, quietTicks := _, lastDrops := v})
      h.kernel _,?_,?_⟩
    · simpa using hrate
    · simpa using hfew
    · simpa [hfront] using hquiet

theorem Follows.lowered (h : s.Follows deltas) {t : SampleTick}
    (hlower : (s.tick none t).1.autoN < s.autoN) :
    ∃ front, deltas ++ (s.tick none t).2 = front ++ List.replicate decayTicks 0 := by
  unfold SampleControl.tick at hlower ⊢
  cases hdrops : t.drops with
  | none => simp [hdrops] at hlower
  | some v =>
    obtain ⟨k,hk,hn⟩ := h.auto
    simp only [hdrops,setSampleN_autoN,hn,nextAutoN_pow hk] at hlower
    split_ifs at hlower with hlost hlong
    · exact absurd hlower (Nat.not_lt.mpr (Nat.pow_le_pow_right (by decide) (by omega)))
    · obtain ⟨front,hfront⟩ := h.quiet
      have hfew := h.few
      refine ⟨front,?_⟩
      have hzero : v - s.lastDrops = 0 := by omega
      have hlen : s.quietTicks + 1 = decayTicks := by omega
      simp only [hzero]
      rw [hfront,List.append_assoc,← List.replicate_succ',hlen]
    · exact absurd hlower (lt_irrefl _)

def toGo (s : SampleControl) : ℕ := decayTicks * s.autoN.log2 - s.quietTicks

theorem toGo_le (h : s.Follows deltas) : s.toGo ≤ 120 := by
  obtain ⟨k,hk,hn⟩ := h.auto
  rw [toGo,hn,Nat.log2_two_pow,decayTicks]
  omega

theorem autoN_of_toGo (h : s.Follows deltas) (hzero : s.toGo = 0) : s.autoN = 1 := by
  obtain ⟨k,hk,hn⟩ := h.auto
  have hfew := h.few
  rw [toGo,hn,Nat.log2_two_pow] at hzero
  rw [decayTicks] at hzero hfew
  obtain rfl : k = 0 := by omega
  exact hn

theorem toGo_tick (h : s.Follows deltas) {v : ℕ} (hv : v ≤ s.lastDrops) (fails : Bool) :
    (s.tick none ⟨some v,fails⟩).1.toGo ≤ s.toGo - 1 := by
  obtain ⟨k,hk,hn⟩ := h.auto
  have hfew := h.few
  have hnone : ¬v - s.lastDrops > 0 := by omega
  simp only [SampleControl.tick,toGo,setSampleN_autoN,setSampleN_quietTicks,hn,nextAutoN_pow hk,
    if_neg hnone]
  have hdecay : decayTicks = 30 := rfl
  by_cases hlong : s.quietTicks + 1 ≥ decayTicks
  · simp only [if_pos hlong,Nat.log2_two_pow]
    rw [hdecay] at hlong hfew ⊢
    omega
  · simp only [if_neg hlong,Nat.log2_two_pow]
    omega

/-- The counter is read and has not moved, and the rate is written. -/
def Quiet (last : ℕ) (t : SampleTick) : Prop := t.drops = some last ∧ t.setFails = false

theorem Quiet.tick {t : SampleTick} (ht : Quiet s.lastDrops t) :
    (s.tick none t).1.lastDrops = s.lastDrops ∧
      (s.tick none t).1.sampleN = (s.tick none t).1.autoN := by
  obtain ⟨drops,fails⟩ := t
  obtain ⟨rfl,rfl⟩ := ht
  exact ⟨rfl,rfl⟩

theorem Follows.recovers (h : s.Follows deltas) {ts : List SampleTick}
    (hts : ∀ t ∈ ts, Quiet s.lastDrops t) (hlong : s.toGo ≤ ts.length) (hne : ts ≠ []) :
    (Machine.final (SampleControl.tick none) s ts).sampleN = 1 := by
  induction ts generalizing s deltas with
  | nil => exact absurd rfl hne
  | cons t ts ih =>
    have hquiet := hts t List.mem_cons_self
    obtain ⟨hlast,hset⟩ := hquiet.tick
    have hnext := h.tick t
    have hgo : (s.tick none t).1.toGo ≤ s.toGo - 1 := by
      obtain ⟨drops,fails⟩ := t
      obtain ⟨rfl,rfl⟩ := hquiet
      exact toGo_tick h le_rfl false
    rw [List.length_cons] at hlong
    by_cases hend : ts = []
    · subst hend
      rw [List.length_nil] at hlong
      have hone := autoN_of_toGo hnext (by omega)
      exact hset.trans hone
    · refine ih hnext (fun u hu => ?_) (hgo.trans (by omega)) hend
      rw [hlast]
      exact hts u (.tail t hu)

/-- The sample rate over any run of ticks: it is one of five powers of two, doubles with every tick
that finds records lost, comes down only behind thirty readings in a row without a loss, and is one
again after two minutes of them. -/
theorem sample_rate_follows_drops (ticks : List SampleTick) :
    let s := Machine.final (tick none) (start none) ticks
    let deltas := Machine.outputs (tick none) (start none) ticks
    Rate s.autoN ∧ Rate s.sampleN ∧
      (∀ v fails, s.lastDrops < v → (s.tick none ⟨some v,fails⟩).1.autoN = min (s.autoN*2) 16) ∧
      (∀ t, (s.tick none t).1.autoN < s.autoN →
        ∃ front, deltas ++ (s.tick none t).2 = front ++ List.replicate 30 0) ∧
      ∀ more, (∀ t ∈ more, Quiet s.lastDrops t) → 120 ≤ more.length →
        (Machine.final (tick none) s more).sampleN = 1 := by
  intro s deltas
  have h : s.Follows deltas :=
    Machine.final_log (tick none) (I := Follows) (fun t h => h.tick t) follows_start ticks
  refine ⟨h.auto,h.kernel,fun v fails hv => ?_,fun t ht => h.lowered ht,fun more hmore hlong => ?_⟩
  · obtain ⟨k,hk,hn⟩ := h.auto
    have hlost : v - s.lastDrops > 0 := by omega
    simp only [tick,setSampleN_autoN,hn,nextAutoN_pow hk,if_pos hlost]
    interval_cases k <;> rfl
  · refine h.recovers hmore ((toGo_le h).trans hlong) fun hnil => ?_
    simp [hnil] at hlong

/-- Records are lost before the second and the fourth tick; the third cannot read the counter. -/
example : (Machine.final (SampleControl.tick none) (.start none)
    [⟨some 0,false⟩,⟨some 5,false⟩,⟨none,false⟩,⟨some 9,false⟩]).sampleN = 4 := by decide

end SampleControl

end ObsAgent
