import ObsAgent.Correlate
import ObsAgent.Machine
import ObsAgent.TimedQueue

/-! The dual-plane join: a finished TLS exchange takes its wire latency from the timestamps of the
socket calls beneath it.  Timestamps are 64-bit numbers; sums saturate. -/
namespace ObsAgent

open Http1

structure FdTimes where
  writes : List ℕ
  reads : List ℕ
  last : Instant

inductive JoinKind
  | hit | fallback
  deriving DecidableEq

inductive Outcome
  | hit | fallback | miss
  deriving DecidableEq

structure Join where
  wireNs : ℕ
  kind : JoinKind
  deriving DecidableEq

structure JoinWindow where
  hit : ℕ
  fallback : ℕ
  miss : ℕ
  deriving DecidableEq

structure DualPlane where
  fds : FiniteMap SockKey FdTimes
  joinWindowNs : ℕ
  outcomes : List (Instant × Outcome)
  hsSamples : List (Instant × ℕ)

def wireSlackNs : ℕ := 20 * 10^6

def maxTsPerDir : ℕ := 4096

def saturatingAdd (a b : ℕ) : ℕ := min (a + b) (2^64 - 1)

/-- The oldest timestamps go until one is young enough, then until few enough are left. -/
def pushTs (q : List ℕ) (tsNs : ℕ) : List ℕ :=
  let q := (q ++ [tsNs]).dropWhile fun t => t < tsNs - timeout
  q.drop (q.length - maxTsPerDir)

def FdTimes.queue (slot : FdTimes) : IoDir → List ℕ
  | .write => slot.writes
  | .read => slot.reads

def FdTimes.push (slot : FdTimes) (tsNs : ℕ) : IoDir → FdTimes
  | .write => {slot with writes := pushTs slot.writes tsNs}
  | .read => {slot with reads := pushTs slot.reads tsNs}

def pruneAt {α : Type} (samples : List (Instant × α)) (now : Instant) : List (Instant × α) :=
  samples.dropWhile fun s => durationSince now s.1 > timeout

namespace DualPlane

def new (joinWindowNs : ℕ) : DualPlane := ⟨∅,joinWindowNs,[],[]⟩

def note (p : DualPlane) (tgid : UInt32) (fd : Int32) (dir : IoDir) (tsNs : ℕ) (now : Instant) :
    DualPlane :=
  {p with fds := p.fds.upsert ⟨tgid,fd⟩ ⟨[],[],now⟩ fun slot => {slot with last := now}.push tsNs dir}

def latest (p : DualPlane) (tgid : UInt32) (fd : Int32) (dir : IoDir) (lo hi : ℕ) : Option ℕ :=
  (p.fds.get ⟨tgid,fd⟩).bind fun slot => (slot.queue dir).reverse.find? fun ts => lo ≤ ts && ts ≤ hi

def acceptWire (p : DualPlane) (startTs endTs tStartNs tEndNs : ℕ) (kind : JoinKind)
    (now : Instant) : DualPlane × Option Join :=
  let wireNs := endTs - startTs
  let contentNs := tEndNs - tStartNs
  if wireNs = 0 ∨ wireNs > saturatingAdd contentNs wireSlackNs then (p,none)
  else
    let outcome : Outcome := match kind with
      | .hit => .hit
      | .fallback => .fallback
    ({p with outcomes := p.outcomes ++ [(now,outcome)]},some ⟨wireNs,kind⟩)

/-- The attempt with one choice of the two halves. -/
def tryWire (p : DualPlane) (startTs endTs : Option ℕ) (tStartNs tEndNs : ℕ) (kind : JoinKind)
    (now : Instant) : DualPlane × Option Join :=
  match startTs, endTs with
  | some s, some e => p.acceptWire s e tStartNs tEndNs kind now
  | _, _ => (p,none)

/-- The request half of a client is a write, that of a server a read. -/
def startDir (client : Bool) : IoDir := if client then .write else .read

def endDir (client : Bool) : IoDir := if client then .read else .write

def join (p : DualPlane) (tgid : UInt32) (fd : Int32) (tStartNs tEndNs : ℕ) (client : Bool)
    (now : Instant) : DualPlane × Option Join :=
  let w := p.joinWindowNs
  let startTs := p.latest tgid fd (startDir client) (tStartNs - w) tStartNs
  let endTs := p.latest tgid fd (endDir client) (tEndNs - w) tEndNs
  let hit := p.tryWire startTs endTs tStartNs tEndNs .hit now
  if hit.2.isSome then hit
  else
    let endFb := p.latest tgid fd (endDir client) (saturatingAdd tEndNs 1) (saturatingAdd tEndNs w)
    let fallback := p.tryWire startTs endFb tStartNs tEndNs .fallback now
    if fallback.2.isSome then fallback
    else ({p with outcomes := p.outcomes ++ [(now,.miss)]},none)

def recordHandshake (p : DualPlane) (latencyNs : ℕ) (now : Instant) : DualPlane :=
  if latencyNs > 0 then {p with hsSamples := p.hsSamples ++ [(now,latencyNs)]} else p

def evictStale (p : DualPlane) (now : Instant) : DualPlane :=
  {p with
    fds := p.fds.retain fun _ r => durationSince now r.last ≤ timeout
    outcomes := pruneAt p.outcomes now
    hsSamples := pruneAt p.hsSamples now}

def evictClosed (p : DualPlane) (stillOpen : UInt32 → Int32 → Bool) : DualPlane :=
  {p with fds := p.fds.retain fun k _ => stillOpen k.tgid k.fd}

def window (p : DualPlane) (now : Instant) : JoinWindow :=
  p.outcomes.foldl (fun w o =>
    if durationSince now o.1 > timeout then w
    else match o.2 with
      | .hit => {w with hit := w.hit + 1}
      | .fallback => {w with fallback := w.fallback + 1}
      | .miss => {w with miss := w.miss + 1}) ⟨0,0,0⟩

/-- The outcome that a result is counted as. -/
def outcomeOf : Option Join → Outcome
  | none => .miss
  | some ⟨_,.hit⟩ => .hit
  | some ⟨_,.fallback⟩ => .fallback

/-- A wire latency that can be that of the exchange. -/
def Sane (tStartNs tEndNs : ℕ) (j : Join) : Prop :=
  0 < j.wireNs ∧ j.wireNs ≤ (tEndNs - tStartNs) + wireSlackNs

theorem tryWire_accepted {p : DualPlane} {startTs endTs : Option ℕ} {tStartNs tEndNs : ℕ}
    {kind : JoinKind} {now : Instant} {j : Join}
    (h : (p.tryWire startTs endTs tStartNs tEndNs kind now).2 = some j) :
    (p.tryWire startTs endTs tStartNs tEndNs kind now).1 =
        {p with outcomes := p.outcomes ++ [(now,outcomeOf (some j))]} ∧
      Sane tStartNs tEndNs j := by
  cases startTs with
  | none => simp [tryWire] at h
  | some s =>
    cases endTs with
    | none => simp [tryWire] at h
    | some e =>
      simp only [tryWire,acceptWire] at h ⊢
      split_ifs at h ⊢ with hbad
      obtain rfl := Option.some.inj h
      rw [not_or] at hbad
      refine ⟨?_,Nat.pos_of_ne_zero hbad.1,(Nat.not_lt.mp hbad.2).trans (Nat.min_le_left _ _)⟩
      cases kind <;> rfl

theorem join_counted (p : DualPlane) (tgid : UInt32) (fd : Int32) (tStartNs tEndNs : ℕ)
    (client : Bool) (now : Instant) :
    let q := p.join tgid fd tStartNs tEndNs client now
    q.1 = {p with outcomes := p.outcomes ++ [(now,outcomeOf q.2)]} ∧
      ∀ j, q.2 = some j → Sane tStartNs tEndNs j := by
  simp only [join]
  split_ifs with hhit hfb
  · obtain ⟨j,hj⟩ := Option.isSome_iff_exists.mp hhit
    obtain ⟨hleft,hsane⟩ := tryWire_accepted hj
    rw [hj]
    exact ⟨hleft,fun j' hj' => Option.some.inj hj' ▸ hsane⟩
  · obtain ⟨j,hj⟩ := Option.isSome_iff_exists.mp hfb
    obtain ⟨hleft,hsane⟩ := tryWire_accepted hj
    rw [hj]
    exact ⟨hleft,fun j' hj' => Option.some.inj hj' ▸ hsane⟩
  · exact ⟨rfl,by simp⟩

end DualPlane

inductive PlaneOp
  | note (tgid : UInt32) (fd : Int32) (dir : IoDir) (tsNs : ℕ) (now : Instant)
  | join (tgid : UInt32) (fd : Int32) (tStartNs tEndNs : ℕ) (client : Bool) (now : Instant)
  | handshake (latencyNs : ℕ) (now : Instant)
  | evictStale (now : Instant)
  | evictClosed (stillOpen : UInt32 → Int32 → Bool)

namespace DualPlane

/-- Every join is logged with its instant and its result. -/
def step (p : DualPlane) : PlaneOp → DualPlane × List (Instant × Option Join)
  | .note tgid fd dir tsNs now => (p.note tgid fd dir tsNs now,[])
  | .join tgid fd tStartNs tEndNs client now =>
    let q := p.join tgid fd tStartNs tEndNs client now
    (q.1,[(now,q.2)])
  | .handshake latencyNs now => (p.recordHandshake latencyNs now,[])
  | .evictStale now => (p.evictStale now,[])
  | .evictClosed stillOpen => (p.evictClosed stillOpen,[])

end DualPlane

def PlaneOp.now : PlaneOp → Option Instant
  | .note _ _ _ _ now | .join _ _ _ _ _ now | .handshake _ now | .evictStale now => some now
  | .evictClosed _ => none

namespace DualPlane

/-- How many joins of a log had the outcome no more than the timeout before `now`. -/
def counted (now : Instant) (o : Outcome) (log : List (Instant × Option Join)) : ℕ :=
  log.countP fun e => durationSince now e.1 ≤ timeout && outcomeOf e.2 = o

def fresh (now : Instant) (q : List (Instant × Outcome)) : List (Instant × Outcome) :=
  q.filter fun e => durationSince now e.1 ≤ timeout

theorem window_eq (p : DualPlane) (now : Instant) :
    p.window now =
      ⟨(fresh now p.outcomes).countP (·.2 = .hit),(fresh now p.outcomes).countP (·.2 = .fallback),
        (fresh now p.outcomes).countP (·.2 = .miss)⟩ := by
  rw [window]
  induction p.outcomes using List.reverseRecOn with
  | nil => rfl
  | append_singleton q e ih =>
    obtain ⟨at_,o⟩ := e
    rw [List.foldl_concat,ih]
    by_cases hold : durationSince now at_ > timeout
    · simp [fresh,hold,Nat.not_le.mpr hold]
    · cases o <;> simp [fresh,hold,Nat.not_lt.mp hold]

/-- What a prune takes off has left every later window. -/
theorem fresh_pruneAt {now later : Instant} (h : now ≤ later) (q : List (Instant × Outcome)) :
    fresh later (pruneAt q now) = fresh later q := by
  apply TimedQueue.filter_dropWhile
  intro e hold
  have hlt : timeout < durationSince now e.1 := of_decide_eq_true hold
  exact decide_eq_false (Nat.not_le.mpr (hlt.trans_le (Nat.sub_le_sub_right h _)))

def outcomesOf (log : List (Instant × Option Join)) : List (Instant × Outcome) :=
  log.map fun e => (e.1,outcomeOf e.2)

theorem fresh_step (p : DualPlane) {op : PlaneOp} {later : Instant}
    (h : ∀ now ∈ op.now, now ≤ later) :
    fresh later (p.step op).1.outcomes =
      fresh later p.outcomes ++ fresh later (outcomesOf (p.step op).2) := by
  cases op with
  | join tgid fd tStartNs tEndNs client now =>
    rw [step,(p.join_counted tgid fd tStartNs tEndNs client now).1]
    exact List.filter_append _ _
  | handshake latencyNs now =>
    simp only [step,recordHandshake]
    split_ifs <;> exact (List.append_nil _).symm
  | evictStale now =>
    rw [step,evictStale,fresh_pruneAt (h now rfl)]
    exact (List.append_nil _).symm
  | _ => exact (List.append_nil _).symm

/-- Behind a run the window shows all joins of the run that are young enough. -/
theorem fresh_run (p : DualPlane) {ops : List PlaneOp} {later : Instant}
    (h : ∀ op ∈ ops, ∀ now ∈ op.now, now ≤ later) :
    fresh later (Machine.final step p ops).outcomes =
      fresh later p.outcomes ++ fresh later (outcomesOf (Machine.outputs step p ops)) := by
  induction ops generalizing p with
  | nil => exact (List.append_nil _).symm
  | cons op ops ih =>
    have hfinal : Machine.final step p (op :: ops) = Machine.final step (p.step op).1 ops := rfl
    rw [hfinal,ih _ fun o ho => h o (by simp [ho]),p.fresh_step (h op (by simp)),Machine.outputs]
    simp only [fresh,outcomesOf,List.map_append,List.filter_append,List.append_assoc]

theorem countP_fresh (now : Instant) (o : Outcome) (log : List (Instant × Option Join)) :
    (fresh now (outcomesOf log)).countP (·.2 = o) = counted now o log := by
  rw [fresh,outcomesOf,List.countP_filter,List.countP_map,counted]
  apply List.countP_congr
  intro e _
  simp [and_comm]

/-- Every join leaves one outcome, that of what it returns, and a latency that it returns is sane;
the window at a later instant counts the joins of the timeout before it, whatever was evicted. -/
theorem joins_counted_once (joinWindowNs : ℕ) (ops : List PlaneOp) (later : Instant)
    (hlater : ∀ op ∈ ops, ∀ now ∈ op.now, now ≤ later) :
    (∀ tgid fd tStartNs tEndNs client now,
      let p := Machine.final step (new joinWindowNs) ops
      let q := p.join tgid fd tStartNs tEndNs client now
      q.1.outcomes = p.outcomes ++ [(now,outcomeOf q.2)] ∧
        ∀ j, q.2 = some j → 0 < j.wireNs ∧ j.wireNs ≤ (tEndNs - tStartNs) + 20000000) ∧
    (Machine.final step (new joinWindowNs) ops).window later =
      ⟨counted later .hit (Machine.outputs step (new joinWindowNs) ops),
        counted later .fallback (Machine.outputs step (new joinWindowNs) ops),
        counted later .miss (Machine.outputs step (new joinWindowNs) ops)⟩ := by
  refine ⟨fun tgid fd tStartNs tEndNs client now => ?_,?_⟩
  · have h := (Machine.final step (new joinWindowNs) ops).join_counted tgid fd tStartNs tEndNs client now
    refine ⟨?_,h.2⟩
    rw [h.1]
  · have hrun := fresh_run (new joinWindowNs) hlater
    rw [window_eq,hrun]
    simp only [new,fresh,List.filter_nil,List.nil_append]
    rw [← countP_fresh,← countP_fresh,← countP_fresh]
    rfl

/-- A write, a read, a join between them and another one long after, with an eviction on the way. -/
def twoJoins : List PlaneOp :=
  [.note 42 3 .write 100 0,.note 42 3 .read 900 0,.join 42 3 120 950 true 0,
    .evictStale (70 * 10^9),.join 42 3 120 950 true (70 * 10^9)]

theorem joins_counted_once_evicted :
    (Machine.final step (new 1000) twoJoins).window (80 * 10^9) = ⟨0,0,1⟩ := by
  rw [(joins_counted_once 1000 twoJoins (80 * 10^9) (by decide +kernel)).2]
  decide +kernel

end DualPlane
end ObsAgent
