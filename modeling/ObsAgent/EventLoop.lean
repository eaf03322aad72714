import ObsAgent.Agent
import ObsAgent.AutoSample
import ObsAgent.CaptureGate
import ObsAgent.DualPlane
import ObsAgent.Exporter
import ObsAgent.Identity
import ObsAgent.RingRecord
import ObsAgent.Windows

/-! The loop that drains the ring: who a record is from, whether it is kept, and which of the
agent's stores it goes to; and the tick of the loop, with the sweep of the capture maps. -/
namespace ObsAgent

open Kernel Http1

def Text.splitWhitespace (s : String) : List String :=
  ((s.toList.splitOnP Text.isWhitespace).filter (· ≠ [])).map String.ofList

/-- What the agent finds under `/proc/self`. -/
structure SelfFiles where
  status : Option String
  tasks : List String

/-- The ids that a line of the status file names. -/
def lineIds (line : String) : List UInt32 :=
  (((Text.stripPrefix "NSpid:" line).toList.flatMap Text.splitWhitespace).filterMap Text.parseU32) ++
    ((Text.stripPrefix "Tgid:" line).bind fun rest => Text.parseU32 (Text.trim rest)).toList

def collectSelfIds (agentTgid : UInt32) (files : SelfFiles) : TgidSet :=
  let found := (files.status.toList.flatMap Text.lines).flatMap lineIds ++
    files.tasks.filterMap Text.parseU32
  found.foldl (fun ids n => ids.put n ()) ((∅ : TgidSet).put agentTgid ())

def isSelfIds (eventTgid eventPid : UInt32) (agentIds : TgidSet) : Bool :=
  agentIds.contains eventTgid || agentIds.contains eventPid

inductive IngestSkip
  | keep | selfProcess | denied
  deriving DecidableEq

def classifyIngest (eventTgid eventPid : UInt32) (agentIds : TgidSet) (comm : String)
    (filter : CommFilter) : IngestSkip :=
  if isSelfIds eventTgid eventPid agentIds || isSelfComm comm then .selfProcess
  else if !filter.allow comm then .denied
  else .keep

def CommFilter.isPassthrough (f : CommFilter) : Bool := f.allowList.isNone && f.denyList.isEmpty

namespace DecodedEvent

def tgid : DecodedEvent → UInt32
  | .latency ev => ev.tgid
  | .io ev => ev.tgid
  | .tlsIo ev => ev.tgid
  | .sockIoTimes ev => ev.tgid
  | .tlsHandshake ev => ev.tgid

def pid : DecodedEvent → UInt32
  | .latency ev => ev.pid
  | .io ev => ev.pid
  | .tlsIo ev => ev.pid
  | .sockIoTimes ev => ev.pid
  | .tlsHandshake ev => ev.pid

end DecodedEvent

/-- `sampleN` is the variable `OBSAGENT_SAMPLE_N`. -/
structure LoopConfig where
  agentTgid : UInt32
  filter : CommFilter
  tlsClientOnly : Bool
  sampleN : Option String

def LoopConfig.pinnedSampleN (cfg : LoopConfig) : Option ℕ :=
  (parseBpfSampleN cfg.sampleN).map UInt32.toNat

structure EventLoop where
  commCache : CommCache
  selfIds : TgidSet
  bpfSelfIds : TgidSet
  gate : CaptureMaps
  sample : SampleControl
  tcp : Aggregator
  agent : Agent
  dual : DualPlane
  sinks : Sinks
  gauges : Gauges
  sockioCount : ℕ
  tlsioCount : ℕ
  socktimesCount : ℕ
  eventsInTick : ℕ
  rates : List ℕ

/-- What a record finds when it is taken from the ring: the time, the names of processes, the port of
the calibration, what publishing reads, and whether the lazy denial cannot be written. -/
structure Found where
  now : Instant
  names : UInt32 → String
  calib : UInt16
  env : Env
  denyFails : Bool

/-- What the tick finds: the counters that can be read, and the sockets. -/
structure TickFound where
  now : Instant
  drops : Option ℕ
  setFails : Bool
  tlsUnmapped : Option ℕ
  sockMeta : SockMetaMap

/-- What became of a record; `refused` is the filter's second word, on I/O only. -/
inductive Verdict
  | selfProcess | denied | refused | kept
  deriving DecidableEq

structure Drained where
  event : DecodedEvent
  verdict : Verdict
  published : List Published
  now : Instant

/-- `u16::from_be`. -/
def fromBe (n : UInt16) : UInt16 := (n <<< 8) ||| (n >>> 8)

namespace EventLoop

/-- `initFails` tells whether the mode could not be written to the kernel. -/
def start (cfg : LoopConfig) (files : SelfFiles) (initFails : Bool) (joinWindowNs : ℕ)
    (hub : ExportHub) : EventLoop where
  commCache := ∅
  selfIds := collectSelfIds cfg.agentTgid files
  bpfSelfIds := ∅
  gate := if initFails then .start
    else {CaptureMaps.start with allowOnly := some (if cfg.filter.isAllowOnly then 1 else 0)}
  sample := .start cfg.pinnedSampleN
  tcp := ⟨∅⟩
  agent := .start
  dual := .new joinWindowNs
  sinks := .start hub
  gauges := ⟨0,0,0,cfg.pinnedSampleN.getD 1⟩
  sockioCount := 0
  tlsioCount := 0
  socktimesCount := 0
  eventsInTick := 0
  rates := []

section

variable (cfg : LoopConfig) (l : EventLoop) (f : Found)

/-- The connect of the calibration shows the ids that the kernel has for the agent. -/
def learn : DecodedEvent → EventLoop
  | .latency ev =>
    if f.calib ≠ 0 ∧ fromBe ev.dportBe = f.calib then
      {l with bpfSelfIds := (l.bpfSelfIds.put ev.tgid ()).put ev.pid ()}
    else l
  | _ => l

/-- The plaintext of a TLS exchange is joined with the times of its socket, once it is parsed. -/
def publish (l : EventLoop) : Published → EventLoop
  | .http1 ex fromTls =>
    let joined := if fromTls && (parseExchange f.env.httparse ex).isSome then
      l.dual.join ex.tgid ex.fd ex.tStartNs ex.tEndNs ex.reqIsWrite f.now else (l.dual,none)
    {l with
      dual := joined.1
      sinks := (l.sinks.handleExchange {f.env with wireNs := joined.2.map Join.wireNs} ex f.now
        fromTls).1}
  | .http2 x => {l with sinks := (l.sinks.handleH2Exchange f.env x f.now).1}

/-- The filter is asked once more, by the name of the process alone. -/
def secondCheck (tgid : UInt32) : CommCache × Bool :=
  if cfg.filter.isPassthrough then (l.commCache,true)
  else
    let q := l.commCache.comm tgid f.now (f.names tgid)
    (q.1,cfg.filter.allow q.2)

def ingestIo (ev : SockIoEvent) (fromTls clientOnly : Bool) : EventLoop × Verdict × List Published :=
  let q := l.secondCheck cfg f ev.tgid
  let r := l.agent.ingestHttpIo ev fromTls clientOnly f.now q.2
  (r.2.out.foldl (publish f) {l with commCache := q.1, agent := r.1},
    if q.2 then .kept else .refused,r.2.out)

def dispatch : DecodedEvent → EventLoop × Verdict × List Published
  | .latency ev => ({l with tcp := l.tcp.record ev f.now},.kept,[])
  | .io ev => ingestIo cfg {l with sockioCount := l.sockioCount + 1} f ev false false
  | .tlsIo ev => ingestIo cfg {l with tlsioCount := l.tlsioCount + 1} f ev true cfg.tlsClientOnly
  | .sockIoTimes ev =>
    let dual := match IoDir.fromU8 ev.dir with
      | some dir => l.dual.note ev.tgid ev.fd dir ev.tsNs f.now
      | none => l.dual
    ({l with socktimesCount := l.socktimesCount + 1, dual := dual},.kept,[])
  | .tlsHandshake ev =>
    let hub := l.sinks.hub.noteHandshake ev.tgid ev.fd ev.latencyNs (UInt64.ofNat ev.tsNs) f.now
    ({l with dual := l.dual.recordHandshake ev.latencyNs f.now, sinks := {l.sinks with hub := hub}},
      .kept,[])

def deny (tgid : UInt32) : EventLoop :=
  {l with gate := l.gate.lazyDenyInsert cfg.filter tgid f.denyFails}

/-- The decoded record, from the calibration on. -/
def handle (ev : DecodedEvent) : EventLoop × Drained :=
  let l := l.learn f ev
  let q := l.commCache.commPair ev.tgid ev.pid f.now f.names
  let l := {l with commCache := q.1}
  match classifyIngest ev.tgid ev.pid (l.selfIds.extend l.bpfSelfIds) q.2 cfg.filter with
  | .selfProcess => (l.deny cfg f ev.tgid,⟨ev,.selfProcess,[],f.now⟩)
  | .denied =>
    let agent := {l.agent with denied := l.agent.denied + 1}
    (deny cfg {l with agent := agent} f ev.tgid,⟨ev,.denied,[],f.now⟩)
  | .keep =>
    let r := l.dispatch cfg f ev
    ({r.1 with eventsInTick := r.1.eventsInTick + 1},⟨ev,r.2.1,r.2.2,f.now⟩)

/-- A record that cannot be decoded is passed over. -/
def item (bytes : List UInt8) : EventLoop × List Drained :=
  match decodeEvent bytes with
  | none => (l,[])
  | some ev => ((l.handle cfg f ev).1,[(l.handle cfg f ev).2])

def tick (t : TickFound) : EventLoop :=
  let rates := l.rates ++ [l.eventsInTick]
  let sample := (l.sample.tick cfg.pinnedSampleN ⟨t.drops,t.setFails⟩).1
  let isLive := Agent.stillOpen t.sockMeta l.agent.inflight
  {l with
    rates := if rates.length > 60 then rates.tail else rates
    eventsInTick := 0
    sample := sample
    gauges := ⟨t.drops.getD l.gauges.eventsDropped,l.sinks.serviceMap.edges.len,
      t.tlsUnmapped.getD l.gauges.tlsUnmapped,sample.sampleN⟩
    agent := (l.agent.tick t.now isLive).1
    dual := (l.dual.evictStale t.now).evictClosed isLive
    sinks := {l.sinks with hub := l.sinks.hub.evictHandshake t.now isLive}}

def sweep (files : SelfFiles) (proc : ProcSnapshot) (faults : Faults) : EventLoop :=
  {l with
    selfIds := collectSelfIds cfg.agentTgid files
    gate := l.gate.sweepCaptureMaps cfg.agentTgid cfg.filter l.bpfSelfIds proc faults}

end

end EventLoop

namespace Agent

theorem clearInflight_denied (s : Agent) (tgid : UInt32) (fd : Int32) :
    (s.clearInflight tgid fd).denied = s.denied := by
  unfold clearInflight
  split <;> rfl

theorem clearAll_denied (s : Agent) (unmarks : List (UInt32 × Int32)) :
    (s.clearAll unmarks).denied = s.denied := by
  induction unmarks generalizing s with
  | nil => rfl
  | cons k unmarks ih => exact (ih _).trans (s.clearInflight_denied k.1 k.2)

theorem demote_denied (s : Agent) (ev : SockIoEvent) : (s.demote ev).1.denied = s.denied := by
  unfold demote
  split
  · exact clearAll_denied _ _
  · rfl

theorem feedHttp1_denied (s : Agent) (ev : SockIoEvent) (fromTls clientOnly : Bool) (now : Instant) :
    (s.feedHttp1 ev fromTls clientOnly now).1.denied = s.denied := by
  unfold feedHttp1
  dsimp only
  split
  · exact clearAll_denied _ _
  · exact (clearInflight_denied _ _ _).trans (clearAll_denied _ _)

theorem ingestHttpIo_denied (s : Agent) (ev : SockIoEvent) (fromTls clientOnly : Bool)
    (now : Instant) (allowed : Bool) :
    (s.ingestHttpIo ev fromTls clientOnly now allowed).1.denied =
      s.denied + (if allowed then 0 else 1) := by
  cases allowed with
  | false => exact clearInflight_denied _ _ _
  | true =>
    simp only [ingestHttpIo,Bool.not_true,Bool.false_eq_true,if_false,if_true]
    split
    · exact (clearAll_denied _ _).trans (demote_denied s ev)
    · exact (feedHttp1_denied _ _ _ _ _).trans (demote_denied s ev)

end Agent

namespace Drained

def dispatched (d : Drained) : Bool := d.verdict = .kept || d.verdict = .refused

/-- The filter has turned the record away, before or behind the count. -/
def turnedAway (d : Drained) : Bool := d.verdict = .denied || d.verdict = .refused

def isSockio (d : Drained) : Bool :=
  d.dispatched && match d.event with
    | .io _ => true
    | _ => false

def isTlsio (d : Drained) : Bool :=
  d.dispatched && match d.event with
    | .tlsIo _ => true
    | _ => false

def isSocktimes (d : Drained) : Bool :=
  d.dispatched && match d.event with
    | .sockIoTimes _ => true
    | _ => false

def call (d : Drained) : Option (SockLatencyEvent × Instant) :=
  match d.event with
  | .latency ev => if d.dispatched then some (ev,d.now) else none
  | _ => none

end Drained

namespace EventLoop

structure Counts (d : Drained) (l l' : EventLoop) : Prop where
  sockio : l'.sockioCount = l.sockioCount + d.isSockio.toNat
  tlsio : l'.tlsioCount = l.tlsioCount + d.isTlsio.toNat
  socktimes : l'.socktimesCount = l.socktimesCount + d.isSocktimes.toNat
  denied : l'.agent.denied = l.agent.denied + d.turnedAway.toNat
  tcp : l'.tcp = d.call.toList.foldl (fun a e => a.record e.1 e.2) l.tcp

section

variable (cfg : LoopConfig) (l : EventLoop) (f : Found)

theorem foldl_publish (ps : List Published) : ps.foldl (publish f) l =
    {l with dual := (ps.foldl (publish f) l).dual, sinks := (ps.foldl (publish f) l).sinks} := by
  induction ps generalizing l with
  | nil => rfl
  | cons p ps ih =>
    have hone : publish f l p =
        {l with dual := (publish f l p).dual, sinks := (publish f l p).sinks} := by
      cases p <;> rfl
    rw [List.foldl_cons,ih,hone]

theorem learn_counts (ev : DecodedEvent) : l.learn f ev =
    {l with bpfSelfIds := (l.learn f ev).bpfSelfIds} := by
  cases ev with
  | latency ev =>
    simp only [learn]
    split <;> rfl
  | _ => rfl

theorem ingestIo_counts (ev : SockIoEvent) (fromTls clientOnly : Bool) :
    let r := l.ingestIo cfg f ev fromTls clientOnly
    r.1.sockioCount = l.sockioCount ∧ r.1.tlsioCount = l.tlsioCount ∧
      r.1.socktimesCount = l.socktimesCount ∧ r.1.tcp = l.tcp ∧
      r.1.agent.denied = l.agent.denied + (decide (r.2.1 = .refused)).toNat ∧
      (r.2.1 = .kept ∨ r.2.1 = .refused) := by
  intro r
  have hdenied := l.agent.ingestHttpIo_denied ev fromTls clientOnly f.now
    (l.secondCheck cfg f ev.tgid).2
  simp only [r,ingestIo]
  rw [foldl_publish]
  refine ⟨rfl,rfl,rfl,rfl,hdenied.trans ?_,?_⟩
  · cases (l.secondCheck cfg f ev.tgid).2 <;> rfl
  · cases (l.secondCheck cfg f ev.tgid).2
    · exact .inr rfl
    · exact .inl rfl

theorem dispatch_counts (ev : DecodedEvent) :
    Counts ⟨ev,(l.dispatch cfg f ev).2.1,(l.dispatch cfg f ev).2.2,f.now⟩ l
      (l.dispatch cfg f ev).1 := by
  cases ev with
  | latency ev => exact ⟨rfl,rfl,rfl,rfl,rfl⟩
  | sockIoTimes ev => exact ⟨rfl,rfl,rfl,rfl,rfl⟩
  | tlsHandshake ev => exact ⟨rfl,rfl,rfl,rfl,rfl⟩
  | io ev =>
    obtain ⟨hsock,htls,htimes,htcp,hdenied,hverdict⟩ :=
      ingestIo_counts cfg {l with sockioCount := l.sockioCount + 1} f ev false false
    rcases hverdict with hverdict | hverdict <;> rw [hverdict] at hdenied <;>
      simp only [dispatch,hverdict] <;> exact ⟨hsock,htls,htimes,hdenied,htcp⟩
  | tlsIo ev =>
    obtain ⟨hsock,htls,htimes,htcp,hdenied,hverdict⟩ :=
      ingestIo_counts cfg {l with tlsioCount := l.tlsioCount + 1} f ev true cfg.tlsClientOnly
    rcases hverdict with hverdict | hverdict <;> rw [hverdict] at hdenied <;>
      simp only [dispatch,hverdict] <;> exact ⟨hsock,htls,htimes,hdenied,htcp⟩

theorem handle_counts (ev : DecodedEvent) :
    (l.handle cfg f ev).2.event = ev ∧ Counts (l.handle cfg f ev).2 l (l.handle cfg f ev).1 := by
  have hlearn := l.learn_counts f ev
  unfold handle
  dsimp only
  rw [hlearn]
  split
  · exact ⟨rfl,by cases ev <;> exact ⟨rfl,rfl,rfl,rfl,rfl⟩⟩
  · exact ⟨rfl,by cases ev <;> exact ⟨rfl,rfl,rfl,rfl,rfl⟩⟩
  · refine ⟨rfl,?_⟩
    have h := dispatch_counts cfg {l with
      bpfSelfIds := (l.learn f ev).bpfSelfIds
      commCache := (l.commCache.commPair ev.tgid ev.pid f.now f.names).1} f ev
    exact ⟨h.sockio,h.tlsio,h.socktimes,h.denied,h.tcp⟩

end

end EventLoop

end ObsAgent
