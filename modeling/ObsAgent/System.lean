import ObsAgent.EventLoop
import ObsAgent.RingRoundTrip

/-! The whole of the agent: the kernel program and the event loop, with the ring and the maps that
they share.  A step is a probe, a record that the loop takes from the ring, a tick or a sweep, and
they come in any order. -/
namespace ObsAgent

open Kernel

structure System where
  kernel : ProbeMaps
  ring : List (List UInt8)
  loop : EventLoop

inductive SystemStep
  | probe (c : Caller) (room : Room) (kind : ProbeKind)
  | drain (f : Found)
  | tick (t : TickFound)
  | sweep (files : SelfFiles) (proc : ProcSnapshot) (faults : Faults)

/-- A record that a probe has submitted, with the caller that it ran in, or one that the loop has
taken. -/
inductive SystemEvent
  | submitted (c : Caller) (r : RingEvent)
  | drained (d : Drained)

namespace System

def start (loop : EventLoop) : System := ⟨.start,[],loop⟩

section

variable (cfg : LoopConfig) (s : System)

/-- The caller finds the filter and the sample rate that the loop has written. -/
def caller (c : Caller) : Caller :=
  {c with
    filter := s.loop.gate.kernel
    sampleN := some (UInt32.ofNat s.loop.sample.sampleN)}

/-- The loop with the kernel's `INFLIGHT`. -/
def attached : EventLoop := {s.loop with agent := {s.loop.agent with inflight := s.kernel.inflight}}

/-- What the loop has cleared is cleared in the kernel. -/
def detach (loop : EventLoop) : System :=
  {s with kernel := {s.kernel with inflight := loop.agent.inflight}, loop := loop}

def probe (c : Caller) (room : Room) (kind : ProbeKind) : System × List SystemEvent :=
  let c := s.caller c
  let q := s.kernel.fire c room kind
  ({s with kernel := q.1, ring := s.ring ++ q.2.map RingEvent.record},q.2.map (.submitted c))

def drain (f : Found) : System × List SystemEvent :=
  match s.ring with
  | [] => (s,[])
  | bytes :: ring =>
    let f := {f with env := {f.env with sockMeta := s.kernel.sockMeta}}
    let q := s.attached.item cfg f bytes
    (detach {s with ring := ring} q.1,q.2.map .drained)

def tick (t : TickFound) : System :=
  let t := {t with
    drops := t.drops.map fun _ => s.kernel.drops
    tlsUnmapped := t.tlsUnmapped.map fun _ => s.kernel.tlsUnmapped
    sockMeta := s.kernel.sockMeta}
  s.detach (s.attached.tick cfg t)

def step (s : System) : SystemStep → System × List SystemEvent
  | .probe c room kind => s.probe c room kind
  | .drain f => s.drain cfg f
  | .tick t => (s.tick cfg t,[])
  | .sweep files proc faults => ({s with loop := s.loop.sweep cfg files proc faults},[])

end

end System

namespace SystemEvent

def record : SystemEvent → Option RingEvent
  | .submitted _ r => some r
  | .drained _ => none

def taken : SystemEvent → Option Drained
  | .submitted _ _ => none
  | .drained d => some d

end SystemEvent

/-- The numbers that a probe reads have the width that they have in the kernel. -/
def SystemStep.InRange : SystemStep → Prop
  | .probe c room kind => (KernelStep.fire c room kind).InRange
  | _ => True

namespace System

structure Accounts (s : System) (log : List SystemEvent) : Prop where
  fifo : ∃ waiting : List RingEvent, s.ring = waiting.map RingEvent.record ∧
    (∀ r ∈ waiting, r.Proper) ∧ (log.filterMap SystemEvent.record).map RingEvent.decoded =
      (log.filterMap SystemEvent.taken).map Drained.event ++ waiting.map RingEvent.decoded
  sockio : s.loop.sockioCount = (log.filterMap SystemEvent.taken).countP Drained.isSockio
  tlsio : s.loop.tlsioCount = (log.filterMap SystemEvent.taken).countP Drained.isTlsio
  socktimes : s.loop.socktimesCount = (log.filterMap SystemEvent.taken).countP Drained.isSocktimes
  denied : s.loop.agent.denied = (log.filterMap SystemEvent.taken).countP Drained.turnedAway
  tcp : s.loop.tcp = Aggregator.run ((log.filterMap SystemEvent.taken).filterMap Drained.call)

theorem accounts_start (cfg : LoopConfig) (files : SelfFiles) (initFails : Bool) (joinWindowNs : ℕ)
    (hub : ExportHub) :
    (System.start (.start cfg files initFails joinWindowNs hub)).Accounts [] :=
  ⟨⟨[],rfl,by simp,rfl⟩,rfl,rfl,rfl,rfl,rfl⟩

variable {s : System} {log : List SystemEvent}

theorem filterMap_submitted (c : Caller) (rs : List RingEvent) :
    (rs.map (SystemEvent.submitted c)).filterMap SystemEvent.record = rs ∧
      (rs.map (SystemEvent.submitted c)).filterMap SystemEvent.taken = [] := by
  refine ⟨?_,?_⟩
  · rw [List.filterMap_map]
    exact List.filterMap_some
  · rw [List.filterMap_map]
    exact List.filterMap_eq_nil_iff.mpr fun _ _ => rfl

theorem drain_nil {cfg : LoopConfig} {f : Found} (h : s.ring = []) : s.drain cfg f = (s,[]) := by
  rw [System.drain,h]

/-- A record that a probe has written is handled as what it was submitted as. -/
theorem drain_record {cfg : LoopConfig} {f : Found} {r : RingEvent} {ring : List (List UInt8)}
    (h : s.ring = r.record :: ring) (hproper : r.Proper) :
    let q := s.attached.handle cfg {f with env := {f.env with sockMeta := s.kernel.sockMeta}} r.decoded
    s.drain cfg f = (detach {s with ring := ring} q.1,[.drained q.2]) := by
  rw [System.drain,h]
  simp only [EventLoop.item,decodeEvent_record hproper]
  rfl

theorem Accounts.probe (h : s.Accounts log) {c : Caller} {room : Room} {kind : ProbeKind}
    (hrange : (KernelStep.fire c room kind).InRange) :
    (s.probe c room kind).1.Accounts (log ++ (s.probe c room kind).2) := by
  obtain ⟨waiting,hring,hproper,hfifo⟩ := h.fifo
  let q := s.kernel.fire (s.caller c) room kind
  obtain ⟨hrecords,htaken⟩ := filterMap_submitted (s.caller c) q.2
  have htaken' : (log ++ (s.probe c room kind).2).filterMap SystemEvent.taken =
      log.filterMap SystemEvent.taken := by
    rw [List.filterMap_append]
    exact (congrArg _ htaken).trans (List.append_nil _)
  refine ⟨⟨waiting ++ q.2,?_,?_,?_⟩,?_,?_,?_,?_,?_⟩
  · change s.ring ++ q.2.map RingEvent.record = _
    rw [hring,List.map_append]
  · intro r hr
    rcases List.mem_append.mp hr with hr | hr
    · exact hproper r hr
    · exact ProbeMaps.fire_proper hr hrange
  · rw [htaken',List.filterMap_append,List.map_append,hfifo,List.map_append,List.append_assoc]
    congr 2
    exact congrArg _ hrecords
  all_goals rw [htaken']
  · exact h.sockio
  · exact h.tlsio
  · exact h.socktimes
  · exact h.denied
  · exact h.tcp

theorem countP_concat {α : Type} (p : α → Bool) (xs : List α) (x : α) :
    (xs ++ [x]).countP p = xs.countP p + (p x).toNat := by
  rw [List.countP_append,List.countP_singleton]
  cases p x <;> rfl

theorem Accounts.drain (h : s.Accounts log) (cfg : LoopConfig) (f : Found) :
    (s.drain cfg f).1.Accounts (log ++ (s.drain cfg f).2) := by
  obtain ⟨waiting,hring,hproper,hfifo⟩ := h.fifo
  cases waiting with
  | nil =>
    rw [drain_nil hring,List.append_nil]
    exact h
  | cons r waiting =>
    let f' := {f with env := {f.env with sockMeta := s.kernel.sockMeta}}
    let q := s.attached.handle cfg f' r.decoded
    have hsome : s.drain cfg f =
        (detach {s with ring := waiting.map RingEvent.record} q.1,[.drained q.2]) :=
      drain_record hring (hproper r List.mem_cons_self)
    obtain ⟨hevent,hcounts⟩ := s.attached.handle_counts cfg f' r.decoded
    have htaken : (log ++ [SystemEvent.drained q.2]).filterMap SystemEvent.taken =
        log.filterMap SystemEvent.taken ++ [q.2] := List.filterMap_append
    have hrecord : (log ++ [SystemEvent.drained q.2]).filterMap SystemEvent.record =
        log.filterMap SystemEvent.record := by
      rw [List.filterMap_append]
      exact List.append_nil _
    rw [hsome]
    refine ⟨⟨waiting,rfl,fun r' hr' => hproper r' (.tail r hr'),?_⟩,?_,?_,?_,?_,?_⟩
    · rw [hrecord,htaken,hfifo,List.map_append,List.map_singleton,List.append_assoc]
      congr 1
      rw [List.map_cons]
      exact congrArg (· :: _) hevent.symm
    · rw [htaken,countP_concat,← h.sockio]
      exact hcounts.sockio
    · rw [htaken,countP_concat,← h.tlsio]
      exact hcounts.tlsio
    · rw [htaken,countP_concat,← h.socktimes]
      exact hcounts.socktimes
    · rw [htaken,countP_concat,← h.denied]
      exact hcounts.denied
    · rw [htaken,List.filterMap_append,Aggregator.run,List.foldl_append,← Aggregator.run,← h.tcp]
      refine hcounts.tcp.trans ?_
      congr 1

theorem Accounts.step (h : s.Accounts log) (cfg : LoopConfig) {e : SystemStep} (he : e.InRange) :
    (s.step cfg e).1.Accounts (log ++ (s.step cfg e).2) := by
  cases e with
  | probe c room kind => exact h.probe he
  | drain f => exact h.drain cfg f
  | tick t =>
    simp only [System.step,List.append_nil]
    exact ⟨h.fifo,h.sockio,h.tlsio,h.socktimes,(Agent.clearAll_denied _ _).trans h.denied,h.tcp⟩
  | sweep files proc faults =>
    simp only [System.step,List.append_nil]
    exact ⟨h.fifo,h.sockio,h.tlsio,h.socktimes,h.denied,h.tcp⟩

end System

/-- Whatever the order of probes, drains, ticks and sweeps: the records that were submitted are, in
their order, those that the loop has taken and those in the ring, and each reads as it was
submitted.  The counters and the table of socket calls are those of what was taken. -/
theorem records_taken_once (cfg : LoopConfig) (files : SelfFiles) (initFails : Bool)
    (joinWindowNs : ℕ) (hub : ExportHub) (es : List SystemStep) (hes : ∀ e ∈ es, e.InRange) :
    let start := System.start (.start cfg files initFails joinWindowNs hub)
    let s := Machine.final (System.step cfg) start es
    let log := Machine.outputs (System.step cfg) start es
    let drained := log.filterMap SystemEvent.taken
    (log.filterMap SystemEvent.record).map (fun r => some r.decoded) =
        drained.map (fun d => some d.event) ++ s.ring.map decodeEvent ∧
      s.loop.sockioCount = drained.countP Drained.isSockio ∧
      s.loop.tlsioCount = drained.countP Drained.isTlsio ∧
      s.loop.socktimesCount = drained.countP Drained.isSocktimes ∧
      s.loop.agent.denied = drained.countP Drained.turnedAway ∧
      s.loop.tcp = Aggregator.run (drained.filterMap Drained.call) := by
  intro start s log drained
  have h : s.Accounts log := Machine.final_log_of_forall (System.step cfg) (I := System.Accounts)
    (fun h he => h.step cfg he) (System.accounts_start cfg files initFails joinWindowNs hub) hes
  obtain ⟨waiting,hring,hproper,hfifo⟩ := h.fifo
  refine ⟨?_,h.sockio,h.tlsio,h.socktimes,h.denied,h.tcp⟩
  have hdecode : s.ring.map decodeEvent = waiting.map fun r => some r.decoded := by
    rw [hring,List.map_map]
    exact List.map_congr_left fun r hr => decodeEvent_record (hproper r hr)
  have hsome := congrArg (List.map some) hfifo
  rw [List.map_append,List.map_map,List.map_map,List.map_map] at hsome
  rw [hdecode]
  exact hsome

def plainConfig : LoopConfig := ⟨99,⟨[],none⟩,true,none⟩

def plainFound (now : Instant) : Found where
  now := now
  names _ := "app"
  calib := 0
  env := ⟨∅,⟨∅,∅,∅⟩,⟨∅⟩,fun tgid => ⟨"app",tgid,"app",none,none⟩,fun _ => "",
    ⟨fun _ => none,fun _ => none⟩,none,0⟩
  denyFails := false

/-- The starts of a request and of its response, each in memory at its own address. -/
def exchangeMemory : UserMemory where
  byte p :=
    if p < 128 then ([2,0,31,144,10,0,0,1] : List UInt8).getD (p.toNat - 64) 0
    else if p < 512 then ([71,69,84,32,13,10,13,10] : List UInt8).getD (p.toNat - 128) 0
    else ([72,84,84,80,47,13,10,13,10] : List UInt8).getD (p.toNat - 512) 0
  mapped _ := true

/-- A request at time 300 and its response at time 800, on a socket that is still connecting. -/
def exchangeSteps : List SystemStep :=
  let c := fun tsNs => plainCaller 7 11 tsNs exchangeMemory
  [.probe (c 100) .all (.enterConnect 3 64),
    .probe (c 250) .all (.enterIo 3 (.scalar 128) .write),.probe (c 300) .all (.exitIo 8),
    .probe (c 400) .all (.enterIo 3 (.scalar 512) .read),.probe (c 800) .all (.exitIo 9),
    .drain (plainFound 5),.drain (plainFound 6)]

theorem exchangeSteps_inRange : ∀ e ∈ exchangeSteps, e.InRange := by
  simp [exchangeSteps,SystemStep.InRange,KernelStep.InRange,ProbeKind.ret,plainCaller]

theorem records_taken_once_request :
    let start := System.start (.start plainConfig ⟨none,[]⟩ false 0 (.start false 1 0 none))
    let s := Machine.final (System.step plainConfig) start exchangeSteps
    let log := Machine.outputs (System.step plainConfig) start exchangeSteps
    let drained := log.filterMap SystemEvent.taken
    exchangeSteps.length = 7 ∧
      (log.filterMap SystemEvent.record).map (fun r => some r.decoded) =
        drained.map (fun d => some d.event) ++ s.ring.map decodeEvent ∧
      s.loop.sockioCount = drained.countP Drained.isSockio := by
  have h := records_taken_once plainConfig ⟨none,[]⟩ false 0 (.start false 1 0 none) exchangeSteps
    exchangeSteps_inRange
  exact ⟨rfl,h.1,h.2.1⟩

end ObsAgent
