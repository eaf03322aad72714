import ObsAgent.RingRecord
import ObsAgent.RollingWindow
import ObsAgent.SinkTotals
import ObsAgent.SpanStatus

/-! The tables of the last minute: socket calls by remote endpoint, requests by route and requests
by edge of the service map.  The stores keep pruned queues; every table is the one that a log of
all samples gives. -/
namespace ObsAgent

open CappedStore Kernel RollingWindow

/-- The quantiles of a histogram of some values. -/
abbrev Quantiles := List ℕ → ℚ → ℕ

/-- The highest value for every quantile. -/
def slowest : Quantiles := fun values _ => values.foldl max 0

variable (quantiles : Quantiles)

structure EndpointKey where
  daddrBe : UInt32
  dportBe : UInt16
  kind : EventKind
  deriving DecidableEq

def EndpointKey.fromEvent (ev : SockLatencyEvent) : Option EndpointKey :=
  (EventKind.fromU8 ev.kind).map fun kind => ⟨ev.daddrBe,ev.dportBe,kind⟩

structure TcpSample where
  atTime : Instant
  latencyNs : ℕ
  isError : Bool

structure RowSnapshot where
  count : ℕ
  errors : ℕ
  p50Ns : ℕ
  p95Ns : ℕ
  p99Ns : ℕ

/-- A failed call returns a negative number. -/
def isSyscallError (ret : ℤ) : Bool := ret < 0

def percentilesNs (latencies : List ℕ) : ℕ × ℕ × ℕ :=
  if latencies = [] then (0,0,0)
  else
    let h := quantiles (latencies.map fun v => max v 1)
    (h (1/2),h (19/20),h (99/100))

def tcpRow (samples : List TcpSample) : RowSnapshot :=
  let p := percentilesNs quantiles (samples.map TcpSample.latencyNs)
  ⟨samples.length,(samples.filter TcpSample.isError).length,p.1,p.2.1,p.2.2⟩

structure Aggregator where
  byEndpoint : FiniteMap EndpointKey (List TcpSample)

namespace Aggregator

def record (a : Aggregator) (ev : SockLatencyEvent) (now : Instant) : Aggregator :=
  match EndpointKey.fromEvent ev with
  | none => a
  | some key =>
    ⟨a.byEndpoint.upsert key [] fun samples =>
      prune TcpSample.atTime now (samples ++ [⟨now,ev.latencyNs,isSyscallError ev.ret⟩])⟩

/-- The queue is popped from the front once more. -/
def snapshot (samples : List TcpSample) (now : Instant) : RowSnapshot :=
  tcpRow quantiles (prune TcpSample.atTime now samples)

def rows (a : Aggregator) (now : Instant) : List (EndpointKey × RowSnapshot) :=
  table (fun samples => Option.guard (fun r => 0 < r.count) (snapshot quantiles samples now))
    RowSnapshot.count a.byEndpoint

end Aggregator

structure HttpRow where
  count : ℕ
  ratePerS : ℚ
  p50Ns : ℕ
  p95Ns : ℕ
  p99Ns : ℕ
  wireP50Ns : Option ℕ
  pct4xx : ℚ
  pct5xx : ℚ
  deriving DecidableEq

/-- The row of some samples, at least one. -/
def httpRow (samples : List EndpointSample) : HttpRow :=
  let hist := quantiles (samples.map fun s => max s.latencyNs 1)
  let wire := samples.filterMap EndpointSample.wireNs
  let count := samples.length
  { count := count
    ratePerS := count/60
    p50Ns := hist (1/2)
    p95Ns := hist (19/20)
    p99Ns := hist (99/100)
    wireP50Ns := if wire.length = 0 then none else some (quantiles (wire.map fun w => max w 1) (1/2))
    pct4xx := (samples.countP fun s => 400 ≤ s.status && s.status < 500)*100/count
    pct5xx := (samples.countP fun s => 500 ≤ s.status && s.status < 600)*100/count }

namespace HttpAggregator

def snapshot (samples : List EndpointSample) (now : Instant) : HttpRow :=
  let samples := samples.filter fun s => durationSince now s.atTime ≤ window
  if samples.length = 0 then ⟨0,0,0,0,0,none,0,0⟩ else httpRow quantiles samples

def rows (a : HttpAggregator) (now : Instant) : List (HttpEndpoint × HttpRow) :=
  table (fun samples => Option.guard (fun r => r.count ≠ 0) (snapshot quantiles samples now))
    HttpRow.count a.endpoints

end HttpAggregator

structure EdgeRow where
  count : ℕ
  ratePerS : ℚ
  p50Ns : ℕ
  p99Ns : ℕ
  pct5xx : ℚ
  cumCount : ℕ
  cumErrors : ℕ

/-- The row of the samples of the last minute, and of the counts since the start. -/
def edgeRow (samples : List EdgeSample) (cumCount cumErrors : ℕ) : EdgeRow :=
  let count := samples.length
  let hist := quantiles (samples.map fun s => max s.latencyNs 1)
  { count := count
    ratePerS := count/60
    p50Ns := if count = 0 then 0 else hist (1/2)
    p99Ns := if count = 0 then 0 else hist (99/100)
    pct5xx := if count = 0 then 0 else 100*(samples.countP fun s => serverError s.status)/count
    cumCount := cumCount
    cumErrors := cumErrors }

namespace ServiceMap

def snapshot (stats : EdgeStats) (now : Instant) : EdgeRow :=
  edgeRow quantiles (stats.samples.filter fun s => durationSince now s.atTime ≤ window)
    stats.cumCount stats.cumErrors

def rows (m : ServiceMap) (now : Instant) : List (EdgeKey × EdgeRow) :=
  table (fun stats => Option.guard (fun r => !(r.count = 0 && r.cumCount = 0))
    (snapshot quantiles stats now)) EdgeRow.count m.edges

end ServiceMap

theorem filter_eq_recent {S : Type} (stamp : S → Instant) (now : Instant) (q : List S) :
    (q.filter fun s => durationSince now (stamp s) ≤ window) = recent stamp window now q := by
  refine List.filter_congr fun s _ => ?_
  rw [expired,← decide_not]
  exact decide_eq_decide.mpr Nat.not_lt.symm

theorem HttpAggregator.row_snapshot (samples : List EndpointSample) (now : Instant) :
    Option.guard (fun r => r.count ≠ 0) (snapshot quantiles samples now) =
      rowOf (httpRow quantiles) (recent EndpointSample.atTime window now samples) := by
  rw [snapshot,filter_eq_recent]
  generalize recent EndpointSample.atTime window now samples = q
  cases q <;> simp [rowOf,httpRow,Option.guard]

theorem ServiceMap.count_snapshot (stats : EdgeStats) (now : Instant) :
    ((Option.guard (fun r => !(r.count = 0 && r.cumCount = 0))
        (snapshot quantiles stats now)).map EdgeRow.count).getD 0 =
      (recent EdgeSample.atTime window now stats.samples).length := by
  rw [snapshot,filter_eq_recent]
  generalize recent EdgeSample.atTime window now stats.samples = q
  cases q <;> cases stats.cumCount <;> simp [edgeRow,Option.guard]

def tcpSample (e : SockLatencyEvent × Instant) : Option (EndpointKey × TcpSample) :=
  (EndpointKey.fromEvent e.1).map fun key => (key,⟨e.2,e.1.latencyNs,isSyscallError e.1.ret⟩)

theorem tcpSample_time {e : SockLatencyEvent × Instant} {s : TcpSample}
    (h : (tcpSample e).map Prod.snd = some s) : s.atTime = e.2 := by
  simp only [tcpSample,Option.map_map] at h
  obtain ⟨key,-,rfl⟩ := Option.map_eq_some_iff.mp h
  rfl

def Aggregator.run (events : List (SockLatencyEvent × Instant)) : Aggregator :=
  events.foldl (fun a e => a.record e.1 e.2) ⟨∅⟩

theorem Aggregator.run_keeps {events : List (SockLatencyEvent × Instant)} {now : Instant}
    (h : ∀ e ∈ events, e.2 ≤ now) :
    Keeps TcpSample.atTime window now id (run events).byEndpoint (events.filterMap tcpSample) := by
  induction events using List.reverseRecOn with
  | nil => exact keeps_empty
  | append_singleton events e ih =>
    have hold := ih fun e' he' => h e' (List.mem_append_left _ he')
    rw [run,List.foldl_concat,List.filterMap_append]
    rw [run] at hold
    cases hkey : EndpointKey.fromEvent e.1 with
    | none => simpa [record,tcpSample,hkey] using hold
    | some key =>
      have he : e.2 ≤ now := h e (by simp)
      simp only [record,hkey]
      have hlast : [e].filterMap tcpSample =
          [(key,⟨e.2,e.1.latencyNs,isSyscallError e.1.ret⟩)] := by simp [tcpSample,hkey]
      rw [hlast]
      exact hold.upsert key he rfl fun _ => rfl

theorem samplesOf_ordered {K S : Type} [DecidableEq K] {stamp : S → ℕ} {log : List (K × S)}
    (h : (log.map Prod.snd).Pairwise fun a b => stamp a ≤ stamp b) (k : K) :
    (samplesOf k log).Pairwise fun a b => stamp a ≤ stamp b :=
  h.sublist (List.filter_sublist.map Prod.snd)

/-- The table of socket calls, for events that are recorded in the order of time: one row for each
endpoint and direction with a call in the last minute, made from just these calls, the highest
count first. -/
theorem tcp_table_is_last_minute (events : List (SockLatencyEvent × Instant)) (now : Instant)
    (hordered : events.Pairwise fun a b => a.2 ≤ b.2) (hnow : ∀ e ∈ events, e.2 ≤ now) :
    let rows := (Aggregator.run events).rows quantiles now
    let log := events.filterMap tcpSample
    let lastMinute := fun key => recent TcpSample.atTime window now (samplesOf key log)
    (∀ key row, (key,row) ∈ rows ↔
        lastMinute key ≠ [] ∧ row = tcpRow quantiles (lastMinute key)) ∧
      (rows.map Prod.fst).Nodup ∧ (rows.Pairwise fun a b => b.2.count ≤ a.2.count) ∧
      (rows.map fun e => e.2.count).sum =
        (recent TcpSample.atTime window now (log.map Prod.snd)).length := by
  intro rows log lastMinute
  have hkeeps := Aggregator.run_keeps hnow
  have htimes : (log.map Prod.snd).Pairwise fun a b => a.atTime ≤ b.atTime := by
    rw [List.map_filterMap]
    refine hordered.filterMap _ fun a b hab x hx y hy => ?_
    rw [tcpSample_time hx,tcpSample_time hy]
    exact hab
  -- the queues are by time, so that popping them leaves the calls of the last minute
  have hrow : ∀ key samples, (Aggregator.run events).byEndpoint.get key = some samples →
      Option.guard (fun r => 0 < r.count) (Aggregator.snapshot quantiles samples now) =
        rowOf (tcpRow quantiles) (recent TcpSample.atTime window now samples) := by
    intro key samples hget
    have hqueue : prune TcpSample.atTime now samples = recent TcpSample.atTime window now samples :=
      pop_eq_recent
        ((samplesOf_ordered htimes key).sublist (hkeeps.suffix key samples hget).sublist) now
    rw [Aggregator.snapshot,hqueue]
    cases recent TcpSample.atTime window now samples <;> simp [rowOf,tcpRow,Option.guard]
  exact ⟨fun key row => hkeeps.mem_table hrow,table_keys_nodup,table_sorted,
    hkeeps.sum_table hrow fun _ => rfl⟩

/-- A call two minutes ago and a failed one just now. -/
def twoCalls : List (SockLatencyEvent × Instant) :=
  [(⟨1,42,42,0,500,0,0x0100007f,0x5000⟩,0),(⟨1,42,42,-111,900,0,0x0100007f,0x5000⟩,120*10^9)]

theorem tcp_table_is_last_minute_of_two :
    let rows := (Aggregator.run twoCalls).rows slowest (120*10^9)
    (⟨0x0100007f,0x5000,.connect⟩,⟨1,1,900,900,900⟩) ∈ rows ∧
      (rows.map fun e => e.2.count).sum = 1 := by
  intro rows
  have h := tcp_table_is_last_minute slowest twoCalls (120*10^9) (by decide) (by decide)
  exact ⟨(h.1 _ _).mpr ⟨by decide,rfl⟩,h.2.2.2.trans (by decide)⟩

/-- The exchange that an operation publishes, with the time. -/
def SinkOp.publishedAt : SinkOp → List (ParsedExchange × Instant)
  | .publish _ c =>
    if isOtlpExportRoute c.parsed.endpoint.method c.parsed.endpoint.path then []
    else [(c.parsed,c.now)]
  | _ => []

/-- A published exchange, and the edge that it is kept under. -/
structure Filed where
  parsed : ParsedExchange
  edge : EdgeKey
  atTime : Instant

namespace Filed

def sample (f : Filed) : HttpEndpoint × EndpointSample :=
  (f.parsed.endpoint,⟨f.atTime,f.parsed.latencyNs,f.parsed.wireNs,f.parsed.status⟩)

def edgeSample (f : Filed) : EdgeKey × EdgeSample :=
  (f.edge,⟨f.atTime,f.parsed.latencyNs,f.parsed.status⟩)

end Filed

namespace Sinks

/-- A step, and where the exchange that it publishes is filed. -/
def filing (s : Sinks) (op : SinkOp) : Sinks × List Filed :=
  ((s.step op).1,
    match op with
    | .publish env c =>
      if isOtlpExportRoute c.parsed.endpoint.method c.parsed.endpoint.path then []
      else
        let r := s.mapRecord env c
        [⟨c.parsed,slot maxEdges .other s.serviceMap.edges ⟨r.src.label,r.dst⟩,c.now⟩]
    | _ => [])

/-- The edges' counts since the start. -/
def Cumulates (m : FiniteMap EdgeKey EdgeStats) (log : List (EdgeKey × EdgeSample)) : Prop :=
  ∀ edge, (m.get edge).map (fun stats => (stats.cumCount,stats.cumErrors)) =
    rowOf (fun samples => (samples.length,samples.countP fun s => serverError s.status))
      (samplesOf edge log)

/-- Both stores against the exchanges filed so far, for a reader who is not early. -/
structure Files (now : Instant) (s : Sinks) (log : List Filed) : Prop where
  routes : (∀ f ∈ log, f.atTime ≤ now) → Keeps EndpointSample.atTime window now id
    s.httpAgg.endpoints (log.map Filed.sample)
  edges : (∀ f ∈ log, f.atTime ≤ now) → Keeps EdgeSample.atTime window now EdgeStats.samples
    s.serviceMap.edges (log.map Filed.edgeSample)
  cumulates : Cumulates s.serviceMap.edges (log.map Filed.edgeSample)

theorem files_start (now : Instant) (hub : ExportHub) : (start hub).Files now [] :=
  ⟨fun _ => keeps_empty,fun _ => keeps_empty,fun _ => rfl⟩

theorem Cumulates.record {m : FiniteMap EdgeKey EdgeStats} {log : List (EdgeKey × EdgeSample)}
    (h : Cumulates m log) (edge : EdgeKey) (rec : MapRecord) (now : Instant) :
    Cumulates (m.upsert edge .default (·.record rec now))
      (log ++ [(edge,⟨now,rec.latencyNs,rec.status⟩)]) := by
  intro edge'
  rw [FiniteMap.get_upsert,samplesOf_concat]
  by_cases hedge : edge' = edge
  · subst hedge
    have hold := h edge'
    rw [if_pos rfl,if_pos rfl]
    cases hget : m.get edge' with
    | none =>
      have hnone : samplesOf edge' log = [] := by
        by_contra hne
        simp [hget,rowOf,hne] at hold
      cases herror : serverError rec.status <;>
        simp [rowOf,hnone,EdgeStats.record,EdgeStats.default,herror]
    | some stats =>
      have hne : samplesOf edge' log ≠ [] := by
        intro hnone
        simp [hget,rowOf,hnone] at hold
      simp only [hget,rowOf,if_neg hne,Option.map_some,Option.some_inj,Prod.mk.injEq] at hold
      cases herror : serverError rec.status <;>
        simp [rowOf,EdgeStats.record,herror,hold.1,hold.2,List.countP_append]
  · rw [if_neg hedge,if_neg (Ne.symm hedge),List.append_nil]
    exact h edge'

/-- The table of edges, from the log. -/
theorem Cumulates.mem_rows {m : ServiceMap} {log : List (EdgeKey × EdgeSample)} {now : Instant}
    (h : Cumulates m.edges log)
    (hkeeps : Keeps EdgeSample.atTime window now EdgeStats.samples m.edges log) {edge : EdgeKey}
    {row : EdgeRow} :
    (edge,row) ∈ m.rows quantiles now ↔
      samplesOf edge log ≠ [] ∧
        row = edgeRow quantiles (recent EdgeSample.atTime window now (samplesOf edge log))
          (samplesOf edge log).length
          ((samplesOf edge log).countP fun s => serverError s.status) := by
  refine mem_table.trans ?_
  have hcum := h edge
  have hseen := hkeeps.seen edge
  by_cases hnone : samplesOf edge log = []
  · rw [rowOf,if_pos hnone,Option.map_eq_none_iff] at hcum
    simp [hcum,hnone]
  · rw [rowOf,if_neg hnone] at hcum
    obtain ⟨stats,hget,hstats⟩ := Option.map_eq_some_iff.mp hcum
    obtain ⟨hcount,herrors⟩ := Prod.mk.inj hstats
    rw [hget,Option.map_some,Option.getD_some] at hseen
    have hsnap : ServiceMap.snapshot quantiles stats now =
        edgeRow quantiles (recent EdgeSample.atTime window now (samplesOf edge log))
          (samplesOf edge log).length
          ((samplesOf edge log).countP fun s => serverError s.status) := by
      rw [ServiceMap.snapshot,filter_eq_recent,hseen,hcount,herrors]
    constructor
    · rintro ⟨_,hget',hrow⟩
      obtain rfl := Option.some_inj.mp (hget.symm.trans hget')
      exact ⟨hnone,by rw [← hsnap]; exact (Option.guard_eq_some_iff.mp hrow).1.symm⟩
    · rintro ⟨-,rfl⟩
      refine ⟨stats,hget,Option.guard_eq_some_iff.mpr ⟨hsnap,?_⟩⟩
      simp [hsnap,edgeRow,hnone]

theorem Files.step {now : Instant} {s : Sinks} {log : List Filed} (h : s.Files now log) (op : SinkOp) :
    (s.filing op).1.Files now (log ++ (s.filing op).2) := by
  cases op with
  | publish env c =>
    simp only [filing,Sinks.step,publishParsed]
    split_ifs with hotlp
    · simpa using h
    · refine ⟨fun ht => ?_,fun ht => ?_,?_⟩
      · rw [List.map_append]
        exact (h.routes fun f hf => ht f (List.mem_append_left _ hf)).upsert c.parsed.endpoint
          (ht _ (List.mem_append_right _ (List.mem_singleton_self _))) rfl fun _ => rfl
      · rw [List.map_append,serviceMap_record]
        have hpush : ∀ stats : EdgeStats, (stats.record (s.mapRecord env c) c.now).samples =
            pop EdgeSample.atTime window c.now
              (stats.samples ++ [⟨c.now,c.parsed.latencyNs,c.parsed.status⟩]) := fun _ => rfl
        exact (h.edges fun f hf => ht f (List.mem_append_left _ hf)).upsert _
          (ht _ (List.mem_append_right _ (List.mem_singleton_self _))) rfl hpush
      · rw [List.map_append,serviceMap_record]
        exact h.cumulates.record _ (s.mapRecord env c) c.now
  | _ =>
    simp only [filing,List.append_nil]
    exact ⟨h.routes,h.edges,h.cumulates⟩

theorem filed (s : Sinks) (ops : List SinkOp) :
    (Machine.outputs filing s ops).map (fun f => (f.parsed,f.atTime)) =
      ops.flatMap SinkOp.publishedAt := by
  refine Machine.outputs_map _ (fun s op => ?_) s ops
  cases op with
  | publish env c =>
    simp only [filing,SinkOp.publishedAt]
    split_ifs <;> rfl
  | _ => rfl

theorem length_recent_filed {S : Type} {stamp : S → Instant} {sampled : List S} (s : Sinks)
    (ops : List SinkOp) (h : sampled.map stamp = (Machine.outputs filing s ops).map Filed.atTime)
    (now : Instant) : (recent stamp window now sampled).length =
      ((ops.flatMap SinkOp.publishedAt).filter fun x => now - x.2 ≤ window).length := by
  have hpublished : (ops.flatMap SinkOp.publishedAt).map Prod.snd =
      (Machine.outputs filing s ops).map Filed.atTime := by
    rw [← filed s ops,List.map_map]
    rfl
  rw [length_recent,h,← hpublished,List.filter_map,List.length_map]
  rfl

end Sinks

/-- The tables of routes and of edges of any run, read at a time when nothing is still to come:
one row for each route with a request in the last minute, and one for each edge with a request
since the start, both made from the exchanges that were published, the highest count first.  Both
count every exchange of the last minute once. -/
theorem request_tables_are_last_minute (hub : ExportHub) (ops : List SinkOp) (now : Instant)
    (hnow : ∀ x ∈ ops.flatMap SinkOp.publishedAt, x.2 ≤ now) :
    let s := Machine.final Sinks.step (Sinks.start hub) ops
    let log := Machine.outputs Sinks.filing (Sinks.start hub) ops
    let routes := s.httpAgg.rows quantiles now
    let edges := s.serviceMap.rows quantiles now
    let onRoute := fun endpoint =>
      recent EndpointSample.atTime window now (samplesOf endpoint (log.map Filed.sample))
    let onEdge := fun edge => samplesOf edge (log.map Filed.edgeSample)
    let published := (ops.flatMap SinkOp.publishedAt).filter fun x => now - x.2 ≤ window
    (∀ endpoint row, (endpoint,row) ∈ routes ↔
        onRoute endpoint ≠ [] ∧ row = httpRow quantiles (onRoute endpoint)) ∧
      (∀ edge row, (edge,row) ∈ edges ↔
        onEdge edge ≠ [] ∧
          row = edgeRow quantiles (recent EdgeSample.atTime window now (onEdge edge))
            (onEdge edge).length ((onEdge edge).countP fun s => serverError s.status)) ∧
      (routes.map Prod.fst).Nodup ∧ (edges.map Prod.fst).Nodup ∧
      (routes.Pairwise fun a b => b.2.count ≤ a.2.count) ∧
      (edges.Pairwise fun a b => b.2.count ≤ a.2.count) ∧
      log.map (fun f => (f.parsed,f.atTime)) = ops.flatMap SinkOp.publishedAt ∧
      (routes.map fun e => e.2.count).sum = published.length ∧
      (edges.map fun e => e.2.count).sum = published.length := by
  intro s log routes edges onRoute onEdge published
  have hfiled : log.map (fun f => (f.parsed,f.atTime)) = ops.flatMap SinkOp.publishedAt :=
    Sinks.filed _ ops
  have htimes : ∀ f ∈ log, f.atTime ≤ now := by
    intro f hf
    exact hnow (f.parsed,f.atTime) (hfiled ▸ List.mem_map_of_mem hf)
  have hfiles : s.Files now log := Machine.final_log Sinks.filing (I := Sinks.Files now)
    (fun op h => h.step op) (Sinks.files_start now hub) ops
  have hroutes := hfiles.routes htimes
  have hedges := hfiles.edges htimes
  have hrow := fun endpoint samples (_ : s.httpAgg.endpoints.get endpoint = some samples) =>
    HttpAggregator.row_snapshot quantiles samples now
  refine ⟨fun endpoint row => hroutes.mem_table hrow,fun edge row => ?_,table_keys_nodup,
    table_keys_nodup,table_sorted,table_sorted,hfiled,?_,?_⟩
  · exact hfiles.cumulates.mem_rows quantiles hedges
  · refine (hroutes.sum_table hrow fun _ => rfl).trans
      (Sinks.length_recent_filed (.start hub) ops ?_ now)
    rw [List.map_map,List.map_map]
    rfl
  · refine (sum_table fun edge stats hget => ?_).trans (hedges.total.trans
      (Sinks.length_recent_filed (.start hub) ops ?_ now))
    · exact ServiceMap.count_snapshot quantiles stats now
    · rw [List.map_map,List.map_map]
      rfl

/-- One request now and then. -/
def requestAt (now : Instant) (latencyNs : ℕ) : SinkOp :=
  .publish .bare ⟨42,3,0,0,true,none,0,⟨.http "GET" "/",200,latencyNs,none⟩,now⟩

theorem request_tables_are_last_minute_of_three :
    let s := Machine.final Sinks.step (Sinks.start (.start false 1 0 none))
      [requestAt 0 9,requestAt (70*10^9) 3,requestAt (80*10^9) 5]
    let routes := s.httpAgg.rows slowest (100*10^9)
    (.http "GET" "/",⟨2,1/30,5,5,5,none,0,0⟩) ∈ routes ∧
      (routes.map fun e => e.2.count).sum = 2 := by
  intro s routes
  have h := request_tables_are_last_minute slowest (.start false 1 0 none)
    [requestAt 0 9,requestAt (70*10^9) 3,requestAt (80*10^9) 5] (100*10^9)
    (by simp [requestAt,SinkOp.publishedAt,HttpEndpoint.http,isOtlpExportRoute])
  exact ⟨(h.1 _ _).mpr ⟨by decide +kernel,by decide +kernel⟩,
    h.2.2.2.2.2.2.2.1.trans (by decide +kernel)⟩

end ObsAgent
