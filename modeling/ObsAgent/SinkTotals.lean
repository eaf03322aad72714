import ObsAgent.Publish

/-! Runs of the sinks: the service map, the metrics registry and the hub's own counters add up to
the exchanges published, whatever the caps redirect. -/
namespace ObsAgent

open CappedStore

namespace ExportHub

/-- The hub's counters and its registry, against the numbers of records, errors and redirected
records. -/
structure Tally (h : ExportHub) (calls errors redirected : ℕ) : Prop where
  total : h.httpTotal = calls
  failed : h.httpErrors = errors
  registry : h.registry.Tally calls errors redirected

theorem tally_start (enabled : Bool) (sampleN : UInt64) (cap : ℕ) (profile : Option ProfileStore) :
    (ExportHub.start enabled sampleN cap profile).Tally 0 0 0 := ⟨rfl,rfl,registry_tally_new⟩

section

variable {h b : ExportHub} {calls errors redirected : ℕ}

theorem Tally.traces (ht : h.Tally calls errors redirected) (htotal : b.httpTotal = h.httpTotal)
    (hfailed : b.httpErrors = h.httpErrors) {sampled notSampled dropped : ℕ}
    (hreg : b.registry = {h.registry with
      tracesSampled := sampled, tracesNotSampled := notSampled, tracesDropped := dropped}) :
    b.Tally calls errors redirected := by
  obtain ⟨h1,h2,h3⟩ := ht
  refine ⟨htotal.trans h1,hfailed.trans h2,?_⟩
  rw [hreg]
  exact ⟨h3.count,h3.errors,h3.capped,h3.overflow,h3.series,h3.wire,h3.handshake,h3.within⟩

theorem Tally.counted (ht : h.Tally calls errors redirected) {x : ExchangeArgs} (hb : h.Counted x b) :
    b.Tally (calls + 1) (errors + (serverError x.status).toNat)
      (redirected + (redirects maxSeries h.registry.series x.obs.key).toNat) := by
  refine ⟨?_,?_,?_⟩
  · rw [hb.httpTotal,ht.total]
  · rw [hb.httpErrors,ht.failed]
  · rw [hb.registry]
    exact ht.registry.record x.obs

theorem Tally.record (ht : h.Tally calls errors redirected) (x : ExchangeArgs) :
    (h.recordExchange x).1.Tally (calls + 1) (errors + (serverError x.status).toNat)
      (redirected + (redirects maxSeries h.registry.series x.obs.key).toNat) := by
  have hrec := h.recordExchange_records x
  generalize h.recordExchange x = q at hrec ⊢
  cases hrec with
  | disabled hb => exact ht.counted hb
  | notSampled hb => exact (ht.counted hb).traces rfl rfl rfl
  | full hb => exact (ht.counted hb).traces rfl rfl rfl
  | queued hb => exact (ht.counted hb).traces rfl rfl rfl

end

end ExportHub

inductive SinkOp
  | publish (env : Env) (c : PublishArgs)
  | noteHandshake (tgid : UInt32) (fd : Int32) (latencyNs : ℕ) (tsNs : UInt64) (now : Instant)
  | evictHandshake (now : Instant) (stillOpen : UInt32 → Int32 → Bool)
  | drain

/-- The exchange that an operation publishes, routes of the collector left out. -/
def SinkOp.published : SinkOp → List ParsedExchange
  | .publish _ c =>
    if isOtlpExportRoute c.parsed.endpoint.method c.parsed.endpoint.path then [] else [c.parsed]
  | _ => []

/-- A published exchange, and whether the stores have sent it to their entry for the rest. -/
structure Placement where
  parsed : ParsedExchange
  edge : Bool
  series : Bool

namespace Sinks

def place (s : Sinks) (env : Env) (c : PublishArgs) : Placement where
  parsed := c.parsed
  edge := redirects maxEdges s.serviceMap.edges
    ⟨(s.mapRecord env c).src.label,(s.mapRecord env c).dst⟩
  series := redirects maxSeries s.hub.registry.series (s.exchangeArgs env c).obs.key

def step (s : Sinks) : SinkOp → Sinks × List Placement
  | .publish env c => ((s.publishParsed env c).1,
      if isOtlpExportRoute c.parsed.endpoint.method c.parsed.endpoint.path then []
      else [s.place env c])
  | .noteHandshake tgid fd latencyNs tsNs now =>
    ({s with hub := s.hub.noteHandshake tgid fd latencyNs tsNs now},[])
  | .evictHandshake now stillOpen => ({s with hub := s.hub.evictHandshake now stillOpen},[])
  | .drain => ({s with hub := s.hub.drain.1},[])

theorem countP_concat {α : Type} (f : α → Bool) (log : List α) (a : α) :
    (log ++ [a]).countP f = log.countP f + (f a).toNat := by
  cases h : f a <;> simp [List.countP_append,h]

/-- All stores against the exchanges placed so far. -/
structure Tally (s : Sinks) (log : List Placement) : Prop where
  edges : s.serviceMap.Tally log.length (log.countP fun p => serverError p.parsed.status)
    (log.countP Placement.edge)
  hub : s.hub.Tally log.length (log.countP fun p => serverError p.parsed.status)
    (log.countP Placement.series)

theorem tally_start {hub : ExportHub} (h : hub.Tally 0 0 0) : (start hub).Tally [] :=
  ⟨serviceMap_tally_default,h⟩

theorem Tally.step {s : Sinks} {log : List Placement} (h : s.Tally log) (op : SinkOp) :
    (s.step op).1.Tally (log ++ (s.step op).2) := by
  cases op with
  | publish env c =>
    simp only [Sinks.step,publishParsed]
    split_ifs with hotlp
    · simpa using h
    · refine ⟨?_,?_⟩
      · rw [List.length_append,List.length_singleton,countP_concat,countP_concat]
        exact h.edges.record (s.mapRecord env c) c.now
      · rw [List.length_append,List.length_singleton,countP_concat,countP_concat]
        exact h.hub.record (s.exchangeArgs env c)
  | noteHandshake tgid fd latencyNs tsNs now =>
    rw [Sinks.step,List.append_nil]
    exact ⟨h.edges,h.hub.total,h.hub.failed,h.hub.registry.recordHandshake latencyNs⟩
  | evictHandshake now stillOpen =>
    rw [Sinks.step,List.append_nil]
    exact ⟨h.edges,h.hub.total,h.hub.failed,h.hub.registry⟩
  | drain =>
    rw [Sinks.step,List.append_nil]
    exact ⟨h.edges,h.hub.total,h.hub.failed,h.hub.registry⟩

theorem placed (s : Sinks) (ops : List SinkOp) :
    (Machine.outputs Sinks.step s ops).map Placement.parsed = ops.flatMap SinkOp.published := by
  refine Machine.outputs_map _ (fun s op => ?_) s ops
  cases op with
  | publish env c =>
    simp only [Sinks.step,SinkOp.published]
    split_ifs <;> rfl
  | _ => rfl

end Sinks

/-- On every run from empty stores the edges, the series and the hub count every exchange
published, and every server error among them, once.  The stores stay within one entry of their
caps and count what they redirect, and all histograms add up, those of the wire within those of
their series. -/
theorem sinks_agree (enabled : Bool) (sampleN : UInt64) (cap : ℕ) (profile : Option ProfileStore)
    (ops : List SinkOp) :
    let start := Sinks.start (ExportHub.start enabled sampleN cap profile)
    let s := Machine.final Sinks.step start ops
    let log := Machine.outputs Sinks.step start ops
    let published := ops.flatMap SinkOp.published
    let failed := published.filter fun x => serverError x.status
    (s.serviceMap.edges.total EdgeStats.cumCount = published.length ∧
        s.hub.registry.series.total SeriesStats.count = published.length ∧
        s.hub.httpTotal = published.length) ∧
      (s.serviceMap.edges.total EdgeStats.cumErrors = failed.length ∧
        s.hub.registry.series.total SeriesStats.errors = failed.length ∧
        s.hub.httpErrors = failed.length) ∧
      (s.serviceMap.edges.len ≤ 4097 ∧ s.hub.registry.series.len ≤ 2049) ∧
      (log.map Placement.parsed = published ∧
        s.serviceMap.overflowCount = log.countP Placement.edge ∧
        s.hub.registry.overflowCount = log.countP Placement.series) ∧
      (∀ key stats, s.hub.registry.series.get key = some stats ∨
          s.hub.registry.wire.get key = some stats → ∑ i, stats.buckets i = stats.count) ∧
      ∑ i, s.hub.registry.handshake.buckets i = s.hub.registry.handshake.count ∧
      ∀ key wire, s.hub.registry.wire.get key = some wire →
        ∃ series, s.hub.registry.series.get key = some series ∧ wire.count ≤ series.count := by
  intro start s log published failed
  have ht : s.Tally log := Machine.final_log _ (I := Sinks.Tally) (fun op h => h.step op)
    (Sinks.tally_start (ExportHub.tally_start enabled sampleN cap profile)) ops
  have hplaced : log.map Placement.parsed = published := Sinks.placed start ops
  have hlen : log.length = published.length := by rw [← hplaced,List.length_map]
  have hfailed : log.countP (fun p => serverError p.parsed.status) = failed.length := by
    rw [← List.countP_eq_length_filter,← hplaced,List.countP_map]
    rfl
  obtain ⟨hedges,htotal,herrors,hseries⟩ := ht
  rw [hlen,hfailed] at hedges hseries
  refine ⟨⟨hedges.count,hseries.count,htotal.trans hlen⟩,
    ⟨hedges.errors,hseries.errors,herrors.trans hfailed⟩,⟨hedges.capped.few,hseries.capped.few⟩,
    ⟨hplaced,hedges.overflow,hseries.overflow⟩,fun key stats hget => ?_,hseries.handshake,
    hseries.within⟩
  rcases hget with hget | hget
  · exact hseries.series key stats hget
  · exact hseries.wire key stats hget

end ObsAgent
