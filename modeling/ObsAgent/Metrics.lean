import ObsAgent.CappedStore
import ObsAgent.Common
import Mathlib.Algebra.BigOperators.Fin
import Mathlib.Data.Rat.Defs

/-! The stores that exchanges are counted in: the rolling aggregates by endpoint, the service map
with its directed edges, and the cumulative series of the metrics registry. -/
namespace ObsAgent

open CappedStore

structure HttpEndpoint where
  method : String
  path : String
  protocol : String
  deriving DecidableEq

namespace HttpEndpoint

def http (method path : String) : HttpEndpoint := ⟨method,path,"http"⟩

def labeled (protocol method path : String) : HttpEndpoint := ⟨method,path,protocol⟩

end HttpEndpoint

structure ParsedExchange where
  endpoint : HttpEndpoint
  status : ℕ
  latencyNs : ℕ
  wireNs : Option ℕ

def serverError (status : ℕ) : Bool := status ≥ 500

def window : ℕ := 60 * 10^9

/-- A queue without the samples that have left the window, oldest first. -/
def prune {α : Type} (stamp : α → Instant) (now : Instant) (samples : List α) : List α :=
  samples.dropWhile fun s => durationSince now (stamp s) > window

structure EndpointSample where
  atTime : Instant
  latencyNs : ℕ
  wireNs : Option ℕ
  status : ℕ

structure HttpAggregator where
  endpoints : FiniteMap HttpEndpoint (List EndpointSample)

def HttpAggregator.record (a : HttpAggregator) (parsed : ParsedExchange) (now : Instant) :
    HttpAggregator :=
  ⟨a.endpoints.upsert parsed.endpoint [] fun samples =>
    prune EndpointSample.atTime now
      (samples ++ [⟨now,parsed.latencyNs,parsed.wireNs,parsed.status⟩])⟩

structure NodeId where
  label : String
  tgid : UInt32
  comm : String
  containerId : Option String
  podUid : Option String

inductive DstId
  | pod (ns name : String)
  | ipPort (addr : String)
  | unknown
  deriving DecidableEq

def DstId.label : DstId → String
  | .pod ns name => ns ++ "/" ++ name
  | .ipPort addr => addr
  | .unknown => "unknown"

structure EdgeKey where
  src : String
  dst : DstId
  deriving DecidableEq

def EdgeKey.other : EdgeKey := ⟨"_other",.unknown⟩

structure EdgeSample where
  atTime : Instant
  latencyNs : ℕ
  status : ℕ

structure EdgeStats where
  samples : List EdgeSample
  cumCount : ℕ
  cumErrors : ℕ
  cumLatencyNsSum : ℕ

structure MapRecord where
  src : NodeId
  dst : DstId
  endpoint : HttpEndpoint
  latencyNs : ℕ
  status : ℕ

namespace EdgeStats

def default : EdgeStats := ⟨[],0,0,0⟩

def record (stats : EdgeStats) (rec : MapRecord) (now : Instant) : EdgeStats where
  samples := prune EdgeSample.atTime now (stats.samples ++ [⟨now,rec.latencyNs,rec.status⟩])
  cumCount := stats.cumCount + 1
  cumErrors := stats.cumErrors + (serverError rec.status).toNat
  cumLatencyNsSum := stats.cumLatencyNsSum + rec.latencyNs

end EdgeStats

def maxEdges : ℕ := 4096

structure ServiceMap where
  edges : FiniteMap EdgeKey EdgeStats
  overflowCount : ℕ

namespace ServiceMap

def default : ServiceMap := ⟨∅,0⟩

def recordKey (m : ServiceMap) (key : EdgeKey) (rec : MapRecord) (now : Instant) : ServiceMap :=
  {m with edges := m.edges.upsert key .default (·.record rec now)}

def record (m : ServiceMap) (rec : MapRecord) (now : Instant) : ServiceMap :=
  let key : EdgeKey := ⟨rec.src.label,rec.dst⟩
  if !m.edges.contains key && decide (m.edges.len ≥ maxEdges) then
    {m with overflowCount := m.overflowCount + 1}.recordKey .other rec now
  else m.recordKey key rec now

end ServiceMap

def latencyBoundsMs : List ℚ := [1,2,5,10,25,50,100,250,500,1000,2500,5000,10000]

def maxSeries : ℕ := 2048

def statusClass (status : ℕ) : String :=
  if 200 ≤ status ∧ status ≤ 299 then "2xx"
  else if 300 ≤ status ∧ status ≤ 399 then "3xx"
  else if 400 ≤ status ∧ status ≤ 499 then "4xx"
  else if 500 ≤ status ∧ status ≤ 599 then "5xx"
  else "other"

structure SeriesKey where
  src : String
  dst : String
  method : String
  route : String
  statusClass : String
  protocol : String
  deriving DecidableEq

def SeriesKey.other : SeriesKey := ⟨"_other","_other","_","_","other","_"⟩

structure HttpObs where
  src : String
  dst : String
  method : String
  route : String
  latencyNs : ℕ
  status : ℕ
  protocol : String
  wireNs : Option ℕ

def HttpObs.key (obs : HttpObs) : SeriesKey :=
  ⟨obs.src,obs.dst,obs.method,obs.route,ObsAgent.statusClass obs.status,obs.protocol⟩

/-- A histogram with one bucket for each bound and one above. -/
structure SeriesStats where
  count : ℕ
  sumMs : Float
  buckets : Fin (latencyBoundsMs.length + 1) → ℕ
  errors : ℕ

/-- The first bucket whose bound is not exceeded, or the last. -/
def bucketOf (ms : ℚ) : Fin (latencyBoundsMs.length + 1) :=
  ⟨latencyBoundsMs.findIdx fun bound => ms ≤ bound,Nat.lt_succ_of_le List.findIdx_le_length⟩

namespace SeriesStats

def new : SeriesStats := ⟨0,0,fun _ => 0,0⟩

/-- The sum is that of the rounded durations.  The bucket is found with the exact one: rounding moves
no duration in nanoseconds across a bound. -/
def record (s : SeriesStats) (latencyNs status : ℕ) : SeriesStats :=
  let ms : ℚ := latencyNs / 1000000
  { count := s.count + 1
    sumMs := s.sumMs + latencyNs.toUInt64.toFloat / 1000000
    buckets := Function.update s.buckets (bucketOf ms) (s.buckets (bucketOf ms) + 1)
    errors := s.errors + (serverError status).toNat }

end SeriesStats

structure MetricsRegistry where
  series : FiniteMap SeriesKey SeriesStats
  overflowCount : ℕ
  tracesSampled : ℕ
  tracesNotSampled : ℕ
  tracesDropped : ℕ
  wire : FiniteMap SeriesKey SeriesStats
  handshake : SeriesStats

namespace MetricsRegistry

def new : MetricsRegistry := ⟨∅,0,0,0,0,∅,.new⟩

def record (g : MetricsRegistry) (obs : HttpObs) : MetricsRegistry :=
  let full := !g.series.contains obs.key && decide (g.series.len ≥ maxSeries)
  let key := if full then .other else obs.key
  {g with
    overflowCount := if full then g.overflowCount + 1 else g.overflowCount
    series := g.series.upsert key .new (·.record obs.latencyNs obs.status)
    wire := match obs.wireNs with
      | none => g.wire
      | some w => g.wire.upsert key .new (·.record w obs.status)}

def recordHandshake (g : MetricsRegistry) (latencyNs : ℕ) : MetricsRegistry :=
  {g with handshake := g.handshake.record latencyNs 200}

end MetricsRegistry

theorem serviceMap_record (m : ServiceMap) (rec : MapRecord) (now : Instant) :
    m.record rec now =
      ⟨m.edges.upsert (slot maxEdges .other m.edges ⟨rec.src.label,rec.dst⟩) .default
          (·.record rec now),
        m.overflowCount + (redirects maxEdges m.edges ⟨rec.src.label,rec.dst⟩).toNat⟩ := by
  have hred : redirects maxEdges m.edges ⟨rec.src.label,rec.dst⟩ =
    (!m.edges.contains ⟨rec.src.label,rec.dst⟩ && decide (m.edges.len ≥ maxEdges)) := rfl
  rw [ServiceMap.record,slot,hred]
  split_ifs with hfull
  · rw [hfull]
    rfl
  · rw [Bool.not_eq_true] at hfull
    rw [hfull]
    rfl

/-- The edges against the numbers of records, of errors and of redirected records. -/
structure ServiceMap.Tally (m : ServiceMap) (calls errors redirected : ℕ) : Prop where
  count : m.edges.total EdgeStats.cumCount = calls
  errors : m.edges.total EdgeStats.cumErrors = errors
  capped : Capped maxEdges .other m.edges
  overflow : m.overflowCount = redirected

theorem serviceMap_tally_default : ServiceMap.default.Tally 0 0 0 := ⟨rfl,rfl,capped_empty _ _,rfl⟩

theorem ServiceMap.Tally.record {m : ServiceMap} {calls errors redirected : ℕ}
    (h : m.Tally calls errors redirected) (rec : MapRecord) (now : Instant) :
    (m.record rec now).Tally (calls + 1) (errors + (serverError rec.status).toNat)
      (redirected + (redirects maxEdges m.edges ⟨rec.src.label,rec.dst⟩).toNat) := by
  rw [serviceMap_record]
  refine ⟨?_,?_,h.capped.put _ _,by rw [h.overflow]⟩
  · exact h.count ▸ FiniteMap.total_upsert (g := EdgeStats.cumCount) _ _ rfl fun _ => rfl
  · exact h.errors ▸ FiniteMap.total_upsert (g := EdgeStats.cumErrors) _ _ rfl fun _ => rfl

namespace SeriesStats

/-- The buckets sum up to the count. -/
def Balanced (s : SeriesStats) : Prop := ∑ i, s.buckets i = s.count

theorem balanced_new : new.Balanced := by simp [Balanced,new]

theorem Balanced.record {s : SeriesStats} (h : s.Balanced) (latencyNs status : ℕ) :
    (s.record latencyNs status).Balanced := by
  simp only [Balanced,SeriesStats.record] at h ⊢
  rw [Finset.sum_update_of_mem (Finset.mem_univ _),← h,
    ← Finset.add_sum_erase _ s.buckets (Finset.mem_univ (bucketOf (latencyNs / 1000000))),
    Finset.sdiff_singleton_eq_erase]
  omega

end SeriesStats

/-- All histograms of a store are balanced. -/
def BalancedStore (m : FiniteMap SeriesKey SeriesStats) : Prop :=
  ∀ k s, m.get k = some s → s.Balanced

theorem BalancedStore.upsert {m : FiniteMap SeriesKey SeriesStats} (h : BalancedStore m)
    (key : SeriesKey) (latencyNs status : ℕ) :
    BalancedStore (m.upsert key .new (·.record latencyNs status)) := by
  intro k s hs
  rw [FiniteMap.get_upsert] at hs
  split_ifs at hs
  · obtain rfl := Option.some.inj hs
    refine SeriesStats.Balanced.record ?_ latencyNs status
    cases hold : m.get key with
    | none => exact SeriesStats.balanced_new
    | some old => exact h key old hold
  · exact h k s hs

/-- Every wire histogram has a series of its key with at least its count. -/
def WireWithin (wire series : FiniteMap SeriesKey SeriesStats) : Prop :=
  ∀ k w, wire.get k = some w → ∃ s, series.get k = some s ∧ w.count ≤ s.count

section

variable {wire series : FiniteMap SeriesKey SeriesStats}

theorem WireWithin.record (h : WireWithin wire series) (key : SeriesKey) (latencyNs status : ℕ) :
    WireWithin wire (series.upsert key .new (·.record latencyNs status)) := by
  intro k w hw
  obtain ⟨s,hs,hle⟩ := h k w hw
  rw [FiniteMap.get_upsert]
  split_ifs with hk
  · subst hk
    exact ⟨_,rfl,by simp only [hs,Option.getD_some,SeriesStats.record]; omega⟩
  · exact ⟨s,hs,hle⟩

theorem WireWithin.both (h : WireWithin wire series) (key : SeriesKey)
    (latencyNs status wireNs wireStatus : ℕ) :
    WireWithin (wire.upsert key .new (·.record wireNs wireStatus))
      (series.upsert key .new (·.record latencyNs status)) := by
  intro k w hw
  rw [FiniteMap.get_upsert] at hw ⊢
  split_ifs at hw ⊢
  · refine ⟨_,rfl,?_⟩
    obtain rfl := Option.some.inj hw
    simp only [SeriesStats.record]
    cases hold : wire.get key with
    | none => simp [SeriesStats.new]
    | some old =>
      obtain ⟨s,hs,hle⟩ := h key old hold
      simpa [hs] using hle
  · exact h k w hw

end

theorem registry_record (g : MetricsRegistry) (obs : HttpObs) :
    g.record obs =
      {g with
        overflowCount := g.overflowCount + (redirects maxSeries g.series obs.key).toNat
        series := g.series.upsert (slot maxSeries .other g.series obs.key) .new
          (·.record obs.latencyNs obs.status)
        wire := match obs.wireNs with
          | none => g.wire
          | some w => g.wire.upsert (slot maxSeries .other g.series obs.key) .new
            (·.record w obs.status)} := by
  have hred : redirects maxSeries g.series obs.key =
    (!g.series.contains obs.key && decide (g.series.len ≥ maxSeries)) := rfl
  simp only [MetricsRegistry.record,slot,← hred]
  cases redirects maxSeries g.series obs.key <;> rfl

theorem errors_record (g : MetricsRegistry) (obs : HttpObs) :
    (g.record obs).series.total SeriesStats.errors =
      g.series.total SeriesStats.errors + (serverError obs.status).toNat := by
  rw [registry_record]
  exact FiniteMap.total_upsert (g := SeriesStats.errors) _ _ rfl fun _ => rfl

/-- The series against the numbers of records, of errors and of redirected records. -/
structure MetricsRegistry.Tally (g : MetricsRegistry) (calls errors redirected : ℕ) : Prop where
  count : g.series.total SeriesStats.count = calls
  errors : g.series.total SeriesStats.errors = errors
  capped : Capped maxSeries .other g.series
  overflow : g.overflowCount = redirected
  series : BalancedStore g.series
  wire : BalancedStore g.wire
  handshake : g.handshake.Balanced
  within : WireWithin g.wire g.series

theorem registry_tally_new : MetricsRegistry.new.Tally 0 0 0 where
  count := rfl
  errors := rfl
  capped := capped_empty _ _
  overflow := rfl
  series k s hs := by simp [MetricsRegistry.new] at hs
  wire k s hs := by simp [MetricsRegistry.new] at hs
  handshake := SeriesStats.balanced_new
  within k w hw := by simp [MetricsRegistry.new] at hw

section

variable {g : MetricsRegistry} {calls errors redirected : ℕ}

theorem MetricsRegistry.Tally.record (h : g.Tally calls errors redirected) (obs : HttpObs) :
    (g.record obs).Tally (calls + 1) (errors + (serverError obs.status).toNat)
      (redirected + (redirects maxSeries g.series obs.key).toNat) := by
  have herrors := errors_record g obs
  rw [registry_record] at herrors ⊢
  generalize hkey : slot maxSeries .other g.series obs.key = key at herrors ⊢
  refine ⟨?_,h.errors ▸ herrors,hkey ▸ h.capped.put _ _,by rw [h.overflow],h.series.upsert _ _ _,?_,
    h.handshake,?_⟩
  · exact h.count ▸ FiniteMap.total_upsert (g := SeriesStats.count) _ _ rfl fun _ => rfl
  · cases obs.wireNs with
    | none => exact h.wire
    | some w => exact h.wire.upsert _ _ _
  · cases obs.wireNs with
    | none => exact h.within.record _ _ _
    | some w => exact h.within.both _ _ _ _ _

theorem MetricsRegistry.Tally.recordHandshake (h : g.Tally calls errors redirected)
    (latencyNs : ℕ) : (g.recordHandshake latencyNs).Tally calls errors redirected :=
  ⟨h.count,h.errors,h.capped,h.overflow,h.series,h.wire,h.handshake.record _ _,h.within⟩

end

end ObsAgent
