import ObsAgent.LastWrite
import ObsAgent.Machine
import ObsAgent.Metrics
import ObsAgent.Trace

/-! The export hub: what a finished exchange adds to the metrics and to the queue of spans, and
the handshakes that wait for the first span of their socket. -/
namespace ObsAgent

structure ExportHub where
  registry : MetricsRegistry
  spans : SpanQueue
  handshake : HandshakeIndex
  sampleN : UInt64
  httpTotal : ℕ
  httpErrors : ℕ
  tracesSampled : ℕ
  tracesNotSampled : ℕ
  tracesDropped : ℕ
  enabled : Bool
  profile : Option ProfileStore
  profileJoinHits : ℕ
  profileJoinMiss : ℕ

/-- The arguments of `record_exchange`, and the wall clock that it reads. -/
structure ExchangeArgs where
  src : String
  dst : DstId
  method : String
  route : String
  latencyNs : ℕ
  status : ℕ
  protocol : String
  wireNs : Option ℕ
  traceMeta : TraceMeta
  now : Instant
  endUnixNs : ℕ

def ExchangeArgs.obs (x : ExchangeArgs) : HttpObs :=
  ⟨x.src,x.dst.label,x.method,x.route,x.latencyNs,x.status,x.protocol,x.wireNs⟩

/-- Where `record_exchange` ends. -/
inductive Exit
  | disabled | notSampled | full
  | queued (span : SpanRec)

namespace ExportHub

def start (enabled : Bool) (sampleN : UInt64) (cap : ℕ) (profile : Option ProfileStore) :
    ExportHub where
  registry := .new
  spans := .new cap
  handshake := .default
  sampleN := sampleN
  httpTotal := 0
  httpErrors := 0
  tracesSampled := 0
  tracesNotSampled := 0
  tracesDropped := 0
  enabled := enabled
  profile := profile
  profileJoinHits := 0
  profileJoinMiss := 0

def noteHandshake (h : ExportHub) (tgid : UInt32) (fd : Int32) (latencyNs : ℕ) (tsNs : UInt64)
    (now : Instant) : ExportHub :=
  {h with
    registry := h.registry.recordHandshake latencyNs
    handshake := h.handshake.note tgid fd latencyNs tsNs now}

def evictHandshake (h : ExportHub) (now : Instant) (stillOpen : UInt32 → Int32 → Bool) :
    ExportHub := {h with handshake := (h.handshake.evictStale now).evictClosed stillOpen}

def tryProfileJoin (h : ExportHub) (tgid : UInt32) (tStartNs tEndNs latencyNs : ℕ) :
    ExportHub × Option (List String) :=
  match h.profile with
  | none => (h,none)
  | some store =>
    let q := store.join tgid tStartNs tEndNs
    match q.2 with
    | some frames =>
      ({h with profile := some q.1, profileJoinHits := h.profileJoinHits + 1},some frames)
    | none =>
      ({h with
        profile := some q.1
        profileJoinMiss := if latencyNs ≥ store.config.minLatencyNs then h.profileJoinMiss + 1
          else h.profileJoinMiss},none)

def countExchange (h : ExportHub) (x : ExchangeArgs) : ExportHub :=
  {h with
    httpTotal := h.httpTotal + 1
    httpErrors := h.httpErrors + (serverError x.status).toNat
    registry := h.registry.record x.obs}

/-- The part of `record_exchange` behind the join with the stack samples. -/
def traceExchange (h : ExportHub) (x : ExchangeArgs) (profileFrames : Option (List String)) :
    ExportHub × Exit :=
  let m := x.traceMeta
  if !h.enabled then (h,.disabled)
  else if !sampled h.sampleN m then
    ({h with
      tracesNotSampled := h.tracesNotSampled + 1
      registry := {h.registry with tracesNotSampled := h.registry.tracesNotSampled + 1}},.notSampled)
  else
    let peeked := h.handshake.peekPreceding m.tgid m.fd m.tStartNs x.now
    let span := buildSpan m x.src x.dst.label x.method x.route x.protocol x.status x.latencyNs
      x.wireNs peeked.2 profileFrames x.endUnixNs
    let pushed := h.spans.push span
    if pushed.2 then
      ({h with
        spans := pushed.1
        handshake := if peeked.2.isSome then peeked.1.consume m.tgid m.fd else peeked.1
        tracesSampled := h.tracesSampled + 1
        registry := {h.registry with tracesSampled := h.registry.tracesSampled + 1}},.queued span)
    else
      ({h with
        spans := pushed.1
        handshake := peeked.1
        tracesDropped := h.tracesDropped + 1
        registry := {h.registry with tracesDropped := h.registry.tracesDropped + 1}},.full)

def recordExchange (h : ExportHub) (x : ExchangeArgs) : ExportHub × Exit :=
  let m := x.traceMeta
  let tEndNs := min (m.tStartNs.toNat + x.latencyNs) (2^64 - 1)
  let joined := (h.countExchange x).tryProfileJoin m.tgid m.tStartNs.toNat tEndNs x.latencyNs
  joined.1.traceExchange x joined.2

def drain (h : ExportHub) : ExportHub × List SpanRec :=
  ({h with spans := h.spans.takeAll.1},h.spans.takeAll.2)

end ExportHub

namespace ExportHub

section Record

variable (h : ExportHub) (x : ExchangeArgs)

/-- The exchange is counted and nothing else is done but for the stack samples. -/
structure Counted (b : ExportHub) : Prop where
  registry : b.registry = h.registry.record x.obs
  spans : b.spans = h.spans
  handshake : b.handshake = h.handshake
  sampleN : b.sampleN = h.sampleN
  httpTotal : b.httpTotal = h.httpTotal + 1
  httpErrors : b.httpErrors = h.httpErrors + (serverError x.status).toNat
  tracesSampled : b.tracesSampled = h.tracesSampled
  tracesNotSampled : b.tracesNotSampled = h.tracesNotSampled
  tracesDropped : b.tracesDropped = h.tracesDropped
  enabled : b.enabled = h.enabled

theorem tryProfileJoin_counted (tStartNs tEndNs : ℕ) :
    h.Counted x
      ((h.countExchange x).tryProfileJoin x.traceMeta.tgid tStartNs tEndNs x.latencyNs).1 := by
  rw [tryProfileJoin]
  split
  · constructor <;> rfl
  · dsimp only
    split <;> constructor <;> rfl

def peeked : HandshakeIndex × Option ℕ :=
  h.handshake.peekPreceding x.traceMeta.tgid x.traceMeta.fd x.traceMeta.tStartNs x.now

def span (profileFrames : Option (List String)) : SpanRec :=
  buildSpan x.traceMeta x.src x.dst.label x.method x.route x.protocol x.status x.latencyNs x.wireNs
    (h.peeked x).2 profileFrames x.endUnixNs

/-- What `record_exchange` can do. -/
inductive Records : ExportHub × Exit → Prop
  | disabled {b : ExportHub} : h.Counted x b → h.enabled = false → Records (b,.disabled)
  | notSampled {b : ExportHub} : h.Counted x b → h.enabled = true →
      sampled h.sampleN x.traceMeta = false →
      Records ({b with
        tracesNotSampled := b.tracesNotSampled + 1
        registry := {b.registry with tracesNotSampled := b.registry.tracesNotSampled + 1}},
        .notSampled)
  | full {b : ExportHub} : h.Counted x b → h.enabled = true →
      sampled h.sampleN x.traceMeta = true → h.spans.q.length ≥ h.spans.cap →
      Records ({b with
        spans := {b.spans with dropped := b.spans.dropped + 1}
        handshake := (h.peeked x).1
        tracesDropped := b.tracesDropped + 1
        registry := {b.registry with tracesDropped := b.registry.tracesDropped + 1}},.full)
  | queued {b : ExportHub} {spans : SpanQueue} {frames : Option (List String)} : h.Counted x b →
      h.enabled = true → sampled h.sampleN x.traceMeta = true → h.spans.q.length < h.spans.cap →
      spans.q = h.spans.q ++ [h.span x frames] → spans.cap = h.spans.cap →
      Records ({b with
        spans := spans
        handshake := if (h.peeked x).2.isSome then
          (h.peeked x).1.consume x.traceMeta.tgid x.traceMeta.fd else (h.peeked x).1
        tracesSampled := b.tracesSampled + 1
        registry := {b.registry with tracesSampled := b.registry.tracesSampled + 1}},
        .queued (h.span x frames))

theorem traceExchange_records {b : ExportHub} (hb : h.Counted x b) (frames : Option (List String)) :
    h.Records x (b.traceExchange x frames) := by
  have hpeeked : b.handshake.peekPreceding x.traceMeta.tgid x.traceMeta.fd x.traceMeta.tStartNs
      x.now = h.peeked x := by rw [hb.handshake,peeked]
  have hspan : buildSpan x.traceMeta x.src x.dst.label x.method x.route x.protocol x.status
      x.latencyNs x.wireNs (h.peeked x).2 frames x.endUnixNs = h.span x frames := rfl
  simp only [traceExchange,hpeeked,hspan]
  by_cases henabled : b.enabled = true
  · rw [if_neg (by simp [henabled])]
    have henabled' : h.enabled = true := hb.enabled.symm.trans henabled
    by_cases hsampled : sampled b.sampleN x.traceMeta = true
    · rw [if_neg (by simp [hsampled])]
      have hsampled' : sampled h.sampleN x.traceMeta = true := hb.sampleN ▸ hsampled
      by_cases hfull : b.spans.q.length ≥ b.spans.cap
      · rw [SpanQueue.push_full hfull]
        exact .full hb henabled' hsampled' (hb.spans ▸ hfull)
      · obtain ⟨hq,hcap,hpushed⟩ := SpanQueue.push_room hfull (h.span x frames)
        rw [if_pos hpushed]
        exact .queued hb henabled' hsampled' (hb.spans ▸ Nat.lt_of_not_le hfull)
          (by rw [hq,hb.spans]) (by rw [hcap,hb.spans])
    · rw [if_pos (by simpa using hsampled)]
      exact .notSampled hb henabled' (by simpa [hb.sampleN] using hsampled)
  · rw [if_pos (by simpa using henabled)]
    exact .disabled hb (by simpa [hb.enabled] using henabled)

theorem recordExchange_records : h.Records x (h.recordExchange x) :=
  h.traceExchange_records x (h.tryProfileJoin_counted x _ _) _

end Record

end ExportHub

end ObsAgent
