import ObsAgent.Handshakes
import ObsAgent.OtlpMetrics

/-! The export task beside the agent's event loop.  Every ten seconds the task copies the registry,
takes the queue of spans and posts both; the loop goes on between any two of its steps. -/
namespace ObsAgent

open JsonText

structure OtlpEnv where
  endpoint : Option String
  tracesEndpoint : Option String
  otlp : Bool

def metricsPath : String := "/v1/metrics"

def tracesPath : String := "/v1/traces"

/-- The path behind the base, unless it is there. -/
def normalizeUrl (path base : String) : String :=
  let base := base.toList.rdropWhile (· = '/')
  String.ofList (if path.toList <:+ base then base else base ++ path.toList)

def normalizeMetricsUrl (base : String) : String := normalizeUrl metricsPath base

def normalizeTracesUrl (base : String) : String := normalizeUrl tracesPath base

/-- `replacen` once. -/
def replaceFirst (old new : List Char) : List Char → List Char
  | [] => []
  | c :: cs => if old <+: c :: cs then new ++ (c :: cs).drop old.length
    else c :: replaceFirst old new cs

namespace OtlpEnv

def metricsUrl (env : OtlpEnv) : Option String :=
  match env.endpoint.filter (· ≠ "") with
  | some ep => some (normalizeMetricsUrl ep)
  | none => if env.otlp then some (normalizeMetricsUrl "http://127.0.0.1:4318") else none

def tracesUrl (env : OtlpEnv) : Option String :=
  match env.tracesEndpoint.filter (· ≠ "") with
  | some ep => some (normalizeTracesUrl ep)
  | none => env.metricsUrl.map fun m =>
    String.ofList (replaceFirst metricsPath.toList tracesPath.toList m.toList)

def wantOtlp (env : OtlpEnv) : Bool := env.metricsUrl.isSome || env.tracesUrl.isSome

theorem tracesUrl_of_wantOtlp {env : OtlpEnv} (h : env.wantOtlp = true) :
    ∃ url, env.tracesUrl = some url := by
  rw [wantOtlp,Bool.or_eq_true] at h
  rcases h with h | h
  · obtain ⟨m,hm⟩ := Option.isSome_iff_exists.mp h
    rw [tracesUrl,hm]
    cases env.tracesEndpoint.filter (· ≠ "") with
    | none => exact ⟨_,rfl⟩
    | some ep => exact ⟨_,rfl⟩
  · exact Option.isSome_iff_exists.mp h

end OtlpEnv

inductive ExportTask
  | ticking
  | copied (body : Option String)
  | holding (body : Option String) (batch : List SpanRec)
  | sending (batch : List SpanRec)

structure Gauges where
  eventsDropped : ℕ
  edgeCount : ℕ
  tlsUnmapped : ℕ
  sampleN : ℕ

structure Exporter where
  hub : ExportHub
  startUnixNano : ℕ
  gauges : Gauges
  otlpDropped : ℕ
  otlpFlushesOk : ℕ
  registryExportFailed : ℕ
  exported : ℕ
  dropped : ℕ
  tracesExportFailed : ℕ
  task : ExportTask

structure Post where
  url : String
  body : String
  ok : Bool
  batch : Option (List SpanRec)

inductive ExportEvent
  | hub (e : HubEvent)
  | posted (p : Post)

/-- One step of either side. -/
inductive ExportStep
  | agent (op : HubOp) (h : op ≠ .drain)
  | gauge (g : Gauges)
  | copy (unixNano : ℕ)
  | take
  | answer (ok : Bool)

namespace Exporter

def start (sampleN : UInt64) (profile : Option ProfileStore) (startUnixNano : ℕ) : Exporter where
  hub := .start true sampleN spanQueueCap profile
  startUnixNano := startUnixNano
  gauges := ⟨0,0,0,1⟩
  otlpDropped := 0
  otlpFlushesOk := 0
  registryExportFailed := 0
  exported := 0
  dropped := 0
  tracesExportFailed := 0
  task := .ticking

def registry (e : Exporter) : MetricsSnapshot where
  toMetricsRegistry := e.hub.registry
  startUnixNano := e.startUnixNano
  eventsDropped := e.gauges.eventsDropped
  otlpDropped := e.otlpDropped
  edgeCount := e.gauges.edgeCount
  tlsUnmapped := e.gauges.tlsUnmapped
  tracesExportFailed := e.registryExportFailed
  sampleN := e.gauges.sampleN

def hasOtlpPayload (g : MetricsSnapshot) : Bool :=
  g.series.total SeriesStats.count > 0 || g.eventsDropped > 0 || g.tlsUnmapped > 0 ||
    g.tracesSampled > 0 || g.tracesNotSampled > 0 || g.tracesDropped > 0 ||
    g.tracesExportFailed > 0 || g.handshake.count > 0 || g.wire.len > 0

/-- `post_otlp` behind the answer; `n` are the traces of the request. -/
def settle (e : Exporter) (ok : Bool) (n : Option ℕ) : Exporter :=
  if ok then {e with exported := e.exported + 1, otlpFlushesOk := e.otlpFlushesOk + 1}
  else {e with
    dropped := e.dropped + 1
    otlpDropped := e.otlpDropped + 1
    registryExportFailed := e.registryExportFailed + n.getD 0
    tracesExportFailed := e.tracesExportFailed + n.getD 0}

variable (env : OtlpEnv) (jsonStr : String → String) (f64 : Float → NumberToken)

/-- The task moves on only where it stands. -/
def step (e : Exporter) : ExportStep → Exporter × List ExportEvent
  | .agent op _ =>
    let q := e.hub.step op
    ({e with hub := q.1},q.2.map .hub)
  | .gauge g => ({e with gauges := g},[])
  | .copy unixNano =>
    match e.task with
    | .ticking =>
      let body := if env.metricsUrl.isSome && hasOtlpPayload e.registry then
        some (e.registry.toOtlpJson jsonStr f64 unixNano) else none
      ({e with task := .copied body},[])
    | _ => (e,[])
  | .take =>
    match e.task with
    | .copied body =>
      let q := e.hub.step .drain
      ({e with hub := q.1, task := .holding body e.hub.drain.2},q.2.map .hub)
    | _ => (e,[])
  | .answer ok =>
    match e.task with
    | .holding body batch =>
      let e := {e with task := .sending batch}
      match env.metricsUrl,body with
      | some url,some body => (e.settle ok none,[.posted ⟨url,body,ok,none⟩])
      | _,_ => (e,[])
    | .sending batch =>
      let e := {e with task := .ticking}
      match env.tracesUrl with
      | some url =>
        if batch = [] then (e,[])
        else (e.settle ok (some batch.length),
          [.posted ⟨url,toOtlpTracesJson jsonStr batch,ok,some batch⟩])
      | none => (e,[])
    | _ => (e,[])

end Exporter

def ExportTask.held : ExportTask → List SpanRec
  | .holding _ batch => batch
  | .sending batch => batch
  | _ => []

namespace ExportEvent

def hubEvent : ExportEvent → Option HubEvent
  | .hub e => some e
  | .posted _ => none

def post : ExportEvent → Option Post
  | .hub _ => none
  | .posted p => some p

end ExportEvent

def queuedSpans (log : List ExportEvent) : List SpanRec :=
  (log.filterMap ExportEvent.hubEvent).filterMap HubEvent.queuedSpan

def posts (log : List ExportEvent) : List Post := log.filterMap ExportEvent.post

theorem hubEvents_hub (log : List ExportEvent) (es : List HubEvent) :
    (log ++ es.map ExportEvent.hub).filterMap ExportEvent.hubEvent =
      log.filterMap ExportEvent.hubEvent ++ es := by
  rw [List.filterMap_append,List.filterMap_map]
  exact congrArg _ List.filterMap_some

theorem posts_hub (log : List ExportEvent) (es : List HubEvent) :
    posts (log ++ es.map ExportEvent.hub) = posts log := by
  have hnone : (es.map ExportEvent.hub).filterMap ExportEvent.post = [] := by
    rw [List.filterMap_map]
    exact List.filterMap_eq_nil_iff.mpr fun _ _ => rfl
  rw [posts,List.filterMap_append,hnone,List.append_nil,posts]

/-- The exporter against all that went on so far. -/
structure Exporter.Settled (env : OtlpEnv) (jsonStr : String → String) (e : Exporter)
    (log : List ExportEvent) : Prop where
  hub : e.hub.Accounted spanQueueCap (log.filterMap ExportEvent.hubEvent)
  batches : (log.filterMap ExportEvent.hubEvent).flatMap HubEvent.drainedSpans =
    ((posts log).filterMap Post.batch).flatten ++ e.task.held
  bodies : ∀ p ∈ posts log, ∀ batch, p.batch = some batch →
    env.tracesUrl = some p.url ∧ p.body = toOtlpTracesJson jsonStr batch
  exported : e.exported = (posts log).countP Post.ok
  dropped : e.dropped = (posts log).countP fun p => !p.ok
  failed : e.tracesExportFailed =
    (((posts log).filter fun p => !p.ok).filterMap Post.batch).flatten.length
  copies : e.otlpFlushesOk = e.exported ∧ e.otlpDropped = e.dropped ∧
    e.registryExportFailed = e.tracesExportFailed

namespace Exporter

section

variable {env : OtlpEnv} {jsonStr : String → String} {e : Exporter} {log : List ExportEvent}

theorem settled_start (sampleN : UInt64) (profile : Option ProfileStore) (startUnixNano : ℕ) :
    (start sampleN profile startUnixNano).Settled env jsonStr [] where
  hub := ExportHub.accounted_start sampleN spanQueueCap profile
  batches := rfl
  bodies p hp := by cases hp
  exported := rfl
  dropped := rfl
  failed := rfl
  copies := ⟨rfl,rfl,rfl⟩

theorem Settled.move (h : e.Settled env jsonStr log) {task : ExportTask}
    (hheld : task.held = e.task.held) :
    Settled env jsonStr {e with task := task} log :=
  {h with batches := by rw [h.batches,hheld]}

/-- Hub events that take spans out of the queue hand them to the task. -/
theorem Settled.hubStep (h : e.Settled env jsonStr log) (op : HubOp) {task : ExportTask}
    (hheld : task.held = e.task.held ++ (e.hub.step op).2.flatMap HubEvent.drainedSpans) :
    Settled env jsonStr {e with hub := (e.hub.step op).1, task := task}
      (log ++ (e.hub.step op).2.map ExportEvent.hub) where
  hub := by
    rw [hubEvents_hub]
    exact h.hub.step op
  batches := by
    rw [hubEvents_hub,posts_hub,List.flatMap_append,h.batches,hheld,List.append_assoc]
  bodies := by
    rw [posts_hub]
    exact h.bodies
  exported := by
    rw [posts_hub]
    exact h.exported
  dropped := by
    rw [posts_hub]
    exact h.dropped
  failed := by
    rw [posts_hub]
    exact h.failed
  copies := h.copies

theorem Settled.post (h : e.Settled env jsonStr log) {task : ExportTask} (p : Post)
    (hheld : e.task.held = p.batch.getD [] ++ task.held)
    (hbody : ∀ batch, p.batch = some batch →
      env.tracesUrl = some p.url ∧ p.body = toOtlpTracesJson jsonStr batch) :
    Settled env jsonStr ({e with task := task}.settle p.ok (p.batch.map List.length))
      (log ++ [.posted p]) := by
  have hevents : (log ++ [ExportEvent.posted p]).filterMap ExportEvent.hubEvent =
      log.filterMap ExportEvent.hubEvent := by simp [ExportEvent.hubEvent]
  have hposts : posts (log ++ [.posted p]) = posts log ++ [p] := by
    simp [posts,ExportEvent.post]
  have hflat : ([p].filterMap Post.batch).flatten = p.batch.getD [] := by
    cases hbatch : p.batch <;> simp [hbatch]
  have hbatches : ((posts log ++ [p]).filterMap Post.batch).flatten ++ task.held =
      ((posts log).filterMap Post.batch).flatten ++ e.task.held := by
    rw [List.filterMap_append,List.flatten_append,hflat,hheld,List.append_assoc]
  have hbodies : ∀ p' ∈ posts log ++ [p], ∀ batch, p'.batch = some batch →
      env.tracesUrl = some p'.url ∧ p'.body = toOtlpTracesJson jsonStr batch := by
    intro p' hp'
    rcases List.mem_append.mp hp' with hp' | hp'
    · exact h.bodies p' hp'
    · rw [List.mem_singleton.mp hp']
      exact hbody
  obtain ⟨hok,hdropped,hfailed⟩ := h.copies
  cases hanswer : p.ok with
  | true =>
    simp only [settle,if_true]
    refine ⟨by rw [hevents]; exact h.hub,by rw [hevents,hposts,hbatches]; exact h.batches,
      by rw [hposts]; exact hbodies,?_,?_,?_,⟨by simp [hok],by simp [hdropped],by simp [hfailed]⟩⟩
    · simp [hposts,List.countP_append,hanswer,h.exported]
    · simp [hposts,List.countP_append,hanswer,h.dropped]
    · simp [hposts,List.filter_append,hanswer,h.failed]
  | false =>
    simp only [settle,Bool.false_eq_true,if_false]
    refine ⟨by rw [hevents]; exact h.hub,by rw [hevents,hposts,hbatches]; exact h.batches,
      by rw [hposts]; exact hbodies,?_,?_,?_,⟨by simp [hok],by simp [hdropped],by simp [hfailed]⟩⟩
    · simp [hposts,List.countP_append,hanswer,h.exported]
    · simp [hposts,List.countP_append,hanswer,h.dropped]
    · have hlen : (p.batch.map List.length).getD 0 = (p.batch.getD []).length := by
        cases p.batch <;> rfl
      have hlast : [p].filter (fun p => !p.ok) = [p] := by simp [hanswer]
      rw [hposts,List.filter_append,hlast,List.filterMap_append,List.flatten_append,hflat,
        List.length_append,← h.failed,← hlen]

theorem drainedSpans_of_ne_drain (hub : ExportHub) {op : HubOp} (h : op ≠ .drain) :
    (hub.step op).2.flatMap HubEvent.drainedSpans = [] := by
  cases op with
  | note tgid fd latencyNs tsNs now =>
    rw [ExportHub.step]
    split_ifs <;> rfl
  | evict now stillOpen => rfl
  | record x =>
    rw [ExportHub.step]
    cases (hub.recordExchange x).2 <;> rfl
  | drain => exact absurd rfl h

theorem Settled.step (h : e.Settled env jsonStr log) (hurl : ∃ url, env.tracesUrl = some url)
    (f64 : Float → NumberToken) (s : ExportStep) :
    (e.step env jsonStr f64 s).1.Settled env jsonStr (log ++ (e.step env jsonStr f64 s).2) := by
  obtain ⟨url,hurl⟩ := hurl
  cases s with
  | agent op hop =>
    refine h.hubStep op ?_
    rw [drainedSpans_of_ne_drain e.hub hop,List.append_nil]
  | gauge g =>
    rw [Exporter.step,List.append_nil]
    exact {h with}
  | copy unixNano =>
    cases htask : e.task with
    | ticking =>
      simp only [Exporter.step,htask,List.append_nil]
      exact h.move (by rw [htask]; rfl)
    | _ => simpa only [Exporter.step,htask,List.append_nil] using h
  | take =>
    cases htask : e.task with
    | copied body =>
      simp only [Exporter.step,htask]
      refine h.hubStep .drain ?_
      rw [htask]
      exact (List.append_nil _).symm
    | _ => simpa only [Exporter.step,htask,List.append_nil] using h
  | answer ok =>
    cases htask : e.task with
    | holding body batch =>
      simp only [Exporter.step,htask]
      split
      · next url body _ =>
        exact h.post ⟨url,body,ok,none⟩ (by rw [htask]; rfl) nofun
      · rw [List.append_nil]
        exact h.move (by rw [htask]; rfl)
    | sending batch =>
      simp only [Exporter.step,htask,hurl]
      split_ifs with hempty
      · rw [List.append_nil]
        exact h.move (by rw [htask,hempty]; rfl)
      · refine h.post ⟨url,toOtlpTracesJson jsonStr batch,ok,some batch⟩ ?_ fun b hb => ?_
        · rw [htask]
          exact (List.append_nil _).symm
        · obtain rfl := Option.some_inj.mp hb
          exact ⟨hurl,rfl⟩
    | _ => simpa only [Exporter.step,htask,List.append_nil] using h

end

end Exporter

theorem length_batches_split (ps : List Post) :
    (ps.filterMap Post.batch).flatten.length =
      ((ps.filter Post.ok).filterMap Post.batch).flatten.length +
        ((ps.filter fun p => !p.ok).filterMap Post.batch).flatten.length := by
  induction ps with
  | nil => rfl
  | cons p ps ih =>
    cases hok : p.ok <;> cases hbatch : p.batch <;> simp [hok,hbatch,ih] <;> omega

/-- Whatever the order of the two sides' steps: the spans that were queued are, in their order, those
of the trace requests, those that the task holds and those that still wait.  Every trace request
reads back as the document of its batch, and the counters say what became of all of them. -/
theorem spans_posted_once (env : OtlpEnv) (hwant : env.wantOtlp = true)
    (jsonStr : String → String) (hjson : ReadsBack jsonStr) (f64 : Float → NumberToken)
    (sampleN : UInt64) (profile : Option ProfileStore) (startUnixNano : ℕ)
    (steps : List ExportStep) :
    let start := Exporter.start sampleN profile startUnixNano
    let e := Machine.final (Exporter.step env jsonStr f64) start steps
    let log := Machine.outputs (Exporter.step env jsonStr f64) start steps
    let batchesOf := fun ps : List Post => (ps.filterMap Post.batch).flatten
    batchesOf (posts log) ++ e.task.held ++ e.hub.spans.q = queuedSpans log ∧
      (∀ p ∈ posts log, ∀ batch, p.batch = some batch →
        env.tracesUrl = some p.url ∧ parse p.body.toList = some (tracesTree batch)) ∧
      e.hub.tracesSampled = (batchesOf ((posts log).filter Post.ok)).length + e.tracesExportFailed +
        e.task.held.length + e.hub.spans.q.length ∧
      e.tracesExportFailed = (batchesOf ((posts log).filter fun p => !p.ok)).length ∧
      e.exported = (posts log).countP Post.ok ∧ e.dropped = (posts log).countP (fun p => !p.ok) ∧
      e.otlpFlushesOk = e.exported ∧ e.otlpDropped = e.dropped ∧
        e.registryExportFailed = e.tracesExportFailed := by
  intro start e log batchesOf
  have hurl := OtlpEnv.tracesUrl_of_wantOtlp hwant
  have h : e.Settled env jsonStr log :=
    Machine.final_log (Exporter.step env jsonStr f64) (I := Exporter.Settled env jsonStr)
      (fun s h => h.step hurl f64 s) (Exporter.settled_start sampleN profile startUnixNano) steps
  have hspans : batchesOf (posts log) ++ e.task.held ++ e.hub.spans.q = queuedSpans log := by
    rw [← h.batches]
    exact h.hub.spans
  refine ⟨hspans,fun p hp batch hbatch => ?_,?_,h.failed,h.exported,h.dropped,h.copies⟩
  · obtain ⟨hto,hbody⟩ := h.bodies p hp batch hbatch
    rw [hbody]
    exact ⟨hto,parse_of_isText (toOtlpTracesJson_textOf hjson batch)⟩
  · have hqueued : e.hub.tracesSampled = (queuedSpans log).length := h.hub.queued
    have hsplit : (batchesOf (posts log)).length = (batchesOf ((posts log).filter Post.ok)).length +
      (batchesOf ((posts log).filter fun p => !p.ok)).length := length_batches_split _
    rw [hqueued,← hspans,h.failed,List.length_append,List.length_append,hsplit]

def refusedExport : List ExportStep :=
  let x : ExchangeArgs := ⟨"a",.unknown,"GET","/",1,200,"http",none,⟨42,3,0,7,true⟩,0,9⟩
  [.agent (.record x) nofun,.copy 5,.take,.answer true,.answer false,.agent (.record x) nofun]

theorem spans_posted_once_refused :
    let e := Machine.final (Exporter.step ⟨none,none,true⟩ (fun s => String.ofList (quote s.toList))
      fun _ => ⟨['0'],by decide⟩) (Exporter.start 1 none 0) refusedExport
    e.hub.tracesSampled = 2 ∧ e.tracesExportFailed = 1 ∧ e.hub.spans.q.length = 1 := by
  intro e
  have h := spans_posted_once ⟨none,none,true⟩ rfl _ readsBack_quote (fun _ => ⟨['0'],by decide⟩) 1
    none 0 refusedExport
  exact ⟨h.2.2.1.trans (by decide +kernel),by decide +kernel,by decide +kernel⟩

end ObsAgent
