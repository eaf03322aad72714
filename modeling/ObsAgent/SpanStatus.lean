import ObsAgent.Publish
import ObsAgent.PushEffect
import ObsAgent.Registry

/-! When the status of an exported span agrees with the count of errors.  The registry calls every
exchange with a status of 500 or more an error.  The exporter does so too, except for spans labelled
as gRPC, whose number it reads as a gRPC code; what the label stands for is only the shape of the
path, and the number is still the HTTP status. -/
namespace ObsAgent

open H2 Http1

namespace H2

def Labelled (x : H2Exchange) : Prop := x.protocol = classifyProtocol x.path

theorem pairBlock_labelled (streams : Streams) (dir : IoDir) (sid : ℕ) (decoded : Hpack.Pseudo)
    (ts : ℕ) : ∀ x ∈ (pairBlock streams dir sid decoded ts).2.out, Labelled x := by
  simp only [pairBlock]
  repeat' split
  all_goals simp [Labelled]

theorem Moves.labelled {dir : IoDir} {ts : ℕ} {c c' : H2Conn} {e : Emitted}
    (h : Moves dir ts c c' e) : ∀ x ∈ e.out, Labelled x := by
  induction h with
  | pipe => simp [Emitted.counted]
  | reset => simp
  | block c decoded => exact pairBlock_labelled c.streams dir _ decoded ts
  | trans _ _ ih ih' =>
    intro x hx
    rcases List.mem_append.mp hx with hx | hx
    · exact ih x hx
    · exact ih' x hx

theorem feedConn_labelled (r : H2Registry) (key : ConnKey) (conn : H2Conn) (dir : IoDir)
    (ev : SockIoEvent) (now : Instant) (clientOnly : Bool) :
    ∀ x ∈ (r.feedConn key conn dir ev now clientOnly).2.out, Labelled x := by
  have hnamed : ∀ x ∈ (pushBytes {conn with atTime := now} dir ev.chunk ev.tsNs).2.out.map
      fun x => {x with tgid := ev.tgid, fd := ev.fd, cgroupId := ev.cgroupId}, Labelled x := by
    intro x hx
    obtain ⟨y,hy,rfl⟩ := List.mem_map.mp hx
    exact (pushBytes_moves _ _).labelled y hy
  intro x hx
  simp only [H2Registry.feedConn] at hx
  split_ifs at hx
  · exact hnamed x (List.mem_filter.mp hx).1
  · exact hnamed x hx

theorem step_labelled (r : H2Registry) (op : RegOp) : ∀ x ∈ (r.step op).2.out, Labelled x := by
  cases op with
  | feed ev now clientOnly =>
    rw [H2Registry.step]
    have hfed := r.feed_fed ev now clientOnly
    generalize r.feed ev now clientOnly = q at hfed ⊢
    cases hfed with
    | known => exact feedConn_labelled _ _ _ _ _ _ _
    | @opened r' dir q _ _ _ hq =>
      have hout := feedConn_labelled {r' with conns := r'.conns.put ⟨ev.tgid,ev.fd⟩ (.new now)}
        ⟨ev.tgid,ev.fd⟩ (.new now) dir ev now clientOnly
      rwa [hq] at hout
    | _ => simp [Reply.nothing]
  | _ => simp [H2Registry.step,Reply.nothing]

theorem exchanges_labelled (r : H2Registry) (ops : List RegOp) :
    ∀ x ∈ r.exchanges ops, Labelled x := by
  induction ops generalizing r with
  | nil => simp [H2Registry.exchanges,H2Registry.run]
  | cons op ops ih =>
    intro x hx
    rw [H2Registry.exchanges_cons,List.mem_append] at hx
    rcases hx with hx | hx
    · exact step_labelled r op x hx
    · exact ih _ x hx

end H2

theorem spanOtelStatus_eq_error {protocol : String} {status : ℕ} :
    spanOtelStatus protocol status = .error ↔
      if protocol = "grpc" then status ≠ 0 else 500 ≤ status := by
  rw [spanOtelStatus]
  split_ifs <;> simp_all

def MetricsRegistry.errors (g : MetricsRegistry) : ℕ := g.series.total SeriesStats.errors

theorem ExportHub.Records.queued_span {h : ExportHub} {x : ExchangeArgs} {q : ExportHub × Exit}
    (hrec : h.Records x q) {span : SpanRec} (hq : q.2 = .queued span) :
    span.status = spanOtelStatus (protocolAttr x.protocol) x.status ∧
      q.1.registry.errors = h.registry.errors + (serverError x.status).toNat := by
  cases hrec with
  | queued hb =>
    obtain rfl := Exit.queued.inj hq
    refine ⟨rfl,?_⟩
    rw [MetricsRegistry.errors,MetricsRegistry.errors,hb.registry]
    exact errors_record h.registry x.obs
  | _ => cases hq

inductive Arrival
  | h2 (x : H2Exchange)
  | http1 (ex : Exchange) (fromTls : Bool)

namespace Arrival

/-- An HTTP/2 exchange comes out of a run of the registry. -/
def From (ops : List RegOp) : Arrival → Prop
  | .h2 x => x ∈ H2Registry.default.exchanges ops
  | .http1 .. => True

/-- The path has the shape of a gRPC method and the status is one of the HTTP codes below 500. -/
def HttpCodeOnGrpcPath : Arrival → Prop
  | .h2 x => classifyProtocol x.path = .grpc ∧ 0 < x.status ∧ x.status < 500
  | .http1 .. => False

end Arrival

def Sinks.handle (s : Sinks) (env : Env) (now : Instant) : Arrival → Sinks × Option Exit
  | .h2 x => s.handleH2Exchange env x now
  | .http1 ex fromTls => s.handleExchange env ex now fromTls

theorem publishParsed_queued {s : Sinks} {env : Env} {c : PublishArgs} {span : SpanRec}
    (h : (s.publishParsed env c).2 = some (.queued span)) :
    (span.status = .error ↔
        if protocolAttr c.parsed.endpoint.protocol = "grpc" then c.parsed.status ≠ 0
        else 500 ≤ c.parsed.status) ∧
      ((s.publishParsed env c).1.hub.registry.errors = s.hub.registry.errors + 1 ↔
        500 ≤ c.parsed.status) := by
  rw [Sinks.publishParsed] at h ⊢
  by_cases hotlp : isOtlpExportRoute c.parsed.endpoint.method c.parsed.endpoint.path = true
  · simp [hotlp] at h
  · rw [if_neg hotlp] at h ⊢
    obtain ⟨hstatus,herrors⟩ := (s.hub.recordExchange_records (s.exchangeArgs env c)).queued_span
      (Option.some.inj h)
    refine ⟨hstatus ▸ spanOtelStatus_eq_error,?_⟩
    rw [herrors,Nat.add_left_cancel_iff,serverError,Bool.toNat_eq_one,decide_eq_true_iff]
    rfl

theorem parseExchange_protocol {httparse : HttpParse} {ex : Exchange} {parsed : ParsedExchange}
    (h : parseExchange httparse ex = some parsed) : parsed.endpoint.protocol = "http" := by
  rw [parseExchange] at h
  split at h
  · split at h
    · obtain rfl := Option.some.inj h
      rfl
    · cases h
  · cases h

theorem handleExchange_agrees {s : Sinks} {env : Env} {now : Instant} {ex : Exchange} {fromTls : Bool}
    {span : SpanRec} (h : (s.handleExchange env ex now fromTls).2 = some (.queued span)) :
    span.status = .error ↔
      (s.handleExchange env ex now fromTls).1.hub.registry.errors = s.hub.registry.errors + 1 := by
  rw [Sinks.handleExchange] at h ⊢
  cases hparse : parseExchange env.httparse ex with
  | none => simp [hparse] at h
  | some parsed =>
    simp only [hparse] at h ⊢
    obtain ⟨hstatus,herrors⟩ := publishParsed_queued h
    have hhttp := parseExchange_protocol hparse
    have hprotocol : ∀ peer,
        (Sinks.http1Args env ex now fromTls peer parsed).parsed.endpoint.protocol = "http" :=
      fun _ => hhttp
    rw [hstatus,herrors,hprotocol,if_neg (by decide)]

theorem handleH2Exchange_queued {s : Sinks} {env : Env} {now : Instant} {x : H2Exchange}
    {span : SpanRec} (h : (s.handleH2Exchange env x now).2 = some (.queued span)) :
    (span.status = .error ↔ if x.protocol = .grpc then x.status ≠ 0 else 500 ≤ x.status) ∧
      ((s.handleH2Exchange env x now).1.hub.registry.errors = s.hub.registry.errors + 1 ↔
        500 ≤ x.status) := by
  obtain ⟨hstatus,herrors⟩ := publishParsed_queued h
  have hgrpc : protocolAttr (Sinks.h2Args x now).parsed.endpoint.protocol = "grpc" ↔
      x.protocol = .grpc := by
    simp only [Sinks.h2Args]
    cases x.protocol <;> simp [HttpEndpoint.labeled,protocolAttr]
  simp only [hgrpc] at hstatus
  exact ⟨hstatus,herrors⟩

/-- The exported status is that of the registry if and only if the exporter does not take an HTTP
status for a gRPC code. -/
theorem span_errors_match_metrics (ops : List RegOp) (s : Sinks) (env : Env) (now : Instant)
    (a : Arrival) (hfrom : a.From ops) (span : SpanRec)
    (hspan : (s.handle env now a).2 = some (.queued span)) :
    (span.status = .error ↔
        (s.handle env now a).1.hub.registry.errors = s.hub.registry.errors + 1) ↔
      ¬ a.HttpCodeOnGrpcPath := by
  cases a with
  | http1 ex fromTls => exact iff_of_true (handleExchange_agrees hspan) id
  | h2 x =>
    have hlabel : x.protocol = classifyProtocol x.path := exchanges_labelled _ ops x hfrom
    obtain ⟨hstatus,herrors⟩ := handleH2Exchange_queued hspan
    simp only [Sinks.handle,hstatus,herrors,Arrival.HttpCodeOnGrpcPath,← hlabel]
    by_cases hgrpc : x.protocol = .grpc
    · simp only [hgrpc,if_true,true_and]
      omega
    · simp [hgrpc]

def grpcCall (status : UInt8) : List RegOp :=
  [.feed (someSocket.moved .write (clientPreface ++
      [0,0,9,1,4,0,0,0,1,0x83,0x04,6,0x2f,0x61,0x2e,0x42,0x2f,0x43]) 1) 0 false,
    .feed (someSocket.moved .read [0,0,1,1,4,0,0,0,1,status] 2) 0 false]

/-- Nothing is known of the sockets, the pods and the processes. -/
def Env.bare : Env where
  sockMeta := ∅
  pods := ⟨∅,∅,∅⟩
  cgroups := ⟨∅⟩
  uncached tgid := ⟨"unknown",tgid,"unknown",none,none⟩
  ipv6 _ := ""
  httparse := ⟨fun _ => none,fun _ => none⟩
  wireNs := none
  unixNs := 0

/-- The agent as it comes up with an exporter that samples everything. -/
def freshSinks : Sinks := .start (.start true 1 spanQueueCap none)

def Exit.status : Exit → Option OtelStatus
  | .queued span => some span.status
  | _ => none

theorem span_errors_match_metrics_failed_call :
    ∃ x ∈ H2Registry.default.exchanges (grpcCall 0x8e), ∃ span,
      (freshSinks.handle .bare 0 (.h2 x)).2 = some (.queued span) ∧
        (span.status = .error ↔ (freshSinks.handle .bare 0 (.h2 x)).1.hub.registry.errors =
          freshSinks.hub.registry.errors + 1) := by
  have hcall : (H2Registry.default.exchanges (grpcCall 0x8e)).map (fun x =>
      (x.status,(freshSinks.handle .bare 0 (.h2 x)).2.bind Exit.status)) = [(500,some .error)] := by
    decide +kernel
  obtain ⟨x,hx,hout⟩ := List.map_eq_singleton_iff.mp hcall
  obtain ⟨hstatus,hexit⟩ := Prod.mk.inj hout
  obtain ⟨exit,hhandle,hqueued⟩ := Option.bind_eq_some_iff.mp hexit
  cases exit with
  | queued span =>
    have hmem : x ∈ H2Registry.default.exchanges (grpcCall 0x8e) := by simp [hx]
    refine ⟨x,hmem,span,hhandle,?_⟩
    refine (span_errors_match_metrics (grpcCall 0x8e) freshSinks .bare 0 (.h2 x) hmem span
      hhandle).mpr ?_
    rintro ⟨-,-,hlt⟩
    omega
  | _ => simp [Exit.status] at hqueued

/-- A call that succeeds with the status 200 is exported as an error and not counted as one. -/
theorem successful_grpc_call_exported_as_error :
    (H2Registry.default.exchanges (grpcCall 0x88)).map (fun x =>
      let q := freshSinks.handle .bare 0 (.h2 x)
      (x.path,x.status,q.2.bind Exit.status,q.1.hub.registry.errors)) =
        [("/a.B/C",200,some .error,freshSinks.hub.registry.errors)] := by
  decide +kernel

end ObsAgent
