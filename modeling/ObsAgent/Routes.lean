import ObsAgent.SpanStatus

/-! The route under which an exchange is recorded.  Both planes replace the numeric segments of the
path, but only the HTTP/1.1 one cuts the query off first. -/
namespace ObsAgent

open H2 Http1

theorem mem_splitOn_iff {α : Type*} [DecidableEq α] {x c : α} (xs : List α) :
    (∃ w ∈ xs.splitOn x, c ∈ w) ↔ c ∈ xs ∧ c ≠ x := by
  rw [List.splitOn_eq_splitOnP]
  induction xs with
  | nil => simp [List.splitOnP_nil]
  | cons y ys ih =>
    rw [List.splitOnP_cons_eq_if_modifyHead]
    split_ifs with hy
    · have hyx : y = x := by simpa using hy
      simp only [List.mem_cons,exists_eq_or_imp,List.not_mem_nil,false_or,ih,hyx]
      tauto
    · have hyx : y ≠ x := by simpa using hy
      obtain ⟨r,rs,hr⟩ := List.exists_cons_of_ne_nil (List.splitOnP_ne_nil (· == x) ys)
      rw [hr] at ih ⊢
      simp only [List.mem_cons,exists_eq_or_imp] at ih
      simp only [List.modifyHead_cons,List.mem_cons,exists_eq_or_imp,or_assoc]
      rw [ih]
      constructor
      · rintro (rfl | h)
        · exact ⟨Or.inl rfl,hyx⟩
        · exact ⟨Or.inr h.1,h.2⟩
      · rintro ⟨rfl | h,hc⟩
        · exact Or.inl rfl
        · exact Or.inr ⟨h,hc⟩

/-- What a segment of a path becomes in the route. -/
def routeSegment (seg : List Char) : List Char := if isNumericId seg then ":id".toList else seg

def segments (path : String) : List (List Char) := path.toList.splitOn '/'

theorem mem_routeSegment {c : Char} (hdigit : c.isDigit = false) (hid : c ∉ ":id".toList)
    (seg : List Char) : c ∈ routeSegment seg ↔ c ∈ seg := by
  rw [routeSegment]
  split_ifs with hnum
  · refine iff_of_false hid ?_
    intro hc
    simp only [isNumericId,Bool.and_eq_true,List.all_eq_true] at hnum
    simp [hnum.2 c hc] at hdigit
  · rfl

theorem routeSegment_eq_nil {seg : List Char} (h : routeSegment seg = []) : seg = [] := by
  rw [routeSegment] at h
  split_ifs at h
  · simp at h
  · exact h

theorem splitOn_route (path : String) :
    (['/'].intercalate ((segments path).map routeSegment)).splitOn '/' =
      (segments path).map routeSegment := by
  apply List.splitOn_intercalate
  · intro l hl
    obtain ⟨seg,hseg,rfl⟩ := List.mem_map.mp hl
    rw [mem_routeSegment (by decide) (by decide)]
    intro hc
    exact ((mem_splitOn_iff path.toList).mp ⟨seg,hseg,hc⟩).2 rfl
  · simp [segments]

theorem normalizePath_eq {path : String} (h : path ≠ "") :
    (normalizePath path).toList = ['/'].intercalate ((segments path).map routeSegment) := by
  have hjoined : String.ofList (['/'].intercalate ((segments path).map routeSegment)) ≠ "" := by
    intro hnil
    have hsplit := splitOn_route path
    rw [String.ofList_eq_empty_iff.mp hnil,List.splitOn_nil] at hsplit
    obtain ⟨seg,hseg,hlabel⟩ := List.map_eq_singleton_iff.mp hsplit.symm
    have hback : ['/'].intercalate (segments path) = path.toList := List.intercalate_splitOn '/'
    rw [hseg,routeSegment_eq_nil hlabel] at hback
    exact h (String.toList_eq_nil_iff.mp (by simpa using hback.symm))
  simp only [normalizePath,if_neg h]
  change (if String.ofList (['/'].intercalate ((segments path).map routeSegment)) = "" then "/" else
    String.ofList (['/'].intercalate ((segments path).map routeSegment))).toList = _
  rw [if_neg hjoined,String.toList_ofList]

theorem segments_normalizePath {path : String} (h : path ≠ "") :
    segments (normalizePath path) = (segments path).map routeSegment := by
  rw [segments,normalizePath_eq h,splitOn_route]

theorem query_mem_normalizePath {path : String} (h : path ≠ "") :
    '?' ∈ (normalizePath path).toList ↔ '?' ∈ path.toList := by
  have hroute := mem_splitOn_iff (x := '/') (c := '?') (normalizePath path).toList
  have hpath := mem_splitOn_iff (x := '/') (c := '?') path.toList
  have hsegs : (normalizePath path).toList.splitOn '/' = (segments path).map routeSegment :=
    segments_normalizePath h
  rw [hsegs] at hroute
  simp only [List.mem_map,exists_exists_and_eq_and,
    mem_routeSegment (c := '?') (by decide) (by decide)] at hroute
  have hne : '?' ≠ '/' := by decide
  simp only [segments,hpath,hne,ne_eq,not_false_eq_true,and_true] at hroute
  exact hroute.symm

/-- The records that the aggregator, the service map and the metrics registry take of one
exchange. -/
structure Recording where
  parsed : ParsedExchange
  mapRecord : MapRecord
  obs : HttpObs
  now : Instant

/-- The route in the key of the aggregator, in the record for the service map and in the key of the
registry. -/
def Recording.routes (r : Recording) : List String :=
  [r.parsed.endpoint.path,r.mapRecord.endpoint.path,r.obs.key.route]

namespace Sinks

/-- What publishing records, if it is not of the exporter's own traffic. -/
def publishRecording (s : Sinks) (env : Env) (c : PublishArgs) : Option Recording :=
  if isOtlpExportRoute c.parsed.endpoint.method c.parsed.endpoint.path then none
  else some ⟨c.parsed,s.mapRecord env c,(s.exchangeArgs env c).obs,c.now⟩

def recording (s : Sinks) (env : Env) (now : Instant) : Arrival → Option Recording
  | .h2 x => s.publishRecording env (h2Args x now)
  | .http1 ex fromTls => (parseExchange env.httparse ex).bind fun parsed =>
      let looked := s.findPeer env ex.tgid ex.fd now ex.peer
      publishRecording {s with peerCache := looked.1} env
        (http1Args env ex now fromTls looked.2 parsed)

/-- The three stores take these records, or nothing. -/
structure Takes (s q : Sinks) (r : Option Recording) : Prop where
  httpAgg : q.httpAgg = r.elim s.httpAgg fun r => s.httpAgg.record r.parsed r.now
  serviceMap : q.serviceMap = r.elim s.serviceMap fun r => s.serviceMap.record r.mapRecord r.now
  registry : q.hub.registry.series =
    r.elim s.hub.registry.series fun r => (s.hub.registry.record r.obs).series

theorem series_recordExchange (h : ExportHub) (x : ExchangeArgs) :
    (h.recordExchange x).1.registry.series = (h.registry.record x.obs).series := by
  have hrec := h.recordExchange_records x
  generalize h.recordExchange x = q at hrec ⊢
  cases hrec with
  | _ hb =>
    have hseries := congrArg MetricsRegistry.series hb.registry
    exact hseries

theorem publishParsed_takes (s : Sinks) (env : Env) (c : PublishArgs) :
    s.Takes (s.publishParsed env c).1 (s.publishRecording env c) := by
  rw [publishParsed,publishRecording]
  split_ifs with hotlp
  · exact ⟨rfl,rfl,rfl⟩
  · refine ⟨rfl,rfl,?_⟩
    exact series_recordExchange s.hub (s.exchangeArgs env c)

/-- The records are what handling the exchange changes in the stores. -/
theorem handle_takes (s : Sinks) (env : Env) (now : Instant) (a : Arrival) :
    s.Takes (s.handle env now a).1 (s.recording env now a) := by
  cases a with
  | h2 x => exact s.publishParsed_takes env (h2Args x now)
  | http1 ex fromTls =>
    simp only [handle,handleExchange,recording]
    cases parseExchange env.httparse ex with
    | none => exact ⟨rfl,rfl,rfl⟩
    | some parsed =>
      obtain ⟨hagg,hmap,hreg⟩ := publishParsed_takes
        {s with peerCache := (s.findPeer env ex.tgid ex.fd now ex.peer).1} env
        (http1Args env ex now fromTls (s.findPeer env ex.tgid ex.fd now ex.peer).2 parsed)
      exact ⟨hagg,hmap,hreg⟩

theorem routes_publishRecording {s : Sinks} {env : Env} {c : PublishArgs} {r : Recording}
    (h : s.publishRecording env c = some r) :
    r.routes = List.replicate 3 c.parsed.endpoint.path := by
  rw [publishRecording] at h
  split_ifs at h
  cases h
  rfl

theorem routes_h2 {s : Sinks} {env : Env} {now : Instant} {x : H2Exchange} {r : Recording}
    (h : s.recording env now (.h2 x) = some r) :
    r.routes = List.replicate 3 (normalizePath x.path) := routes_publishRecording h

theorem routes_http1 {s : Sinks} {env : Env} {now : Instant} {ex : Exchange} {fromTls : Bool}
    {method : Option String} {target : String} {r : Recording}
    (hreq : env.httparse.request ex.reqPrefix = some (method,some target))
    (h : s.recording env now (.http1 ex fromTls) = some r) :
    r.routes = List.replicate 3 (normalizePath (stripQuery target)) := by
  obtain ⟨parsed,hparse,hrec⟩ := Option.bind_eq_some_iff.mp h
  have hpath : parsed.endpoint.path = normalizePath (stripQuery target) := by
    rw [parseExchange,hreq] at hparse
    cases method with
    | none => cases hparse
    | some method =>
      simp only at hparse
      split at hparse
      · cases hparse
        rfl
      · cases hparse
  rw [routes_publishRecording hrec,← hpath]
  rfl

end Sinks

theorem stripQuery_eq_self {target : String} (h : '?' ∉ target.toList) :
    stripQuery target = target := by
  have hall : target.toList.takeWhile (· ≠ '?') = target.toList := by
    rw [List.takeWhile_eq_self_iff]
    intro c hc
    simpa using ne_of_mem_of_not_mem hc h
  rw [stripQuery,hall,String.ofList_toList]

/-- The two planes record a target under one route without a query, its segments as they should
be, if and only if the target has no query. -/
theorem route_keys_agree (s s' : Sinks) (env env' : Env) (now now' : Instant) (ex : Exchange)
    (fromTls : Bool) (x : H2Exchange) (method : Option String) (target : String) (r r' : Recording)
    (htarget : target ≠ "")
    (hreq : env.httparse.request ex.reqPrefix = some (method,some target))
    (hpath : x.path = target)
    (h : s.recording env now (.http1 ex fromTls) = some r)
    (h' : s'.recording env' now' (.h2 x) = some r') :
    (∃ route, r.routes = List.replicate 3 route ∧ r'.routes = List.replicate 3 route ∧
      '?' ∉ route.toList ∧ segments route = (segments (stripQuery target)).map routeSegment) ↔
      '?' ∉ target.toList := by
  rw [Sinks.routes_http1 hreq h,Sinks.routes_h2 h',hpath]
  constructor
  · rintro ⟨route,_,hroute,hquery,_⟩
    have heq : normalizePath target = route := by simpa using hroute
    rwa [← heq,query_mem_normalizePath htarget] at hquery
  · intro hquery
    refine ⟨normalizePath target,by rw [stripQuery_eq_self hquery],rfl,?_,?_⟩
    · rwa [query_mem_normalizePath htarget]
    · rw [stripQuery_eq_self hquery,segments_normalizePath htarget]

def Env.reading (target : String) : Env :=
  {Env.bare with httparse := ⟨fun _ => some (some "GET",some target),fun _ => some (some 200)⟩}

def http1Get : Arrival := .http1 ⟨42,3,[],[],1,2,none,true,0⟩ false

def h2Get (target : String) : H2Exchange := ⟨42,3,1,"GET",target,200,1,2,.h2,.write,0⟩

theorem route_keys_agree_without_query :
    ∃ r r', freshSinks.recording (.reading "/users/123") 0 http1Get = some r ∧
      freshSinks.recording .bare 0 (.h2 (h2Get "/users/123")) = some r' ∧
        ∃ route, r.routes = List.replicate 3 route ∧ r'.routes = List.replicate 3 route ∧
          '?' ∉ route.toList ∧
          segments route = (segments (stripQuery "/users/123")).map routeSegment := by
  have h1 : (freshSinks.recording (.reading "/users/123") 0 http1Get).isSome := by decide +kernel
  have h2 : (freshSinks.recording .bare 0 (.h2 (h2Get "/users/123"))).isSome := by decide +kernel
  obtain ⟨r,hr⟩ := Option.isSome_iff_exists.mp h1
  obtain ⟨r',hr'⟩ := Option.isSome_iff_exists.mp h2
  exact ⟨r,r',hr,hr',(route_keys_agree freshSinks freshSinks (.reading "/users/123") .bare 0 0
    ⟨42,3,[],[],1,2,none,true,0⟩ false (h2Get "/users/123") (some "GET") "/users/123" r r'
    (by decide) rfl rfl hr hr').mpr (by decide)⟩

def h2Call (path : String) : List RegOp :=
  let len := (octets path).length
  [.feed (someSocket.moved .write (clientPreface ++
      [0,0,(len + 3).toUInt8,1,4,0,0,0,1,0x82,0x04,len.toUInt8] ++ octets path) 1) 0 false,
    .feed (someSocket.moved .read [0,0,1,1,4,0,0,0,1,0x88] 2) 0 false]

/-- One target on the two planes: the HTTP/2 route keeps the query, and with it the number. -/
theorem h2_route_keeps_query :
    (freshSinks.recording (.reading "/users/123?x=1") 0 http1Get).map Recording.routes =
        some (List.replicate 3 "/users/:id") ∧
      (H2Registry.default.exchanges (h2Call "/users/123?x=1")).map (fun x =>
        (freshSinks.recording .bare 0 (.h2 x)).map Recording.routes) =
          [some (List.replicate 3 "/users/123?x=1")] := by
  decide +kernel

end ObsAgent
