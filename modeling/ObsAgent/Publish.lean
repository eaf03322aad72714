import ObsAgent.Conn
import ObsAgent.Export
import ObsAgent.PeerCache
import Mathlib.Data.List.DropRight

/-! Publishing: from a finished exchange of either protocol to the aggregates, the service map and
the export hub. -/
namespace ObsAgent

open CappedStore Http1 Kernel

structure CacheEntry where
  id : NodeId
  atTime : Instant

structure IdentityResolver where
  cache : FiniteMap UInt32 CacheEntry

namespace IdentityResolver

def cacheTtl : ℕ := 30 * 10^9

def cacheCap : ℕ := 8192

def default : IdentityResolver := ⟨∅⟩

/-- `uncached` is what the process file system says. -/
def resolve (r : IdentityResolver) (tgid : UInt32) (now : Instant) (uncached : NodeId) :
    IdentityResolver × NodeId :=
  match (r.cache.get tgid).filter fun e => durationSince now e.atTime ≤ cacheTtl with
  | some e => (r,e.id)
  | none =>
    let cache := if r.cache.len ≥ cacheCap then
      r.cache.retain fun _ e => durationSince now e.atTime ≤ cacheTtl else r.cache
    let cache := if cache.len ≥ cacheCap then ∅ else cache
    (⟨cache.put tgid ⟨uncached,now⟩⟩,uncached)

end IdentityResolver

structure PodIndex where
  byPodIp : FiniteMap UInt32 (String × String)
  byClusterIp : FiniteMap UInt32 (String × String)
  byUid : FiniteMap String (String × String)

namespace PodIndex

/-- A pod's own address wins over a service's. -/
def lookupIp (idx : PodIndex) (daddrRaw : UInt32) : Option (String × String) :=
  (idx.byPodIp.get daddrRaw).or (idx.byClusterIp.get daddrRaw)

def lookupUid (idx : PodIndex) (uid : String) : Option (String × String) := idx.byUid.get uid

end PodIndex

structure CgroupPodIndex where
  byInode : FiniteMap ℕ String

def CgroupPodIndex.lookup (idx : CgroupPodIndex) (cgroupId : ℕ) : Option String :=
  if cgroupId = 0 then none else idx.byInode.get cgroupId

namespace Http1.PeerAddr

def v4Addr (p : PeerAddr) : Option UInt32 :=
  if p.family = afInet.toUInt8 then
    some ((p.daddr.get 0).toUInt32 + (p.daddr.get 1).toUInt32 <<< 8 +
      (p.daddr.get 2).toUInt32 <<< 16 + (p.daddr.get 3).toUInt32 <<< 24)
  else none

def isV6 (p : PeerAddr) : Bool := p.family = afInet6.toUInt8

end Http1.PeerAddr

/-- `ipv6` prints an address of sixteen octets. -/
def formatPeer (ipv6 : List.Vector UInt8 16 → String) (p : PeerAddr) : String :=
  let port := toString ((p.dportBe <<< 8) ||| (p.dportBe >>> 8)).toNat
  if p.isV6 then "[" ++ ipv6 p.daddr ++ "]:" ++ port
  else
    let ip := (SockMeta.toNeBytes (p.v4Addr.getD 0)).map fun b => toString b.toNat
    ".".intercalate ip ++ ":" ++ port

def dstFromIndex (ipv6 : List.Vector UInt8 16 → String) (peer : Option PeerAddr) (idx : PodIndex) :
    DstId :=
  match peer with
  | none => .unknown
  | some p =>
    match p.v4Addr.bind idx.lookupIp with
    | some (ns,name) => .pod ns name
    | none => .ipPort (formatPeer ipv6 p)

def isOtlpExportRoute (method path : String) : Bool :=
  method.toList.map Char.toLower = "post".toList &&
    ["/v1/traces","/v1/metrics","/v1/logs"].any fun route =>
      path.toList.rdropWhile (· = '/') = route.toList

def isNumericId (seg : List Char) : Bool := !seg.isEmpty && seg.all Char.isDigit

def normalizePath (path : String) : String :=
  if path = "" then "/"
  else
    let parts := (path.toList.splitOn '/').map fun seg =>
      if isNumericId seg then ":id".toList else seg
    let joined := String.ofList (['/'].intercalate parts)
    if joined = "" then "/" else joined

/-- What `httparse` makes of the first octets of a request and of a response: an error, or the
fields that it has come to. -/
structure HttpParse where
  request : List UInt8 → Option (Option String × Option String)
  response : List UInt8 → Option (Option ℕ)

def parseExchange (httparse : HttpParse) (ex : Exchange) : Option ParsedExchange :=
  match httparse.request ex.reqPrefix with
  | some (some method,some pathRaw) =>
    match httparse.response ex.respPrefix with
    | some (some status) =>
      some ⟨.http method (normalizePath (stripQuery pathRaw)),status,ex.tEndNs - ex.tStartNs,none⟩
    | _ => none
  | _ => none

/-- What publishing reads besides its own stores. -/
structure Env where
  sockMeta : SockMetaMap
  pods : PodIndex
  cgroups : CgroupPodIndex
  uncached : UInt32 → NodeId
  ipv6 : List.Vector UInt8 16 → String
  httparse : HttpParse
  wireNs : Option ℕ
  unixNs : ℕ

structure Sinks where
  peerCache : PeerCache
  identity : IdentityResolver
  httpAgg : HttpAggregator
  serviceMap : ServiceMap
  hub : ExportHub

def Sinks.start (hub : ExportHub) : Sinks := ⟨.default,.default,⟨∅⟩,.default,hub⟩

structure PublishArgs where
  tgid : UInt32
  fd : Int32
  streamId : UInt32
  tStartNs : UInt64
  isClient : Bool
  peer : Option PeerAddr
  cgroupId : ℕ
  parsed : ParsedExchange
  now : Instant

namespace Sinks

section

variable (s : Sinks) (env : Env) (c : PublishArgs)

/-- A peer that is not known yet is looked up. -/
def findPeer (tgid : UInt32) (fd : Int32) (now : Instant) :
    Option PeerAddr → PeerCache × Option PeerAddr
  | some p => (s.peerCache,some p)
  | none => lookupPeer env.sockMeta s.peerCache tgid fd now

/-- The source, by the name of its pod where the indices know it. -/
def source : NodeId :=
  let src := (s.identity.resolve c.tgid c.now (env.uncached c.tgid)).2
  let podUid := src.podUid.or (env.cgroups.lookup c.cgroupId)
  match podUid.bind env.pods.lookupUid with
  | some (ns,name) => {src with podUid := podUid, label := ns ++ "/" ++ name}
  | none => {src with podUid := podUid}

def destination : DstId := dstFromIndex env.ipv6 (s.findPeer env c.tgid c.fd c.now c.peer).2 env.pods

def mapRecord : MapRecord :=
  ⟨s.source env c,s.destination env c,c.parsed.endpoint,c.parsed.latencyNs,c.parsed.status⟩

def exchangeArgs : ExchangeArgs where
  src := (s.source env c).label
  dst := s.destination env c
  method := c.parsed.endpoint.method
  route := c.parsed.endpoint.path
  latencyNs := c.parsed.latencyNs
  status := c.parsed.status
  protocol := c.parsed.endpoint.protocol
  wireNs := c.parsed.wireNs
  traceMeta := ⟨c.tgid,c.fd,c.streamId,c.tStartNs,c.isClient⟩
  now := c.now
  endUnixNs := env.unixNs

/-- The exit is that of `record_exchange`, if it came to that. -/
def publishParsed : Sinks × Option Exit :=
  if isOtlpExportRoute c.parsed.endpoint.method c.parsed.endpoint.path then (s,none)
  else
    let recorded := s.hub.recordExchange (s.exchangeArgs env c)
    ({ peerCache := (s.findPeer env c.tgid c.fd c.now c.peer).1
       identity := (s.identity.resolve c.tgid c.now (env.uncached c.tgid)).1
       httpAgg := s.httpAgg.record c.parsed c.now
       serviceMap := s.serviceMap.record (s.mapRecord env c) c.now
       hub := recorded.1 },some recorded.2)

end

def h2Args (x : H2.H2Exchange) (now : Instant) : PublishArgs :=
  let protocol := match x.protocol with
    | .h2 => "h2"
    | .grpc => "grpc"
  { tgid := x.tgid
    fd := x.fd
    streamId := UInt32.ofNat x.streamId
    tStartNs := UInt64.ofNat x.tStartNs
    isClient := x.reqDir = .write
    peer := none
    cgroupId := x.cgroupId
    parsed := ⟨.labeled protocol x.method (normalizePath x.path),x.status,x.tEndNs - x.tStartNs,none⟩
    now := now }

def handleH2Exchange (s : Sinks) (env : Env) (x : H2.H2Exchange) (now : Instant) :
    Sinks × Option Exit :=
  s.publishParsed env (h2Args x now)

/-- The call for an HTTP/1.1 exchange that has been parsed; `env.wireNs` is what the dual plane's
join found. -/
def http1Args (env : Env) (ex : Exchange) (now : Instant) (fromTls : Bool) (peer : Option PeerAddr)
    (parsed : ParsedExchange) : PublishArgs where
  tgid := ex.tgid
  fd := ex.fd
  streamId := 0
  tStartNs := UInt64.ofNat ex.tStartNs
  isClient := ex.reqIsWrite
  peer := peer
  cgroupId := ex.cgroupId
  parsed := {parsed with wireNs := if fromTls then env.wireNs.or parsed.wireNs else parsed.wireNs}
  now := now

def handleExchange (s : Sinks) (env : Env) (ex : Exchange) (now : Instant) (fromTls : Bool) :
    Sinks × Option Exit :=
  let looked := s.findPeer env ex.tgid ex.fd now ex.peer
  let s := {s with peerCache := looked.1}
  match parseExchange env.httparse ex with
  | none => (s,none)
  | some parsed => s.publishParsed env (http1Args env ex now fromTls looked.2 parsed)

end Sinks

end ObsAgent
