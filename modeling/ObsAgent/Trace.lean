import ObsAgent.Common
import ObsAgent.FiniteMap

/-! Sampled spans: their identifiers and fields, the bounded queue they wait in, the handshakes
that are attached to the first span of a socket, and the stack samples that are joined to one. -/
namespace ObsAgent

structure TraceMeta where
  tgid : UInt32
  fd : Int32
  streamId : UInt32
  tStartNs : UInt64
  isClient : Bool
  deriving DecidableEq

def splitmix64 (x : UInt64) : UInt64 :=
  let z := x + 0x9E3779B97F4A7C15
  let z := (z ^^^ (z >>> 30)) * 0xBF58476D1CE4E5B9
  let z := (z ^^^ (z >>> 27)) * 0x94D049BB133111EB
  z ^^^ (z >>> 31)

def mix64 (tgid : UInt32) (fd : Int32) (streamId : UInt32) (tStartNs : UInt64) : UInt64 :=
  splitmix64 (tStartNs ^^^ (tgid.toUInt64 <<< 32) ^^^ fd.toUInt32.toUInt64 ^^^
    (streamId.toUInt64 <<< 17))

def sampled (n : UInt64) (m : TraceMeta) : Bool :=
  if n ≤ 1 then true else mix64 m.tgid m.fd m.streamId m.tStartNs % n = 0

def rotateLeft (x : UInt64) (n : UInt64) : UInt64 := (x <<< n) ||| (x >>> (64 - n))

def toBeBytes (x : UInt64) : List UInt8 :=
  [x >>> 56,x >>> 48,x >>> 40,x >>> 32,x >>> 24,x >>> 16,x >>> 8,x].map UInt64.toUInt8

/-- An identifier of zeros only gets a last octet of one. -/
def nonzero (id : List UInt8) : List UInt8 :=
  if id.all (· = 0) then id.set (id.length - 1) 1 else id

def spanIds (m : TraceMeta) : List UInt8 × List UInt8 :=
  let a := splitmix64 (m.tStartNs ^^^ (m.tgid.toUInt64 <<< 32) ^^^ m.fd.toUInt32.toUInt64)
  let b := splitmix64 (a ^^^ (m.streamId.toUInt64 <<< 32) ^^^ rotateLeft m.tStartNs 17)
  let c := splitmix64 (b ^^^ 0xA5A5A5A5A5A5A5A5)
  (nonzero (toBeBytes a ++ toBeBytes b),nonzero (toBeBytes c))

structure SpanRec where
  traceId : List UInt8
  spanId : List UInt8
  name : String
  startUnixNs : ℕ
  endUnixNs : ℕ
  statusCode : ℕ
  kindClient : Bool
  src : String
  dst : String
  method : String
  route : String
  protocol : String
  wireNs : Option ℕ
  handshakeNs : Option ℕ
  profileFrames : Option (List String)

def protocolAttr (internal : String) : String := if internal = "http" then "http/1.1" else internal

def stripQuery (path : String) : String := String.ofList (path.toList.takeWhile (· ≠ '?'))

/-- `endUnixNs` is the wall clock. -/
def buildSpan (m : TraceMeta) (src dst method route protocol : String) (status latencyNs : ℕ)
    (wireNs handshakeNs : Option ℕ) (profileFrames : Option (List String)) (endUnixNs : ℕ) :
    SpanRec where
  traceId := (spanIds m).1
  spanId := (spanIds m).2
  name := method ++ " " ++ stripQuery route
  startUnixNs := endUnixNs - latencyNs
  endUnixNs := endUnixNs
  statusCode := status
  kindClient := m.isClient
  src := src
  dst := dst
  method := method
  route := stripQuery route
  protocol := protocolAttr protocol
  wireNs := wireNs
  handshakeNs := handshakeNs
  profileFrames := profileFrames

inductive OtelStatus
  | unset | error
  deriving DecidableEq

def spanOtelStatus (protocol : String) (statusCode : ℕ) : OtelStatus :=
  if protocol = "grpc" then if statusCode ≠ 0 then .error else .unset
  else if statusCode ≥ 500 then .error else .unset

def SpanRec.status (s : SpanRec) : OtelStatus := spanOtelStatus s.protocol s.statusCode

def spanQueueCap : ℕ := 1024

structure SpanQueue where
  q : List SpanRec
  cap : ℕ
  dropped : ℕ
  within : q.length ≤ cap

namespace SpanQueue

def new (cap : ℕ) : SpanQueue := ⟨[],cap,0,Nat.zero_le _⟩

def push (s : SpanQueue) (span : SpanRec) : SpanQueue × Bool :=
  if h : s.q.length ≥ s.cap then ({s with dropped := s.dropped + 1},false)
  else ({s with
    q := s.q ++ [span]
    within := by rw [List.length_append,List.length_singleton]; omega},true)

def takeAll (s : SpanQueue) : SpanQueue × List SpanRec :=
  ({s with q := [], within := Nat.zero_le _},s.q)

theorem push_full {s : SpanQueue} (h : s.q.length ≥ s.cap) (span : SpanRec) :
    s.push span = ({s with dropped := s.dropped + 1},false) := dif_pos h

theorem push_room {s : SpanQueue} (h : ¬ s.q.length ≥ s.cap) (span : SpanRec) :
    (s.push span).1.q = s.q ++ [span] ∧ (s.push span).1.cap = s.cap ∧ (s.push span).2 = true := by
  rw [push,dif_neg h]
  exact ⟨rfl,rfl,rfl⟩

end SpanQueue

structure Hs where
  latencyNs : ℕ
  tsNs : UInt64
  atTime : Instant
  deriving DecidableEq

structure HandshakeIndex where
  byFd : FiniteMap (UInt32 × Int32) Hs

namespace HandshakeIndex

def default : HandshakeIndex := ⟨∅⟩

def evictStale (h : HandshakeIndex) (now : Instant) : HandshakeIndex :=
  ⟨h.byFd.retain fun _ hs => durationSince now hs.atTime ≤ timeout⟩

def evictClosed (h : HandshakeIndex) (stillOpen : UInt32 → Int32 → Bool) : HandshakeIndex :=
  ⟨h.byFd.retain fun k _ => stillOpen k.1 k.2⟩

def note (h : HandshakeIndex) (tgid : UInt32) (fd : Int32) (latencyNs : ℕ) (tsNs : UInt64)
    (now : Instant) : HandshakeIndex :=
  if latencyNs = 0 ∨ fd < 0 then h
  else ⟨(h.evictStale now).byFd.put (tgid,fd) ⟨latencyNs,tsNs,now⟩⟩

def peekPreceding (h : HandshakeIndex) (tgid : UInt32) (fd : Int32) (tStartNs : UInt64)
    (now : Instant) : HandshakeIndex × Option ℕ :=
  let h := h.evictStale now
  match h.byFd.get (tgid,fd) with
  | none => (h,none)
  | some hs => if hs.tsNs > tStartNs then (h,none) else (h,some hs.latencyNs)

def consume (h : HandshakeIndex) (tgid : UInt32) (fd : Int32) : HandshakeIndex :=
  ⟨h.byFd.remove (tgid,fd)⟩

section

variable (h : HandshakeIndex) (tgid : UInt32) (fd : Int32) (now : Instant)

theorem get_evictStale (k : UInt32 × Int32) :
    (h.evictStale now).byFd.get k =
      (h.byFd.get k).filter fun hs => durationSince now hs.atTime ≤ timeout :=
  FiniteMap.get_retain _ _ _

theorem get_evictClosed (stillOpen : UInt32 → Int32 → Bool) (k : UInt32 × Int32) :
    (h.evictClosed stillOpen).byFd.get k = (h.byFd.get k).filter fun _ => stillOpen k.1 k.2 :=
  FiniteMap.get_retain _ _ _

theorem peekPreceding_fst (tStartNs : UInt64) :
    (h.peekPreceding tgid fd tStartNs now).1 = h.evictStale now := by
  simp only [peekPreceding]
  split
  · rfl
  · split_ifs <;> rfl

theorem peekPreceding_snd (tStartNs : UInt64) :
    (h.peekPreceding tgid fd tStartNs now).2 =
      (((h.evictStale now).byFd.get (tgid,fd)).filter fun hs => hs.tsNs ≤ tStartNs).map
        Hs.latencyNs := by
  simp only [peekPreceding]
  cases (h.evictStale now).byFd.get (tgid,fd) with
  | none => rfl
  | some hs =>
    by_cases hle : hs.tsNs ≤ tStartNs
    · simp [Option.filter,hle,UInt64.not_lt.mpr hle]
    · simp [Option.filter,hle,UInt64.not_le.mp hle]

end

end HandshakeIndex

structure ProfileConfig where
  minLatencyNs : ℕ
  storeCap : ℕ
  storeTtlNs : ℕ

structure StoredSample where
  tgid : UInt32
  tsNs : ℕ
  frames : List String

structure ProfileStore where
  config : ProfileConfig
  samples : List StoredSample
  samplesIngested : ℕ
  samplesDropped : ℕ
  joinAttempts : ℕ
  joinHits : ℕ

def profileTopFrames : ℕ := 5

namespace ProfileStore

def new (config : ProfileConfig) : ProfileStore where
  config := config
  samples := []
  samplesIngested := 0
  samplesDropped := 0
  joinAttempts := 0
  joinHits := 0

/-- The oldest samples go until one is young enough. -/
def evictBefore (p : ProfileStore) (nowTsNs : ℕ) : ProfileStore :=
  {p with samples := p.samples.dropWhile fun s => nowTsNs - s.tsNs > p.config.storeTtlNs}

/-- A full store loses its oldest sample to the new one. -/
def pushSymbolized (p : ProfileStore) (tgid : UInt32) (tsNs : ℕ) (frames : List String) :
    ProfileStore :=
  if frames.isEmpty then p
  else
    let p := p.evictBefore tsNs
    let p := if p.samples.length ≥ p.config.storeCap then
        {p with samples := p.samples.tail, samplesDropped := p.samplesDropped + 1}
      else p
    {p with
      samples := p.samples ++ [⟨tgid,tsNs,frames⟩]
      samplesIngested := p.samplesIngested + 1}

/-- Names with their numbers, the most frequent first and equal ones by name. -/
def ranked (frames : List String) : List (String × ℕ) :=
  (frames.dedup.map fun f => (f,frames.count f)).mergeSort fun a b =>
    b.2 < a.2 || b.2 = a.2 && (a.1 < b.1 || a.1 = b.1)

def join (p : ProfileStore) (tgid : UInt32) (tStartNs tEndNs : ℕ) :
    ProfileStore × Option (List String) :=
  if tEndNs ≤ tStartNs then (p,none)
  else if tEndNs - tStartNs < p.config.minLatencyNs then (p,none)
  else
    let p := {p with joinAttempts := p.joinAttempts + 1}.evictBefore tEndNs
    let mine := p.samples.filter fun s => s.tgid = tgid && tStartNs ≤ s.tsNs && s.tsNs ≤ tEndNs
    let top := (ranked (mine.flatMap StoredSample.frames)).take profileTopFrames |>.map (·.1)
    match top with
    | [] => (p,none)
    | first :: _ =>
      if first = "" then (p,none)
      else ({p with joinHits := p.joinHits + 1},
        some (top ++ List.replicate (profileTopFrames - top.length) ""))

end ProfileStore

end ObsAgent
