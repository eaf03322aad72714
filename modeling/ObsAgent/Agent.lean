import ObsAgent.Capture
import ObsAgent.Reassemble
import ObsAgent.Registry

/-! The userspace side of an I/O record: the comm filter, the choice between HTTP/1.1 and
HTTP/2, and the clearing of `INFLIGHT`; and the tick that evicts what is stale. -/
namespace ObsAgent

open Kernel Http1 H2

/-- An HTTP/1.1 start line on a descriptor that was marked HTTP/2 before. -/
def H2.looksLikeHttp11 (b : List UInt8) : Bool :=
  if startsWith b (octets "PRI ") || looksLikeFrame b then false
  else httpMagic b (min b.length (2^16 - 1))

/-- An execution of `clear_inflight`, and whether the socket was marked HTTP/2 then. -/
structure Clearing where
  tgid : UInt32
  fd : Int32
  marked : Bool
  deriving DecidableEq

inductive Published
  | http1 (ex : Exchange) (fromTls : Bool)
  | http2 (x : H2Exchange)

structure Agent where
  h2 : H2Registry
  reassembler : Reassembler
  correlator : Correlator
  inflight : InflightMap
  denied : ℕ
  reasmCount : ℕ

structure Report where
  out : List Published
  cleared : List Clearing

namespace Agent

def start : Agent := ⟨.default,.default,.default,∅,0,0⟩

def clearInflight (s : Agent) (tgid : UInt32) (fd : Int32) : Agent :=
  if fd < 0 then s else {s with inflight := s.inflight.remove (sockFdKey tgid fd.toUInt32)}

def clearAll (s : Agent) (unmarks : List (UInt32 × Int32)) : Agent :=
  unmarks.foldl (fun s k => s.clearInflight k.1 k.2) s

/-- The clears of a list, at a moment when the registry is as it is in `s`. -/
def clearings (s : Agent) (unmarks : List (UInt32 × Int32)) : List Clearing :=
  unmarks.map fun k => ⟨k.1,k.2,s.h2.isMarked k.1 k.2⟩

/-- The drop of an HTTP/2 connection whose descriptor now speaks HTTP/1.1. -/
def demote (s : Agent) (ev : SockIoEvent) : Agent × List Clearing :=
  if s.h2.isMarked ev.tgid ev.fd && looksLikeHttp11 ev.chunk then
    let q := (s.h2.dropConn ev.tgid ev.fd).takeUnmark
    let s := {s with h2 := q.1}
    (s.clearAll q.2,s.clearings q.2)
  else (s,[])

def feedH2 (s : Agent) (ev : SockIoEvent) (clientOnly : Bool) (now : Instant) : Agent × Report :=
  let fed := s.h2.feed ev now clientOnly
  let q := fed.1.takeUnmark
  let s := {s with h2 := q.1}
  (s.clearAll q.2,⟨fed.2.out.map .http2,s.clearings q.2⟩)

def feedHttp1 (s : Agent) (ev : SockIoEvent) (fromTls clientOnly : Bool) (now : Instant) :
    Agent × Report :=
  let pushed := s.reassembler.push ev now
  let q := pushed.1.takeUnmark
  let s := {s with reassembler := q.1}
  let cleared := s.clearings q.2
  let s := s.clearAll q.2
  match pushed.2 with
  | none => (s,⟨[],cleared⟩)
  | some ev =>
    let s := {s with reasmCount := s.reasmCount + 1}
    let cleared := cleared ++ s.clearings [(ev.tgid,ev.fd)]
    let s := s.clearInflight ev.tgid ev.fd
    let o := if clientOnly then s.correlator.observeClient ev now else s.correlator.observe ev now
    ({s with correlator := o.1},⟨o.2.toList.map (.http1 · fromTls),cleared⟩)

/-- `allowed` is the verdict of the comm filter, true if there is none. -/
def ingestHttpIo (s : Agent) (ev : SockIoEvent) (fromTls clientOnly : Bool) (now : Instant)
    (allowed : Bool) : Agent × Report :=
  if !allowed then
    let s := {s with denied := s.denied + 1, h2 := s.h2.dropConn ev.tgid ev.fd}
    (s.clearInflight ev.tgid ev.fd,⟨[],s.clearings [(ev.tgid,ev.fd)]⟩)
  else
    let d := s.demote ev
    let r :=
      if d.1.h2.isMarked ev.tgid ev.fd || looksLikeH2 ev.chunk then d.1.feedH2 ev clientOnly now
      else d.1.feedHttp1 ev fromTls clientOnly now
    (r.1,⟨r.2.out,d.2 ++ r.2.cleared⟩)

/-- A socket is live while the kernel has it marked or in flight. -/
def stillOpen (sockMeta : SockMetaMap) (inflight : InflightMap) (tgid : UInt32) (fd : Int32) :
    Bool :=
  if fd < 0 then false
  else
    let key := sockFdKey tgid fd.toUInt32
    sockMeta.contains key || inflight.contains key

/-- The tick, with the test that decides which connections are closed. -/
def tick (s : Agent) (now : Instant) (isLive : UInt32 → Int32 → Bool) : Agent × Report :=
  let r := (s.reassembler.evictStale now).takeUnmark
  let q := ((s.h2.evictStale now).evictClosed isLive).takeUnmark
  let s := {s with reassembler := r.1, h2 := q.1}
  let unmarks := r.2 ++ q.2
  (s.clearAll unmarks,⟨[],s.clearings unmarks⟩)

end Agent

inductive AgentStep
  | io (ev : SockIoEvent) (fromTls clientOnly : Bool) (now : Instant) (allowed : Bool)
  | tick (now : Instant) (isLive : UInt32 → Int32 → Bool)

def AgentStep.now : AgentStep → Instant
  | .io _ _ _ now _ => now
  | .tick now _ => now

def Agent.step (s : Agent) : AgentStep → Agent × Report
  | .io ev fromTls clientOnly now allowed => s.ingestHttpIo ev fromTls clientOnly now allowed
  | .tick now isLive => s.tick now isLive

end ObsAgent
