import ObsAgent.Conn

/-! The HTTP/2 connections of all sockets. -/
namespace ObsAgent
namespace H2

def maxConns : ℕ := 8192

structure ConnKey where
  tgid : UInt32
  fd : Int32
  deriving DecidableEq

structure H2Stats where
  connCount : ℕ
  exchanges : ℕ
  droppedConns : ℕ
  droppedStreams : ℕ
  missingPath : ℕ
  headersReq : ℕ
  headersResp : ℕ
  unpairedStatus : ℕ
  desync : ℕ

def H2Stats.default : H2Stats := ⟨0,0,0,0,0,0,0,0,0⟩

structure H2Registry where
  conns : FiniteMap ConnKey H2Conn
  unmark : List (UInt32 × Int32)
  stats : H2Stats

/-- What happens to a connection: its creation, and the stream events on it with the
cgroup of the call that brought them. -/
inductive Observation
  | opened (key : ConnKey)
  | stream (key : ConnKey) (cgroupId : ℕ) (event : StreamEvent)

/-- What an operation returns, with what it did to connections and streams. -/
structure Reply where
  out : List H2Exchange
  unmarked : List (UInt32 × Int32)
  seen : List Observation

def Reply.nothing : Reply := ⟨[],[],[]⟩

namespace H2Registry

def default : H2Registry := ⟨∅,[],H2Stats.default⟩

def isMarked (r : H2Registry) (tgid : UInt32) (fd : Int32) : Bool := r.conns.contains ⟨tgid,fd⟩

def dropConn (r : H2Registry) (tgid : UInt32) (fd : Int32) : H2Registry :=
  match r.conns.get ⟨tgid,fd⟩ with
  | none => {r with conns := r.conns.remove ⟨tgid,fd⟩}
  | some _ => {r with conns := r.conns.remove ⟨tgid,fd⟩, unmark := r.unmark ++ [(tgid,fd)]}

def takeUnmark (r : H2Registry) : H2Registry × List (UInt32 × Int32) := ({r with unmark := []},r.unmark)

/-- Both evictions: keep what passes, report the rest. -/
def retainConns (r : H2Registry) (keep : ConnKey → H2Conn → Bool) : H2Registry :=
  let conns := r.conns.retain keep
  { conns := conns
    unmark := r.unmark ++ (r.conns.rejected keep).map fun k => (k.tgid,k.fd)
    stats := {r.stats with connCount := conns.len} }

def evictStale (r : H2Registry) (now : Instant) : H2Registry :=
  r.retainConns fun _ c => durationSince now c.atTime ≤ timeout

def evictClosed (r : H2Registry) (isLive : UInt32 → Int32 → Bool) : H2Registry :=
  r.retainConns fun k _ => isLive k.tgid k.fd

/-- The part of `feed` behind the lookup of the connection. -/
def feedConn (r : H2Registry) (key : ConnKey) (conn : H2Conn) (dir : IoDir) (ev : SockIoEvent)
    (now : Instant) (clientOnly : Bool) : H2Registry × Reply :=
  let q := pushBytes {conn with atTime := now} dir ev.chunk ev.tsNs
  let outcome := q.2.outcome
  let named := q.2.out.map fun x =>
    {x with tgid := ev.tgid, fd := ev.fd, cgroupId := ev.cgroupId}
  let out := if clientOnly then named.filter fun x => x.reqDir = .write else named
  let ended := outcome.goaway || outcome.desync
  let conns := if ended then r.conns.remove key else r.conns.put key q.1
  ({ conns := conns
     unmark := if ended then r.unmark ++ [(key.tgid,key.fd)] else r.unmark
     stats := {
      connCount := conns.len
      exchanges := r.stats.exchanges + out.length
      droppedConns := r.stats.droppedConns
      droppedStreams := r.stats.droppedStreams + outcome.droppedStreams
      missingPath := r.stats.missingPath + outcome.missingPath
      headersReq := r.stats.headersReq + outcome.headersReq
      headersResp := r.stats.headersResp + outcome.headersResp
      unpairedStatus := r.stats.unpairedStatus + outcome.unpairedStatus
      desync := r.stats.desync + outcome.desync.toNat } },
    ⟨out,[],q.2.events.map (.stream key ev.cgroupId)⟩)

/-- A full preface on a live connection starts a new session. -/
def forget (r : H2Registry) (key : ConnKey) (chunk : List UInt8) : H2Registry :=
  if startsWith chunk clientPreface then {r with conns := r.conns.remove key} else r

def feed (r : H2Registry) (ev : SockIoEvent) (now : Instant) (clientOnly : Bool) :
    H2Registry × Reply :=
  match IoDir.fromU8 ev.dir with
  | none => (r,.nothing)
  | some dir =>
    if ev.ret < 0 ∨ ev.plen = 0 then (r,.nothing)
    else
      let key : ConnKey := ⟨ev.tgid,ev.fd⟩
      let r' := r.forget key ev.chunk
      match r'.conns.get key with
      | some conn => r'.feedConn key conn dir ev now clientOnly
      | none =>
        if r'.conns.len ≥ maxConns then
          ({r' with stats := {r'.stats with droppedConns := r'.stats.droppedConns + 1}},.nothing)
        else if looksLikeH2 ev.chunk then
          let conn := H2Conn.new now
          let q := ({r' with conns := r'.conns.put key conn} : H2Registry).feedConn key conn dir ev
            now clientOnly
          (q.1,{q.2 with seen := .opened key :: q.2.seen})
        else (r',.nothing)

/-- What `feed` can do. -/
inductive Fed (r : H2Registry) (ev : SockIoEvent) (now : Instant) (clientOnly : Bool) :
    H2Registry × Reply → Prop
  | ignored : Fed r ev now clientOnly (r,.nothing)
  | foreign : Fed r ev now clientOnly (r.forget ⟨ev.tgid,ev.fd⟩ ev.chunk,.nothing)
  | full {r' : H2Registry} : r.forget ⟨ev.tgid,ev.fd⟩ ev.chunk = r' → r'.conns.len ≥ maxConns →
      Fed r ev now clientOnly
        ({r' with stats := {r'.stats with droppedConns := r'.stats.droppedConns + 1}},.nothing)
  | known {r' : H2Registry} {dir : IoDir} {conn : H2Conn} :
      r.forget ⟨ev.tgid,ev.fd⟩ ev.chunk = r' → r'.conns.get ⟨ev.tgid,ev.fd⟩ = some conn →
      Fed r ev now clientOnly (r'.feedConn ⟨ev.tgid,ev.fd⟩ conn dir ev now clientOnly)
  | opened {r' : H2Registry} {dir : IoDir} {q : H2Registry × Reply} :
      r.forget ⟨ev.tgid,ev.fd⟩ ev.chunk = r' → r'.conns.get ⟨ev.tgid,ev.fd⟩ = none →
      r'.conns.len < maxConns →
      ({r' with conns := r'.conns.put ⟨ev.tgid,ev.fd⟩ (.new now)} : H2Registry).feedConn
        ⟨ev.tgid,ev.fd⟩ (.new now) dir ev now clientOnly = q →
      Fed r ev now clientOnly (q.1,{q.2 with seen := .opened ⟨ev.tgid,ev.fd⟩ :: q.2.seen})

theorem feed_fed (r : H2Registry) (ev : SockIoEvent) (now : Instant) (clientOnly : Bool) :
    Fed r ev now clientOnly (r.feed ev now clientOnly) := by
  simp only [feed]
  cases IoDir.fromU8 ev.dir with
  | none => exact Fed.ignored
  | some dir =>
    by_cases hgo : ev.ret < 0 ∨ ev.plen = 0
    · simp only [if_pos hgo]
      exact Fed.ignored
    · simp only [if_neg hgo]
      cases hconn : (r.forget ⟨ev.tgid,ev.fd⟩ ev.chunk).conns.get ⟨ev.tgid,ev.fd⟩ with
      | some conn => exact Fed.known rfl hconn
      | none =>
        dsimp only
        split_ifs with hfull hlooks
        · exact Fed.full rfl hfull
        · exact Fed.opened rfl hconn (by omega) rfl
        · exact Fed.foreign

end H2Registry

theorem len_forget_le (r : H2Registry) (key : ConnKey) (chunk : List UInt8) :
    (r.forget key chunk).conns.len ≤ r.conns.len := by
  rw [H2Registry.forget]
  split_ifs
  · exact FiniteMap.len_remove_le _ _
  · exact le_rfl

theorem get_forget_self (r : H2Registry) (key : ConnKey) (chunk : List UInt8) :
    (r.forget key chunk).conns.get key =
      if startsWith chunk clientPreface then none else r.conns.get key := by
  rw [H2Registry.forget]
  split_ifs <;> simp

theorem get_forget_other (r : H2Registry) {key k : ConnKey} (chunk : List UInt8) (hk : k ≠ key) :
    (r.forget key chunk).conns.get k = r.conns.get k := by
  rw [H2Registry.forget]
  split_ifs
  · simp [FiniteMap.get_remove,hk]
  · rfl

inductive RegOp
  | feed (ev : SockIoEvent) (now : Instant) (clientOnly : Bool)
  | dropConn (tgid : UInt32) (fd : Int32)
  | evictStale (now : Instant)
  | evictClosed (isLive : UInt32 → Int32 → Bool)
  | takeUnmark

namespace H2Registry

def step (r : H2Registry) : RegOp → H2Registry × Reply
  | .feed ev now clientOnly => r.feed ev now clientOnly
  | .dropConn tgid fd => (r.dropConn tgid fd,.nothing)
  | .evictStale now => (r.evictStale now,.nothing)
  | .evictClosed isLive => (r.evictClosed isLive,.nothing)
  | .takeUnmark => (r.takeUnmark.1,⟨[],r.takeUnmark.2,[]⟩)

/-- A run, with all replies in order. -/
def run (r : H2Registry) : List RegOp → H2Registry × List Reply
  | [] => (r,[])
  | op :: ops =>
    let q := r.step op
    let rest := run q.1 ops
    (rest.1,q.2 :: rest.2)

def exchanges (r : H2Registry) (ops : List RegOp) : List H2Exchange :=
  (r.run ops).2.flatMap Reply.out

/-- The connection and stream events of a run. -/
def history (r : H2Registry) (ops : List RegOp) : List Observation :=
  (r.run ops).2.flatMap Reply.seen

theorem exchanges_cons (r : H2Registry) (op : RegOp) (ops : List RegOp) :
    r.exchanges (op :: ops) = (r.step op).2.out ++ (r.step op).1.exchanges ops := rfl

theorem history_cons (r : H2Registry) (op : RegOp) (ops : List RegOp) :
    r.history (op :: ops) = (r.step op).2.seen ++ (r.step op).1.history ops := rfl

theorem feed_known {r : H2Registry} {ev : SockIoEvent} {dir : IoDir} {conn : H2Conn}
    (hdir : IoDir.fromU8 ev.dir = some dir) (hret : 0 ≤ ev.ret) (hlen : ev.plen ≠ 0)
    (hnew : startsWith ev.chunk clientPreface = false)
    (hconn : r.conns.get ⟨ev.tgid,ev.fd⟩ = some conn) (now : Instant) (clientOnly : Bool) :
    r.feed ev now clientOnly = r.feedConn ⟨ev.tgid,ev.fd⟩ conn dir ev now clientOnly := by
  have hgo : ¬ (ev.ret < 0 ∨ ev.plen = 0) := by omega
  simp only [feed,hdir,if_neg hgo,forget,hnew,Bool.false_eq_true,if_false,hconn]

theorem feed_preface {r : H2Registry} {ev : SockIoEvent} {dir : IoDir}
    (hdir : IoDir.fromU8 ev.dir = some dir) (hret : 0 ≤ ev.ret) (hlen : ev.plen ≠ 0)
    (hnew : startsWith ev.chunk clientPreface = true)
    (hroom : (r.conns.remove ⟨ev.tgid,ev.fd⟩).len < maxConns) (now : Instant) (clientOnly : Bool) :
    r.feed ev now clientOnly =
      let q := ({r with conns := (r.conns.remove ⟨ev.tgid,ev.fd⟩).put ⟨ev.tgid,ev.fd⟩ (.new now)} :
        H2Registry).feedConn ⟨ev.tgid,ev.fd⟩ (.new now) dir ev now clientOnly
      (q.1,{q.2 with seen := .opened ⟨ev.tgid,ev.fd⟩ :: q.2.seen}) := by
  have hgo : ¬ (ev.ret < 0 ∨ ev.plen = 0) := by omega
  have hfull : ¬ (r.conns.remove ⟨ev.tgid,ev.fd⟩).len ≥ maxConns := by omega
  simp only [feed,hdir,if_neg hgo,forget,hnew,if_true,FiniteMap.get_remove_self,if_neg hfull,
    looksLikeH2_of_preface hnew]

theorem feedConn_live (r : H2Registry) (key : ConnKey) {conn c : H2Conn} {dir : IoDir}
    {ev : SockIoEvent} {now : Instant} {e : Emitted}
    (hpush : pushBytes {conn with atTime := now} dir ev.chunk ev.tsNs = (c,e))
    (hlive : e.outcome.halted = false) :
    (r.feedConn key conn dir ev now false).1.conns = r.conns.put key c ∧
      (r.feedConn key conn dir ev now false).2.out =
        e.out.map fun x => {x with tgid := ev.tgid, fd := ev.fd, cgroupId := ev.cgroupId} := by
  have hend : (e.outcome.goaway || e.outcome.desync) = false := hlive
  simp [feedConn,hpush,hend]

end H2Registry

end H2
end ObsAgent
