import ObsAgent.Agent
import ObsAgent.Correlate

/-! One socket alone. The stores of the agent are shared by all sockets; here is what they
hold for one of them, the steps on that, and that the agent's steps are those. -/
namespace ObsAgent

open Kernel Http1 H2

def Published.key : Published → ConnKey
  | .http1 ex _ => ⟨ex.tgid,ex.fd⟩
  | .http2 x => ⟨x.tgid,x.fd⟩

def SockIoEvent.connKey (ev : SockIoEvent) : ConnKey := ⟨ev.tgid,ev.fd⟩

structure Socket where
  conn : Option H2Conn
  bufs : IoDir → Option Buf
  pending : Option Pending

namespace Socket

def age (s : Socket) (now : Instant) : Socket where
  conn := s.conn
  bufs dir := (s.bufs dir).filter fun b => durationSince now b.atTime ≤ timeout
  pending := s.pending.filter fun p => durationSince now p.atTime ≤ timeout

/-- A push on the connection: what is left of it, and its exchanges. -/
def pushConn (conn : H2Conn) (dir : IoDir) (ev : SockIoEvent) (now : Instant) (clientOnly : Bool) :
    Option H2Conn × List H2Exchange :=
  let q := pushBytes {conn with atTime := now} dir ev.chunk ev.tsNs
  let named := q.2.out.map fun x =>
    {x with tgid := ev.tgid, fd := ev.fd, cgroupId := ev.cgroupId}
  (if q.2.outcome.goaway || q.2.outcome.desync then none else some q.1,
    if clientOnly then named.filter fun x => x.reqDir = .write else named)

def feed (conn : Option H2Conn) (ev : SockIoEvent) (now : Instant) (clientOnly : Bool) :
    Option H2Conn × List H2Exchange :=
  match IoDir.fromU8 ev.dir with
  | none => (conn,[])
  | some dir =>
    if ev.ret < 0 ∨ ev.plen = 0 then (conn,[])
    else
      match if startsWith ev.chunk clientPreface then none else conn with
      | some conn => pushConn conn dir ev now clientOnly
      | none =>
        if looksLikeH2 ev.chunk then pushConn (.new now) dir ev now clientOnly else (none,[])

def push (bufs : IoDir → Option Buf) (ev : SockIoEvent) (now : Instant) :
    (IoDir → Option Buf) × Option SockIoEvent :=
  match IoDir.fromU8 ev.dir with
  | none => (bufs,none)
  | some dir =>
    if ev.ret < 0 ∨ ev.plen = 0 then (bufs,none)
    else
      let q := absorb ev now (bufs dir)
      (Function.update bufs dir q.1,q.2)

def observe (pending : Option Pending) (ev : SockIoEvent) (now : Instant) (clientOnly : Bool) :
    Option Pending × Option Exchange :=
  match IoDir.fromU8 ev.dir with
  | none => (pending,none)
  | some dir =>
    (accepted ev now clientOnly dir,
      pending.bind fun p => if completes p ev clientOnly dir then some (joinedWith p ev) else none)

def http1 (s : Socket) (ev : SockIoEvent) (fromTls clientOnly : Bool) (now : Instant) :
    Socket × List Published :=
  let q := push s.bufs ev now
  match q.2 with
  | none => ({s with bufs := q.1},[])
  | some whole =>
    let o := observe s.pending whole now clientOnly
    ({s with bufs := q.1, pending := o.1},o.2.toList.map (.http1 · fromTls))

def demote (s : Socket) (ev : SockIoEvent) : Socket :=
  {s with conn := if s.conn.isSome && looksLikeHttp11 ev.chunk then none else s.conn}

def http2 (s : Socket) (ev : SockIoEvent) (clientOnly : Bool) (now : Instant) :
    Socket × List Published :=
  let q := feed s.conn ev now clientOnly
  ({s with conn := q.1},q.2.map .http2)

def ingest (s : Socket) (ev : SockIoEvent) (fromTls clientOnly : Bool) (now : Instant)
    (allowed : Bool) : Socket × List Published :=
  if !allowed then ({s with conn := none},[])
  else
    let s := s.demote ev
    if s.conn.isSome || looksLikeH2 ev.chunk then s.http2 ev clientOnly now
    else s.http1 ev fromTls clientOnly now

def tick (s : Socket) (now : Instant) (live : Bool) : Socket :=
  {s with conn := (s.conn.filter fun c => durationSince now c.atTime ≤ timeout).filter fun _ => live}

end Socket

/-- What the agent holds for a socket at an instant, stale entries left out. -/
def Agent.socket (s : Agent) (k : ConnKey) (now : Instant) : Socket where
  conn := s.h2.conns.get k
  bufs dir := s.reassembler.buffered ⟨k.tgid,k.fd,dir.toU8⟩ now
  pending := s.correlator.waiting ⟨k.tgid,k.fd⟩ now

namespace H2

section FeedConn

variable (r : H2Registry) (conn : H2Conn) (dir : IoDir) (ev : SockIoEvent) (now : Instant)
  (clientOnly : Bool)

theorem feedConn_self :
    ((r.feedConn ev.connKey conn dir ev now clientOnly).1.conns.get ev.connKey,
      (r.feedConn ev.connKey conn dir ev now clientOnly).2.out) =
        Socket.pushConn conn dir ev now clientOnly := by
  simp only [H2Registry.feedConn,Socket.pushConn]
  split_ifs <;> simp

theorem feedConn_other {k : ConnKey} (hk : k ≠ ev.connKey) :
    (r.feedConn ev.connKey conn dir ev now clientOnly).1.conns.get k = r.conns.get k := by
  simp only [H2Registry.feedConn]
  split_ifs <;> simp [FiniteMap.get_remove,FiniteMap.get_put,hk]

theorem feedConn_named : ∀ x ∈ (r.feedConn ev.connKey conn dir ev now clientOnly).2.out,
    (⟨x.tgid,x.fd⟩ : ConnKey) = ev.connKey := by
  have hnamed : ∀ x ∈ (pushBytes {conn with atTime := now} dir ev.chunk ev.tsNs).2.out.map
      (fun x => ({x with tgid := ev.tgid, fd := ev.fd, cgroupId := ev.cgroupId} : H2Exchange)),
      (⟨x.tgid,x.fd⟩ : ConnKey) = ev.connKey := by
    intro x hx
    obtain ⟨y,-,rfl⟩ := List.mem_map.mp hx
    rfl
  intro x hx
  simp only [H2Registry.feedConn] at hx
  split_ifs at hx
  · exact hnamed x (List.mem_of_mem_filter hx)
  · exact hnamed x hx

end FeedConn

section Feed

variable (r : H2Registry) (ev : SockIoEvent) (now : Instant) (clientOnly : Bool)

/-- Below the connection limit a call does to its socket what it does to one alone. -/
theorem feed_self (hroom : r.conns.len < maxConns) :
    ((r.feed ev now clientOnly).1.conns.get ev.connKey,(r.feed ev now clientOnly).2.out) =
      Socket.feed (r.conns.get ev.connKey) ev now clientOnly := by
  have hlen : ¬ (r.forget ev.connKey ev.chunk).conns.len ≥ maxConns :=
    Nat.not_le.mpr ((len_forget_le r _ _).trans_lt hroom)
  have hget := get_forget_self r ev.connKey ev.chunk
  simp only [H2Registry.feed,Socket.feed,← hget]
  cases IoDir.fromU8 ev.dir with
  | none => rfl
  | some dir =>
    dsimp only
    by_cases hgo : ev.ret < 0 ∨ ev.plen = 0
    · rw [if_pos hgo,if_pos hgo]
      rfl
    rw [if_neg hgo,if_neg hgo]
    cases hconn : (r.forget ev.connKey ev.chunk).conns.get ev.connKey with
    | some conn =>
      have hconn' : (r.forget ⟨ev.tgid,ev.fd⟩ ev.chunk).conns.get ⟨ev.tgid,ev.fd⟩ = some conn :=
        hconn
      rw [hconn']
      exact feedConn_self _ _ _ _ _ _
    | none =>
      have hconn' : (r.forget ⟨ev.tgid,ev.fd⟩ ev.chunk).conns.get ⟨ev.tgid,ev.fd⟩ = none := hconn
      have hlen' : ¬ (r.forget ⟨ev.tgid,ev.fd⟩ ev.chunk).conns.len ≥ maxConns := hlen
      rw [hconn']
      dsimp only
      rw [if_neg hlen']
      split_ifs
      · exact feedConn_self _ _ _ _ _ _
      · exact congrArg (·,[]) hconn

theorem feed_other {k : ConnKey} (hk : k ≠ ev.connKey) :
    (r.feed ev now clientOnly).1.conns.get k = r.conns.get k := by
  have hforget := get_forget_other r ev.chunk hk
  have hfed := r.feed_fed ev now clientOnly
  generalize r.feed ev now clientOnly = q at hfed ⊢
  cases hfed with
  | ignored => rfl
  | foreign => exact hforget
  | full hr _ => exact hr ▸ hforget
  | known hr _ => exact (feedConn_other _ _ _ _ _ _ hk).trans (hr ▸ hforget)
  | opened hr _ _ hq =>
    subst hq hr
    refine (feedConn_other _ _ _ _ _ _ hk).trans (Eq.trans ?_ hforget)
    exact (FiniteMap.get_put _ _ _ _).trans (if_neg hk)

theorem feed_named : ∀ x ∈ (r.feed ev now clientOnly).2.out,
    (⟨x.tgid,x.fd⟩ : ConnKey) = ev.connKey := by
  have hfed := r.feed_fed ev now clientOnly
  generalize r.feed ev now clientOnly = q at hfed ⊢
  intro x hx
  cases hfed with
  | ignored | foreign | full => simp [Reply.nothing] at hx
  | known hr _ => exact feedConn_named _ _ _ _ _ _ x hx
  | opened hr _ _ hq =>
    subst hq
    dsimp only at hx
    exact feedConn_named _ _ _ _ _ _ x hx

end Feed

end H2

namespace Http1

theorem buffered_later (r : Reassembler) (k : BufKey) {now later : Instant} (hle : now ≤ later) :
    r.buffered k later =
      (r.buffered k now).filter fun b => durationSince later b.atTime ≤ timeout := by
  rw [Reassembler.buffered,Reassembler.buffered,filter_later hle]

theorem waiting_later (c : Correlator) (k : SockKey) {now later : Instant} (hle : now ≤ later) :
    c.waiting k later =
      (c.waiting k now).filter fun p => durationSince later p.atTime ≤ timeout := by
  rw [Correlator.waiting,Correlator.waiting,filter_later hle]

section Push

variable (r : Reassembler) (ev : SockIoEvent) (now : Instant)

theorem buffered_of_get {r' : Reassembler} {k k' : BufKey}
    (h : r'.bufs.get k = r.buffered k' now) : r'.buffered k now = r.buffered k' now := by
  rw [Reassembler.buffered,h]
  exact (buffered_later r k' le_rfl).symm

theorem push_ignored (h : IoDir.fromU8 ev.dir = none ∨ ev.ret < 0 ∨ ev.plen = 0) :
    r.push ev now = (r.evictStale now,none) := by
  simp only [Reassembler.push]
  cases hdir : IoDir.fromU8 ev.dir with
  | none => rfl
  | some dir => exact if_pos (h.resolve_left (by simp [hdir]))

theorem get_push_other {k : BufKey} (hk : (⟨k.tgid,k.fd⟩ : ConnKey) ≠ ev.connKey) :
    (r.push ev now).1.bufs.get k = r.buffered k now := by
  cases hdir : IoDir.fromU8 ev.dir with
  | none => rw [push_ignored r ev now (Or.inl hdir),Reassembler.get_evictStale]
  | some dir => exact r.push_other now hdir fun h => hk (by rw [h]; rfl)

theorem push_other_socket {k : BufKey} (hk : (⟨k.tgid,k.fd⟩ : ConnKey) ≠ ev.connKey) :
    (r.push ev now).1.buffered k now = r.buffered k now :=
  buffered_of_get r now (get_push_other r ev now hk)

theorem absorb_fresh (buf : Option Buf) :
    ((absorb ev now buf).1.filter fun b => durationSince now b.atTime ≤ timeout) =
      (absorb ev now buf).1 := by
  cases buf <;> simp only [absorb] <;> split_ifs <;>
    simp [Option.filter_some,Buf.start,Buf.extend,durationSince]

theorem push_socket :
    ((fun dir : IoDir => (r.push ev now).1.buffered ⟨ev.tgid,ev.fd,dir.toU8⟩ now),
        (r.push ev now).2) =
      Socket.push (fun dir => r.buffered ⟨ev.tgid,ev.fd,dir.toU8⟩ now) ev now := by
  by_cases hno : IoDir.fromU8 ev.dir = none ∨ ev.ret < 0 ∨ ev.plen = 0
  · have hsame : ∀ k, (r.evictStale now).buffered k now = r.buffered k now := fun k =>
      buffered_of_get r now (r.get_evictStale now k)
    simp only [push_ignored r ev now hno,hsame,Socket.push]
    cases hdir : IoDir.fromU8 ev.dir with
    | none => rfl
    | some dir => exact (if_pos (hno.resolve_left (by simp [hdir]))).symm
  · push Not at hno
    obtain ⟨hdir,hret,hlen⟩ := hno
    obtain ⟨dir,hdir⟩ := Option.ne_none_iff_exists'.mp hdir
    have hgo : ¬ (ev.ret < 0 ∨ ev.plen = 0) := by omega
    have hself := r.push_self now hdir hret hlen
    have hbuf : _ = (absorb ev now _).1 := congrArg Prod.fst hself
    have hout : _ = (absorb ev now _).2 := congrArg Prod.snd hself
    dsimp only at hbuf hout
    simp only [Socket.push,hdir,if_neg hgo,hout]
    refine congrArg (·,_) (funext fun d => ?_)
    by_cases hd : d = dir
    · subst hd
      rw [Function.update_self,Reassembler.buffered,hbuf,absorb_fresh]
    · rw [Function.update_of_ne hd]
      refine buffered_of_get r now (r.push_other now hdir fun h => hd ?_)
      have hdirs := congrArg (fun k : BufKey => IoDir.fromU8 k.dir) h
      simpa using hdirs

theorem push_key : ∀ whole ∈ (r.push ev now).2, whole.connKey = ev.connKey := by
  intro whole hwhole
  rw [congrArg Prod.snd (push_socket r ev now),Socket.push] at hwhole
  cases hdir : IoDir.fromU8 ev.dir with
  | none => simp [hdir] at hwhole
  | some dir =>
    rw [hdir] at hwhole
    dsimp only at hwhole
    split_ifs at hwhole
    · simp at hwhole
    · cases hbuf : r.buffered ⟨ev.tgid,ev.fd,dir.toU8⟩ now <;>
        simp only [hbuf,absorb] at hwhole <;> split_ifs at hwhole <;> cases hwhole <;> rfl

end Push

section Observe

variable (c : Correlator) (ev : SockIoEvent) (now : Instant) (clientOnly : Bool)

theorem waiting_of_get {c' : Correlator} {k k' : SockKey} (h : c'.states.get k = c.waiting k' now) :
    c'.waiting k now = c.waiting k' now := by
  rw [Correlator.waiting,h]
  exact (waiting_later c k' le_rfl).symm

theorem accepted_fresh (dir : IoDir) :
    ((accepted ev now clientOnly dir).filter fun p => durationSince now p.atTime ≤ timeout) =
      accepted ev now clientOnly dir := by
  rw [accepted]
  split_ifs <;> simp [Option.filter_some,durationSince]

theorem observe_socket :
    ((c.observeInner ev now clientOnly).1.waiting ⟨ev.tgid,ev.fd⟩ now,
        (c.observeInner ev now clientOnly).2) =
      Socket.observe (c.waiting ⟨ev.tgid,ev.fd⟩ now) ev now clientOnly := by
  cases hdir : IoDir.fromU8 ev.dir with
  | none =>
    have hget := c.observeInner_other now clientOnly (k := ⟨ev.tgid,ev.fd⟩) (Or.inr hdir)
    rw [waiting_of_get c now hget]
    simp [Socket.observe,Correlator.observeInner,hdir]
  | some dir =>
    have hself := c.observeInner_self now clientOnly hdir
    have hreply := c.observeInner_reply now clientOnly hdir
    simp only [SockKey.fromEvent] at hself hreply
    rw [hreply,Correlator.waiting,hself,accepted_fresh]
    simp only [Socket.observe,hdir]

theorem observe_other_socket {k : SockKey} (hk : (⟨k.tgid,k.fd⟩ : ConnKey) ≠ ev.connKey) :
    (c.observeInner ev now clientOnly).1.waiting k now = c.waiting k now :=
  waiting_of_get c now (c.observeInner_other now clientOnly (Or.inl fun h => hk (by rw [h]; rfl)))

theorem observe_key : ∀ x ∈ (c.observeInner ev now clientOnly).2,
    (⟨x.tgid,x.fd⟩ : ConnKey) = ev.connKey := by
  intro x hx
  cases hdir : IoDir.fromU8 ev.dir with
  | none => simp [Correlator.observeInner,hdir] at hx
  | some dir =>
    rw [c.observeInner_reply now clientOnly hdir] at hx
    obtain ⟨p,-,hp⟩ := Option.bind_eq_some_iff.mp hx
    split_ifs at hp
    rw [← Option.some.inj hp]
    rfl

end Observe

end Http1

namespace Agent

section Clear

variable (s : Agent)

@[simp] theorem clearInflight_h2 (tgid : UInt32) (fd : Int32) :
    (s.clearInflight tgid fd).h2 = s.h2 := by
  rw [clearInflight]
  split_ifs <;> rfl

@[simp] theorem clearInflight_reassembler (tgid : UInt32) (fd : Int32) :
    (s.clearInflight tgid fd).reassembler = s.reassembler := by
  rw [clearInflight]
  split_ifs <;> rfl

@[simp] theorem clearInflight_correlator (tgid : UInt32) (fd : Int32) :
    (s.clearInflight tgid fd).correlator = s.correlator := by
  rw [clearInflight]
  split_ifs <;> rfl

theorem clearAll_stores (unmarks : List (UInt32 × Int32)) :
    (s.clearAll unmarks).h2 = s.h2 ∧ (s.clearAll unmarks).reassembler = s.reassembler ∧
      (s.clearAll unmarks).correlator = s.correlator := by
  induction unmarks generalizing s with
  | nil => exact ⟨rfl,rfl,rfl⟩
  | cons k unmarks ih =>
    obtain ⟨hh2,hreasm,hcorr⟩ := ih (s.clearInflight k.1 k.2)
    exact ⟨hh2.trans (s.clearInflight_h2 ..),hreasm.trans (s.clearInflight_reassembler ..),
      hcorr.trans (s.clearInflight_correlator ..)⟩

@[simp] theorem clearAll_h2 (unmarks : List (UInt32 × Int32)) :
    (s.clearAll unmarks).h2 = s.h2 := (s.clearAll_stores unmarks).1

@[simp] theorem clearAll_reassembler (unmarks : List (UInt32 × Int32)) :
    (s.clearAll unmarks).reassembler = s.reassembler := (s.clearAll_stores unmarks).2.1

@[simp] theorem clearAll_correlator (unmarks : List (UInt32 × Int32)) :
    (s.clearAll unmarks).correlator = s.correlator := (s.clearAll_stores unmarks).2.2

end Clear

theorem get_dropConn (r : H2Registry) (key k : ConnKey) :
    (r.dropConn key.tgid key.fd).conns.get k = if k = key then none else r.conns.get k := by
  rw [H2Registry.dropConn]
  cases r.conns.get ⟨key.tgid,key.fd⟩ <;> exact FiniteMap.get_remove _ _ _

@[simp] theorem buffered_takeUnmark (r : Reassembler) (k : BufKey) (now : Instant) :
    r.takeUnmark.1.buffered k now = r.buffered k now := rfl

@[simp] theorem conns_takeUnmark (r : H2Registry) : r.takeUnmark.1.conns = r.conns := rfl

theorem socket_later (s : Agent) (k : ConnKey) {now later : Instant} (hle : now ≤ later) :
    s.socket k later = (s.socket k now).age later := by
  simp only [socket,Socket.age,← buffered_later s.reassembler _ hle,
    ← waiting_later s.correlator _ hle]

section Ingest

variable (s : Agent) (ev : SockIoEvent) (fromTls clientOnly : Bool) (now : Instant)

theorem demote_stores :
    (s.demote ev).1.reassembler = s.reassembler ∧ (s.demote ev).1.correlator = s.correlator := by
  rw [demote]
  split_ifs
  · exact ⟨clearAll_reassembler _ _,clearAll_correlator _ _⟩
  · exact ⟨rfl,rfl⟩

theorem demote_conns :
    (s.demote ev).1.h2.conns.get ev.connKey =
        (if (s.h2.conns.get ev.connKey).isSome && looksLikeHttp11 ev.chunk then none
          else s.h2.conns.get ev.connKey) ∧
      ∀ k, k ≠ ev.connKey → (s.demote ev).1.h2.conns.get k = s.h2.conns.get k := by
  have hdrop := get_dropConn s.h2 ev.connKey
  have hmarked : s.h2.isMarked ev.tgid ev.fd = (s.h2.conns.get ev.connKey).isSome := rfl
  rw [demote,hmarked]
  split_ifs
  · rw [clearAll_h2]
    exact ⟨(hdrop _).trans (if_pos rfl),fun k hk => (hdrop k).trans (if_neg hk)⟩
  · exact ⟨rfl,fun k _ => rfl⟩

theorem feedH2_socket (hroom : s.h2.conns.len < maxConns) :
    ((s.feedH2 ev clientOnly now).1.socket ev.connKey now,(s.feedH2 ev clientOnly now).2.out) =
      (s.socket ev.connKey now).http2 ev clientOnly now := by
  have hfeed := feed_self s.h2 ev now clientOnly hroom
  simp only [feedH2,socket,Socket.http2,clearAll_h2,clearAll_reassembler,clearAll_correlator,
    conns_takeUnmark,← hfeed]

theorem feedH2_other {k : ConnKey} (hk : k ≠ ev.connKey) :
    (s.feedH2 ev clientOnly now).1.socket k now = s.socket k now := by
  simp only [feedH2,socket,clearAll_h2,clearAll_reassembler,clearAll_correlator,conns_takeUnmark,
    feed_other s.h2 ev now clientOnly hk]

theorem observe_either (c : Correlator) :
    (if clientOnly then c.observeClient ev now else c.observe ev now) =
      c.observeInner ev now clientOnly := by
  cases clientOnly <;> rfl

theorem feedHttp1_socket :
    ((s.feedHttp1 ev fromTls clientOnly now).1.socket ev.connKey now,
        (s.feedHttp1 ev fromTls clientOnly now).2.out) =
      Socket.http1 (s.socket ev.connKey now) ev fromTls clientOnly now := by
  have hpush := push_socket s.reassembler ev now
  simp only [Socket.http1,socket]
  rw [show (fun dir : IoDir => s.reassembler.buffered ⟨ev.connKey.tgid,ev.connKey.fd,dir.toU8⟩ now) =
    fun dir => s.reassembler.buffered ⟨ev.tgid,ev.fd,dir.toU8⟩ now from rfl,← hpush]
  cases hwhole : (s.reassembler.push ev now).2 with
  | none =>
    simp only [feedHttp1,hwhole,clearAll_h2,clearAll_reassembler,clearAll_correlator,
      buffered_takeUnmark]
    rfl
  | some whole =>
    have hkey := push_key s.reassembler ev now whole hwhole
    simp only [feedHttp1,hwhole,clearAll_h2,clearAll_reassembler,clearAll_correlator,
      buffered_takeUnmark,observe_either,clearInflight_h2,clearInflight_reassembler,
      clearInflight_correlator]
    have hobs := observe_socket s.correlator whole now clientOnly
    rw [show (⟨whole.tgid,whole.fd⟩ : SockKey) = ⟨ev.connKey.tgid,ev.connKey.fd⟩ by
      rw [← hkey]; rfl] at hobs
    rw [← hobs]
    rfl

theorem feedHttp1_other {k : ConnKey} (hk : k ≠ ev.connKey) :
    (s.feedHttp1 ev fromTls clientOnly now).1.socket k now = s.socket k now := by
  have hbufs : ∀ dir : IoDir, (s.reassembler.push ev now).1.buffered ⟨k.tgid,k.fd,dir.toU8⟩ now =
      s.reassembler.buffered ⟨k.tgid,k.fd,dir.toU8⟩ now := fun dir =>
    push_other_socket s.reassembler ev now hk
  cases hwhole : (s.reassembler.push ev now).2 with
  | none =>
    simp only [feedHttp1,hwhole,socket,clearAll_h2,clearAll_reassembler,clearAll_correlator,
      buffered_takeUnmark,hbufs]
  | some whole =>
    have hkey := push_key s.reassembler ev now whole hwhole
    have hobs := observe_other_socket s.correlator whole now clientOnly (k := ⟨k.tgid,k.fd⟩)
      (hkey ▸ hk)
    simp only [feedHttp1,hwhole,socket,clearAll_h2,clearAll_reassembler,clearAll_correlator,
      buffered_takeUnmark,observe_either,clearInflight_h2,clearInflight_reassembler,
      clearInflight_correlator,hbufs,hobs]

theorem ingestHttpIo_key (allowed : Bool) :
    ∀ x ∈ (s.ingestHttpIo ev fromTls clientOnly now allowed).2.out, x.key = ev.connKey := by
  intro x hx
  simp only [ingestHttpIo] at hx
  split_ifs at hx with hdeny hh2
  · simp at hx
  · obtain ⟨y,hy,rfl⟩ := List.mem_map.mp hx
    exact feed_named _ ev now clientOnly y hy
  · simp only [feedHttp1] at hx
    cases hwhole : ((s.demote ev).1.reassembler.push ev now).2 with
    | none => simp [hwhole] at hx
    | some whole =>
      simp only [hwhole,observe_either,clearAll_correlator,clearInflight_correlator] at hx
      obtain ⟨y,hy,rfl⟩ := List.mem_map.mp hx
      exact (observe_key _ whole now clientOnly y (Option.mem_toList.mp hy)).trans
        (push_key _ ev now whole hwhole)

theorem demote_socket_self :
    (s.demote ev).1.socket ev.connKey now = (s.socket ev.connKey now).demote ev := by
  obtain ⟨hreasm,hcorr⟩ := s.demote_stores ev
  rw [socket,hreasm,hcorr,(s.demote_conns ev).1]
  rfl

theorem demote_socket_other {k : ConnKey} (hk : k ≠ ev.connKey) :
    (s.demote ev).1.socket k now = s.socket k now := by
  obtain ⟨hreasm,hcorr⟩ := s.demote_stores ev
  simp only [socket,hreasm,hcorr,(s.demote_conns ev).2 k hk]

theorem len_demote_le : (s.demote ev).1.h2.conns.len ≤ s.h2.conns.len := by
  rw [demote]
  split_ifs
  · simp only [clearAll_h2,conns_takeUnmark,H2Registry.dropConn]
    cases s.h2.conns.get ⟨ev.tgid,ev.fd⟩ <;> exact FiniteMap.len_remove_le _ _
  · exact le_rfl

/-- Below the connection limit a step does to the socket of its event what it does to one
alone. -/
theorem ingestHttpIo_self (allowed : Bool) (hroom : s.h2.conns.len < maxConns) :
    ((s.ingestHttpIo ev fromTls clientOnly now allowed).1.socket ev.connKey now,
        (s.ingestHttpIo ev fromTls clientOnly now allowed).2.out) =
      (s.socket ev.connKey now).ingest ev fromTls clientOnly now allowed := by
  by_cases hdeny : (!allowed) = true
  · simp only [ingestHttpIo,Socket.ingest,if_pos hdeny]
    simp only [socket,clearInflight_h2,clearInflight_reassembler,clearInflight_correlator]
    rw [show ev.tgid = ev.connKey.tgid from rfl,show ev.fd = ev.connKey.fd from rfl,get_dropConn,
      if_pos rfl]
  · have hdemote := s.demote_socket_self ev now
    have hmarked : (s.demote ev).1.h2.isMarked ev.tgid ev.fd =
        ((s.socket ev.connKey now).demote ev).conn.isSome := by
      rw [← hdemote]
      rfl
    simp only [ingestHttpIo,Socket.ingest,if_neg hdeny,hmarked]
    split_ifs with hh2
    · rw [← hdemote]
      exact (s.demote ev).1.feedH2_socket ev clientOnly now ((s.len_demote_le ev).trans_lt hroom)
    · rw [← hdemote]
      exact (s.demote ev).1.feedHttp1_socket ev fromTls clientOnly now

theorem ingestHttpIo_other (allowed : Bool) {k : ConnKey} (hk : k ≠ ev.connKey) :
    (s.ingestHttpIo ev fromTls clientOnly now allowed).1.socket k now = s.socket k now := by
  simp only [ingestHttpIo]
  split_ifs with hdeny hh2
  · simp only [socket,clearInflight_h2,clearInflight_reassembler,clearInflight_correlator]
    rw [show ev.tgid = ev.connKey.tgid from rfl,show ev.fd = ev.connKey.fd from rfl,get_dropConn,
      if_neg hk]
  · exact (feedH2_other _ ev clientOnly now hk).trans (s.demote_socket_other ev now hk)
  · exact (feedHttp1_other _ ev fromTls clientOnly now hk).trans (s.demote_socket_other ev now hk)

theorem tick_socket (k : ConnKey) (isLive : UInt32 → Int32 → Bool) :
    (s.tick now isLive).1.socket k now = (s.socket k now).tick now (isLive k.tgid k.fd) := by
  have hbufs : ∀ dir : IoDir,
      (s.reassembler.evictStale now).buffered ⟨k.tgid,k.fd,dir.toU8⟩ now =
        s.reassembler.buffered ⟨k.tgid,k.fd,dir.toU8⟩ now := fun dir =>
    buffered_of_get s.reassembler now (s.reassembler.get_evictStale now _)
  simp only [tick,socket,Socket.tick,clearAll_h2,clearAll_reassembler,clearAll_correlator,
    conns_takeUnmark,buffered_takeUnmark,hbufs,H2Registry.evictClosed,H2Registry.evictStale,
    H2Registry.retainConns,FiniteMap.get_retain]

end Ingest

end Agent

end ObsAgent
