import ObsAgent.LastWrite
import ObsAgent.PushEffect
import ObsAgent.Registry

/-! Which status answers which request.  The history of a run is a log; the request that
waits on a stream of a connection is a register over this log, written by accepted
requests and cleared by statuses, resets and new incarnations.  The exchanges of a run are
the statuses that find the register written. -/
namespace ObsAgent
namespace H2

open LastWrite

namespace StreamEvent

def streamId : StreamEvent → ℕ
  | .block sid _ _ _ _ => sid
  | .reset sid => sid

/-- An accepted request: method, non-empty path, no status, not turned away. -/
def accepted : StreamEvent → Option PendingStream
  | .block _ dir p ts refused =>
    match p.status, p.method, p.path with
    | none, some method, some path =>
      if path ≠ "" ∧ refused = false then some ⟨method,path,ts,dir⟩ else none
    | _, _, _ => none
  | .reset _ => none

def hasStatus : StreamEvent → Bool
  | .block _ _ p _ _ => p.status.isSome
  | .reset _ => false

/-- What an event does to the request that waits on its stream. -/
def effect (e : StreamEvent) : Effect PendingStream :=
  match e.accepted with
  | some req => .write req
  | none =>
    match e with
    | .reset _ => .clear
    | .block .. => if e.hasStatus then .clear else .keep

end StreamEvent

/-- What an observation does to the request that waits on one stream of one connection. -/
def Observation.effect (k : ConnKey) (sid : ℕ) : Observation → Effect PendingStream
  | .opened k' => if k' = k then .clear else .keep
  | .stream k' _ e => if k' = k ∧ e.streamId = sid then e.effect else .keep

/-- The exchange of a request and its status. -/
def exchangeOf (k : ConnKey) (cgroupId sid : ℕ) (req : PendingStream) (status tsNs : ℕ) :
    H2Exchange where
  tgid := k.tgid
  fd := k.fd
  streamId := sid
  method := req.method
  path := req.path
  status := status
  tStartNs := req.tStartNs
  tEndNs := tsNs
  protocol := classifyProtocol req.path
  reqDir := req.reqDir
  cgroupId := cgroupId

/-- At `j` a status arrives on a stream whose latest event of this incarnation, among
accepted requests, statuses and resets, is the accepted request at `i`. -/
def Pairs (h : List Observation) (i j : ℕ) (x : H2Exchange) : Prop :=
  ∃ k cgroup sid dir p ts refused status req,
    h[j]? = some (.stream k cgroup (.block sid dir p ts refused)) ∧ p.status = some status ∧
    Since (Observation.effect k sid) (h.take j) i req ∧ x = exchangeOf k cgroup sid req status ts

/-- The pairing an observation completes. -/
def pairing (past : List Observation) : Observation → Option (ℕ × ℕ × H2Exchange)
  | .stream k cgroup (.block sid _ p ts _) =>
    p.status.bind fun status =>
      (held (Observation.effect k sid) past).map fun q =>
        (q.1,past.length,exchangeOf k cgroup sid q.2 status ts)
  | _ => none

def pairings (past : List Observation) : List Observation → List (ℕ × ℕ × H2Exchange)
  | [] => []
  | o :: os => (pairing past o).toList ++ pairings (past ++ [o]) os

theorem pairings_append (past xs ys : List Observation) :
    pairings past (xs ++ ys) = pairings past xs ++ pairings (past ++ xs) ys := by
  induction xs generalizing past with
  | nil => simp [pairings]
  | cons o xs ih => simp [pairings,ih]

theorem pairing_eq_some_iff {h past : List Observation} {o : Observation} {rest : List Observation}
    {i j : ℕ} {x : H2Exchange} (hh : h = past ++ o :: rest) :
    pairing past o = some (i,j,x) ↔ j = past.length ∧ Pairs h i j x := by
  have hget : h[past.length]? = some o := by simp [hh]
  have htake : h.take past.length = past := by simp [hh]
  constructor
  · intro hp
    cases o with
    | opened k => simp [pairing] at hp
    | stream k cgroup e =>
      cases e with
      | reset sid => simp [pairing] at hp
      | block sid dir p ts refused =>
        obtain ⟨status,hstatus,hp⟩ := Option.bind_eq_some_iff.mp hp
        obtain ⟨⟨i',req⟩,hheld,hx⟩ := Option.map_eq_some_iff.mp hp
        simp only [Prod.mk.injEq] at hx
        obtain ⟨rfl,rfl,rfl⟩ := hx
        refine ⟨rfl,k,cgroup,sid,dir,p,ts,refused,status,req,hget,hstatus,?_,rfl⟩
        rw [htake]
        exact held_eq_some_iff.mp hheld
  · rintro ⟨rfl,k,cgroup,sid,dir,p,ts,refused,status,req,hj,hstatus,hsince,rfl⟩
    rw [hget] at hj
    rw [htake] at hsince
    obtain rfl := Option.some.inj hj
    simp [pairing,hstatus,held_eq_some_iff.mpr hsince]

theorem mem_pairings_iff {h past os : List Observation} (hh : h = past ++ os) {i j : ℕ}
    {x : H2Exchange} : (i,j,x) ∈ pairings past os ↔ past.length ≤ j ∧ Pairs h i j x := by
  induction os generalizing past with
  | nil =>
    simp only [pairings,List.not_mem_nil,false_iff,not_and]
    rintro hj ⟨k,cgroup,sid,dir,p,ts,refused,status,req,hget,-⟩
    have := (List.getElem?_eq_some_iff.mp hget).1
    simp [hh] at this
    omega
  | cons o os ih =>
    have hh' : h = past ++ [o] ++ os := by simp [hh]
    rw [pairings,List.mem_append,Option.mem_toList,pairing_eq_some_iff hh,ih hh']
    simp only [List.length_append,List.length_singleton]
    constructor
    · rintro (⟨rfl,hp⟩ | ⟨hj,hp⟩)
      · exact ⟨le_rfl,hp⟩
      · exact ⟨by omega,hp⟩
    · rintro ⟨hj,hp⟩
      rcases Nat.eq_or_lt_of_le hj with rfl | hlt
      · exact Or.inl ⟨rfl,hp⟩
      · exact Or.inr ⟨hlt,hp⟩

theorem pairings_sorted (past os : List Observation) :
    (pairings past os).Pairwise fun a b => a.2.1 < b.2.1 := by
  induction os generalizing past with
  | nil => exact List.Pairwise.nil
  | cons o os ih =>
    refine List.pairwise_append.mpr ⟨by cases pairing past o <;> simp,ih _,?_⟩
    rintro ⟨i,j,x⟩ ha ⟨i',j',x'⟩ hb
    obtain ⟨rfl,-⟩ := (pairing_eq_some_iff (show past ++ [o] = past ++ o :: [] from rfl)).mp
      (Option.mem_toList.mp ha)
    obtain ⟨hj,-⟩ := (mem_pairings_iff rfl).mp hb
    simpa using hj

theorem Pairs.unique {h : List Observation} {i j j' : ℕ} {x x' : H2Exchange} (hp : Pairs h i j x)
    (hp' : Pairs h i j' x') : j = j' := by
  have hlt : ∀ {j j' : ℕ} {x x' : H2Exchange}, Pairs h i j x → Pairs h i j' x' → ¬ j < j' := by
    rintro j j' x x' ⟨k,cgroup,sid,dir,p,ts,refused,status,req,hj,hstatus,⟨⟨a,ha,hw⟩,-⟩,-⟩
      ⟨k',cgroup',sid',dir',p',ts',refused',status',req',-,-,⟨⟨a',ha',hw'⟩,hkeep⟩,-⟩ hjj
    have hi : i < j := by
      have := (List.getElem?_eq_some_iff.mp ha).1
      simp only [List.length_take] at this
      omega
    obtain rfl : a = a' := by
      rw [List.getElem?_take_of_lt hi] at ha
      rw [List.getElem?_take_of_lt (by omega)] at ha'
      exact Option.some.inj (ha.symm.trans ha')
    have hslot : k = k' ∧ sid = sid' := by
      cases a with
      | opened k₀ => simp only [Observation.effect] at hw; split_ifs at hw
      | stream k₀ c e =>
        simp only [Observation.effect] at hw hw'
        split_ifs at hw hw' with h1 h2
        exact ⟨h1.1.symm.trans h2.1,h1.2.symm.trans h2.2⟩
    obtain ⟨rfl,rfl⟩ := hslot
    have hclear := hkeep j _ hi (by rw [List.getElem?_take_of_lt hjj,hj])
    simp [Observation.effect,StreamEvent.streamId,StreamEvent.effect,StreamEvent.accepted,
      StreamEvent.hasStatus,hstatus] at hclear
  rcases Nat.lt_trichotomy j j' with h | h | h
  · exact absurd h (hlt hp hp')
  · exact h
  · exact absurd h (hlt hp' hp)

/-- The streams of a connection against the history. -/
structure Tracks (k : ConnKey) (streams : Streams) (h : List Observation) : Prop where
  get : ∀ sid, streams.get sid = (held (Observation.effect k sid) h).map (·.2)
  path : ∀ sid p, streams.get sid = some p → p.path ≠ ""

theorem Tracks.other {k k' : ConnKey} {streams : Streams} {h : List Observation}
    (ht : Tracks k' streams h) (hne : k ≠ k') (cgroup : ℕ) (es : List StreamEvent) :
    Tracks k' streams (h ++ es.map (.stream k cgroup)) := by
  refine ⟨fun sid => ?_,ht.path⟩
  rw [ht.get,held_append_keep]
  intro o ho
  obtain ⟨e,-,rfl⟩ := List.mem_map.mp ho
  simp [Observation.effect,hne]

theorem tracks_opened (k : ConnKey) (h : List Observation) : Tracks k ∅ (h ++ [.opened k]) := by
  refine ⟨fun sid => ?_,fun sid p hp => by simp at hp⟩
  rw [held_concat]
  simp [Observation.effect,Effect.update]

theorem Tracks.other_opened {k k' : ConnKey} {streams : Streams} {h : List Observation}
    (ht : Tracks k' streams h) (hne : k ≠ k') : Tracks k' streams (h ++ [.opened k]) := by
  refine ⟨fun sid => ?_,ht.path⟩
  rw [ht.get,held_append_keep]
  simp [Observation.effect,hne]

/-- An event that does to the streams what it does to the registers. -/
theorem Tracks.event {k : ConnKey} {streams streams' : Streams} {h : List Observation}
    (ht : Tracks k streams h) (cgroup : ℕ) (e : StreamEvent)
    (hother : ∀ sid, sid ≠ e.streamId → streams'.get sid = streams.get sid)
    (hself : ∀ i, ((e.effect.update (held (Observation.effect k e.streamId) h) i).map (·.2)) =
      streams'.get e.streamId)
    (hpath : ∀ p, streams'.get e.streamId = some p → p.path ≠ "") :
    Tracks k streams' (h ++ [.stream k cgroup e]) := by
  constructor
  · intro sid
    rw [held_concat]
    by_cases hs : e.streamId = sid
    · subst hs
      simp only [Observation.effect,and_self,if_true]
      exact (hself _).symm
    · rw [hother sid (Ne.symm hs),ht.get]
      simp [Observation.effect,hs,Effect.update]
  · intro sid p hp
    by_cases hs : sid = e.streamId
    · subst hs
      exact hpath p hp
    · rw [hother sid hs] at hp
      exact ht.path sid p hp

theorem Tracks.reset {k : ConnKey} {streams : Streams} {h : List Observation}
    (ht : Tracks k streams h) (cgroup sid : ℕ) :
    Tracks k (streams.remove sid) (h ++ [.stream k cgroup (.reset sid)]) := by
  refine ht.event cgroup (.reset sid) (fun s hs => ?_) (fun i => ?_) (fun p hp => ?_)
  · rw [FiniteMap.get_remove]
    exact if_neg hs
  · simp [StreamEvent.effect,StreamEvent.accepted,Effect.update,StreamEvent.streamId]
  · simp [StreamEvent.streamId] at hp

/-- What the caller of `push_bytes` fills in. -/
def named (k : ConnKey) (cgroupId : ℕ) (x : H2Exchange) : H2Exchange :=
  {x with tgid := k.tgid, fd := k.fd, cgroupId := cgroupId}

/-- A step of the connection against the history: the registers follow the streams, the
exchanges are the pairings, and every status is paired or counted. -/
structure Accounts (k : ConnKey) (cgroup : ℕ) (h : List Observation) (streams : Streams)
    (e : Emitted) : Prop where
  tracks : Tracks k streams (h ++ e.events.map (.stream k cgroup))
  out : e.out.map (named k cgroup) =
    (pairings h (e.events.map (.stream k cgroup))).map (·.2.2)
  statuses : e.outcome.headersResp = e.out.length + e.outcome.unpairedStatus

section

variable {k : ConnKey} {streams : Streams} {h : List Observation}

theorem Tracks.status (ht : Tracks k streams h) (cgroup : ℕ) (dir : IoDir) (sid : ℕ)
    (p : Hpack.Pseudo) (ts : ℕ) {status : ℕ} (hp : p.status = some status) :
    Accounts k cgroup h (pairBlock streams dir sid p ts).1 (pairBlock streams dir sid p ts).2 := by
  have hcleared : Tracks k (streams.remove sid)
      (h ++ [.stream k cgroup (.block sid dir p ts false)]) := by
    refine ht.event cgroup (.block sid dir p ts false) (fun s hs => ?_) (fun i => ?_)
      (fun q hq => ?_)
    · rw [FiniteMap.get_remove]
      exact if_neg hs
    · simp [StreamEvent.effect,StreamEvent.accepted,StreamEvent.hasStatus,hp,Effect.update,
        StreamEvent.streamId]
    · simp [StreamEvent.streamId] at hq
  have hget := ht.get sid
  simp only [pairBlock,hp]
  cases hs : streams.get sid with
  | none =>
    have hheld : held (Observation.effect k sid) h = none := by simpa [hs] using hget.symm
    exact ⟨hcleared,by simp [pairings,pairing,hp,hheld],rfl⟩
  | some pending =>
    obtain ⟨⟨i,req⟩,hheld,rfl⟩ := Option.map_eq_some_iff.mp (hget.symm.trans hs)
    have hne : ¬ req.path = "" := ht.path sid _ hs
    simp only [if_neg hne]
    exact ⟨hcleared,by simp [pairings,pairing,hp,hheld,named,exchangeOf],rfl⟩

theorem Tracks.ignored (ht : Tracks k streams h) (cgroup : ℕ) {dir : IoDir} {sid ts : ℕ}
    {p : Hpack.Pseudo} {refused : Bool} (hp : p.status = none)
    (ha : (StreamEvent.block sid dir p ts refused).accepted = none) {o : FrameOutcome}
    (ho : o.headersResp = 0 ∧ o.unpairedStatus = 0) :
    Accounts k cgroup h streams ⟨[],o,[.block sid dir p ts refused]⟩ := by
  refine ⟨ht.event cgroup (.block sid dir p ts refused) (fun _ _ => rfl) (fun i => ?_)
    (fun q hq => ht.path _ q hq),by simp [pairings,pairing,hp],by simp [ho]⟩
  rw [ht.get]
  simp [StreamEvent.effect,ha,StreamEvent.hasStatus,hp,Effect.update]

theorem Tracks.block (ht : Tracks k streams h) (cgroup : ℕ) (dir : IoDir) (sid : ℕ)
    (p : Hpack.Pseudo) (ts : ℕ) :
    Accounts k cgroup h (pairBlock streams dir sid p ts).1 (pairBlock streams dir sid p ts).2 := by
  cases hp : p.status with
  | some status => exact ht.status cgroup dir sid p ts hp
  | none =>
    simp only [pairBlock,hp]
    cases hm : p.method with
    | none => exact ht.ignored cgroup hp (by simp [StreamEvent.accepted,hp,hm]) ⟨rfl,rfl⟩
    | some method =>
      cases hpath : p.path.filter (fun p => decide (p ≠ "")) with
      | none =>
        refine ht.ignored cgroup hp ?_ ⟨rfl,rfl⟩
        cases hp' : p.path with
        | none => simp [StreamEvent.accepted,hp,hm,hp']
        | some path =>
          have hempty : path = "" := by simpa [hp'] using hpath
          simp [StreamEvent.accepted,hp,hm,hp',hempty]
      | some path =>
        obtain ⟨hp',hne⟩ := Option.filter_eq_some_iff.mp hpath
        have hne' : path ≠ "" := by simpa using hne
        dsimp only
        split_ifs
        · exact ht.ignored cgroup hp (by simp [StreamEvent.accepted,hp,hm,hp']) ⟨rfl,rfl⟩
        · refine ⟨ht.event cgroup (.block sid dir p ts false) (fun s hs => ?_) (fun i => ?_)
            (fun q hq => ?_),by simp [pairings,pairing,hp],rfl⟩
          · rw [FiniteMap.get_put]
            exact if_neg hs
          · simp [StreamEvent.effect,StreamEvent.accepted,hp,hm,hp',hne',Effect.update,
              StreamEvent.streamId]
          · simp only [StreamEvent.streamId,FiniteMap.get_put_self,Option.some.injEq] at hq
            rw [← hq]
            exact hne'

/-- Every move of a connection is accounted for. -/
theorem Moves.accounts {dir : IoDir} {ts : ℕ} {c c' : H2Conn} {e : Emitted}
    (hm : Moves dir ts c c' e) (cgroup : ℕ) (ht : Tracks k c.streams h) :
    Accounts k cgroup h c'.streams e := by
  induction hm generalizing h with
  | pipe c p goaway desync lost =>
    exact ⟨by simpa [Emitted.counted] using ht,by simp [Emitted.counted,pairings],rfl⟩
  | reset c sid => exact ⟨ht.reset cgroup sid,by simp [pairings,pairing],rfl⟩
  | block c decoded _ => exact ht.block cgroup dir _ decoded ts
  | trans _ _ ih ih' =>
    have h₁ := ih ht
    have h₂ := ih' h₁.tracks
    refine ⟨?_,?_,?_⟩
    · simpa using h₂.tracks
    · rw [Emitted.out_append,Emitted.events_append,List.map_append,List.map_append,h₁.out,h₂.out,
        pairings_append,List.map_append]
    · have h3 := h₁.statuses
      have h4 := h₂.statuses
      simp only [Emitted.outcome_append,mergeOutcome,Emitted.out_append,List.length_append]
      omega

end

/-- The streams of every connection against the history. -/
def Follows (r : H2Registry) (h : List Observation) : Prop :=
  ∀ k c, r.conns.get k = some c → Tracks k c.streams h

theorem Follows.fewer {r r' : H2Registry} {h : List Observation} (hr : Follows r h)
    (hconns : ∀ k c, r'.conns.get k = some c → r.conns.get k = some c) : Follows r' (h ++ []) := by
  rw [List.append_nil]
  exact fun k c hc => hr k c (hconns k c hc)

theorem get_of_drop {r : H2Registry} {key k : ConnKey} {c : H2Conn}
    (hc : (r.conns.remove key).get k = some c) : r.conns.get k = some c := by
  rw [FiniteMap.get_remove] at hc
  split_ifs at hc
  exact hc

theorem get_of_forget {r : H2Registry} {key k : ConnKey} {chunk : List UInt8} {c : H2Conn}
    (hc : (r.forget key chunk).conns.get k = some c) : r.conns.get k = some c := by
  simp only [H2Registry.forget] at hc
  split_ifs at hc
  · exact get_of_drop hc
  · exact hc

theorem get_of_retain {r : H2Registry} {keep : ConnKey → H2Conn → Bool} {k : ConnKey} {c : H2Conn}
    (hc : (r.retainConns keep).conns.get k = some c) : r.conns.get k = some c := by
  simp only [H2Registry.retainConns,FiniteMap.get_retain,Option.filter_eq_some_iff] at hc
  exact hc.1

theorem get_of_step {r : H2Registry} {op : RegOp}
    (hop : ∀ ev now clientOnly, op ≠ .feed ev now clientOnly) {k : ConnKey} {c : H2Conn}
    (hc : (r.step op).1.conns.get k = some c) : r.conns.get k = some c := by
  cases op with
  | feed ev now clientOnly => exact absurd rfl (hop ev now clientOnly)
  | dropConn tgid fd =>
    simp only [H2Registry.step,H2Registry.dropConn] at hc
    split at hc <;> exact get_of_drop hc
  | evictStale now => exact get_of_retain hc
  | evictClosed isLive => exact get_of_retain hc
  | takeUnmark => exact hc

theorem follows_feedConn (r : H2Registry) (ev : SockIoEvent) (conn : H2Conn) {h : List Observation}
    (hothers : ∀ k c, ⟨ev.tgid,ev.fd⟩ ≠ k → r.conns.get k = some c → Tracks k c.streams h)
    (hconn : Tracks ⟨ev.tgid,ev.fd⟩ conn.streams h) (dir : IoDir) (now : Instant)
    (clientOnly : Bool) :
    Follows (r.feedConn ⟨ev.tgid,ev.fd⟩ conn dir ev now clientOnly).1
      (h ++ (r.feedConn ⟨ev.tgid,ev.fd⟩ conn dir ev now clientOnly).2.seen) := by
  have hmoves : Moves dir ev.tsNs {conn with atTime := now} _ _ :=
    pushBytes_moves {conn with atTime := now} ev.chunk
  have hacc := hmoves.accounts ev.cgroupId hconn
  generalize hq : pushBytes {conn with atTime := now} dir ev.chunk ev.tsNs = q at hacc
  have hseen : (r.feedConn ⟨ev.tgid,ev.fd⟩ conn dir ev now clientOnly).2.seen =
      q.2.events.map (.stream ⟨ev.tgid,ev.fd⟩ ev.cgroupId) := by
    simp only [H2Registry.feedConn,hq]
  intro k c hc
  rw [hseen]
  simp only [H2Registry.feedConn,hq] at hc
  by_cases hk : (⟨ev.tgid,ev.fd⟩ : ConnKey) = k
  · subst hk
    split_ifs at hc
    · simp at hc
    · rw [FiniteMap.get_put_self] at hc
      rw [← Option.some.inj hc]
      exact hacc.tracks
  · refine (hothers k c hk ?_).other hk _ _
    split_ifs at hc
    · rwa [FiniteMap.get_remove,if_neg (Ne.symm hk)] at hc
    · rwa [FiniteMap.get_put,if_neg (Ne.symm hk)] at hc

theorem Follows.feed {r : H2Registry} {h : List Observation} (hr : Follows r h) (ev : SockIoEvent)
    (now : Instant) (clientOnly : Bool) :
    Follows (r.feed ev now clientOnly).1 (h ++ (r.feed ev now clientOnly).2.seen) := by
  have hforget : Follows (r.forget ⟨ev.tgid,ev.fd⟩ ev.chunk) h :=
    fun k c hc => hr k c (get_of_forget hc)
  have hfed := H2Registry.feed_fed r ev now clientOnly
  generalize r.feed ev now clientOnly = q at hfed ⊢
  cases hfed with
  | ignored => exact hr.fewer fun _ _ hc => hc
  | foreign => exact hforget.fewer fun _ _ hc => hc
  | full hr' _ =>
    rw [hr'] at hforget
    exact hforget.fewer fun _ _ hc => hc
  | known hr' hconn =>
    rw [hr'] at hforget
    exact follows_feedConn _ ev _ (fun k c _ hc => hforget k c hc) (hforget _ _ hconn) _ now clientOnly
  | @opened r' dir q hr' _ _ hq =>
    rw [hr'] at hforget
    have hfeed := follows_feedConn {r' with conns := r'.conns.put ⟨ev.tgid,ev.fd⟩ (.new now)} ev
      (.new now) (fun k c hk hc => (hforget k c (by
        rwa [FiniteMap.get_put,if_neg (Ne.symm hk)] at hc)).other_opened hk)
      (tracks_opened ⟨ev.tgid,ev.fd⟩ h) dir now clientOnly
    rw [hq] at hfeed
    simpa using hfeed

theorem Follows.step {r : H2Registry} {h : List Observation} (hr : Follows r h) (op : RegOp) :
    Follows (r.step op).1 (h ++ (r.step op).2.seen) := by
  cases op with
  | feed ev now clientOnly => exact hr.feed ev now clientOnly
  | _ => exact hr.fewer fun _ _ => get_of_step (by simp)

theorem Follows.run {r : H2Registry} {h : List Observation} (hr : Follows r h) (ops : List RegOp) :
    Follows (r.run ops).1 (h ++ r.history ops) := by
  induction ops generalizing r h with
  | nil => simpa [H2Registry.history,H2Registry.run] using hr
  | cons op ops ih =>
    rw [H2Registry.history_cons,← List.append_assoc]
    exact ih (hr.step op)

/-- Every status that came is that of an exchange or counted as unpaired. -/
def H2Registry.CountsStatuses (r : H2Registry) : Prop :=
  r.stats.headersResp = r.stats.exchanges + r.stats.unpairedStatus

theorem H2Registry.CountsStatuses.forget {r : H2Registry} (h : r.CountsStatuses) (key : ConnKey)
    (chunk : List UInt8) : (r.forget key chunk).CountsStatuses := by
  rw [H2Registry.forget]
  split_ifs <;> exact h

/-- An operation against the history: its exchanges are the pairings it completes. -/
def Extends (h : List Observation) (q : H2Registry × Reply) : Prop :=
  q.1.CountsStatuses ∧ q.2.out = (pairings h q.2.seen).map (·.2.2)

theorem extends_feedConn {r : H2Registry} (hr : r.CountsStatuses) (ev : SockIoEvent) (conn : H2Conn)
    {h : List Observation} (hconn : Tracks ⟨ev.tgid,ev.fd⟩ conn.streams h) (dir : IoDir)
    (now : Instant) : Extends h (r.feedConn ⟨ev.tgid,ev.fd⟩ conn dir ev now false) := by
  have hmoves : Moves dir ev.tsNs {conn with atTime := now} _ _ :=
    pushBytes_moves {conn with atTime := now} ev.chunk
  have hacc := hmoves.accounts ev.cgroupId hconn
  generalize hq : pushBytes {conn with atTime := now} dir ev.chunk ev.tsNs = q at hacc
  have hout : (r.feedConn ⟨ev.tgid,ev.fd⟩ conn dir ev now false).2.out =
      q.2.out.map (named ⟨ev.tgid,ev.fd⟩ ev.cgroupId) := by
    simp only [H2Registry.feedConn,hq]
    rfl
  have hseen : (r.feedConn ⟨ev.tgid,ev.fd⟩ conn dir ev now false).2.seen =
      q.2.events.map (.stream ⟨ev.tgid,ev.fd⟩ ev.cgroupId) := by
    simp only [H2Registry.feedConn,hq]
  constructor
  · have hst := hacc.statuses
    simp only [H2Registry.CountsStatuses] at hr
    simp only [H2Registry.CountsStatuses,H2Registry.feedConn,hq,Bool.false_eq_true,if_false,
      List.length_map]
    omega
  · rw [hout,hseen]
    exact hacc.out

theorem extends_feed {r : H2Registry} {h : List Observation} (hfollows : Follows r h)
    (hr : r.CountsStatuses) (ev : SockIoEvent) (now : Instant) :
    Extends h (r.feed ev now false) := by
  have hforget := hr.forget ⟨ev.tgid,ev.fd⟩ ev.chunk
  have hfed := H2Registry.feed_fed r ev now false
  generalize r.feed ev now false = q at hfed ⊢
  cases hfed with
  | ignored => exact ⟨hr,rfl⟩
  | foreign => exact ⟨hforget,rfl⟩
  | full hr' _ =>
    rw [hr'] at hforget
    exact ⟨hforget,rfl⟩
  | known hr' hconn =>
    rw [← hr'] at hconn
    rw [hr'] at hforget
    exact extends_feedConn hforget ev _ (hfollows _ _ (get_of_forget hconn)) _ now
  | @opened r' dir q hr' _ _ hq =>
    rw [hr'] at hforget
    have hput : ({r' with conns := r'.conns.put ⟨ev.tgid,ev.fd⟩ (.new now)} :
        H2Registry).CountsStatuses := hforget
    obtain ⟨hstats,hout⟩ :=
      extends_feedConn hput ev (.new now) (tracks_opened ⟨ev.tgid,ev.fd⟩ h) dir now
    rw [hq] at hstats hout
    exact ⟨hstats,by simpa [pairings,pairing] using hout⟩

def RegOp.bothRoles : RegOp → Prop
  | .feed _ _ clientOnly => clientOnly = false
  | _ => True

theorem extends_step {r : H2Registry} {h : List Observation} (hfollows : Follows r h)
    (hr : r.CountsStatuses) {op : RegOp} (hop : op.bothRoles) : Extends h (r.step op) := by
  cases op with
  | feed ev now clientOnly =>
    obtain rfl : clientOnly = false := hop
    exact extends_feed hfollows hr ev now
  | dropConn tgid fd =>
    simp only [H2Registry.step,H2Registry.dropConn]
    split <;> exact ⟨hr,rfl⟩
  | evictStale now => exact ⟨hr,rfl⟩
  | evictClosed isLive => exact ⟨hr,rfl⟩
  | takeUnmark => exact ⟨hr,rfl⟩

theorem extends_run {ops : List RegOp} {r : H2Registry} {h : List Observation}
    (hfollows : Follows r h) (hr : r.CountsStatuses) (hops : ∀ op ∈ ops, op.bothRoles) :
    (r.run ops).1.CountsStatuses ∧ r.exchanges ops = (pairings h (r.history ops)).map (·.2.2) := by
  induction ops generalizing r h with
  | nil => exact ⟨hr,rfl⟩
  | cons op ops ih =>
    obtain ⟨hop,hops⟩ := List.forall_mem_cons.mp hops
    obtain ⟨hstats,hout⟩ := extends_step hfollows hr hop
    obtain ⟨hrun,hrest⟩ := ih (hfollows.step op) hstats hops
    rw [H2Registry.exchanges_cons,H2Registry.history_cons,pairings_append,List.map_append,hout,hrest]
    exact ⟨hrun,rfl⟩

/-- The exchanges of a run are the statuses whose stream last saw an accepted request, in
order; no request is used twice, and every status is paired or counted as unpaired. -/
theorem exchanges_are_pairings (ops : List RegOp) (hops : ∀ op ∈ ops, op.bothRoles) :
    let h := H2Registry.default.history ops
    ∃ ps : List (ℕ × ℕ × H2Exchange),
      H2Registry.default.exchanges ops = ps.map (·.2.2) ∧
      (∀ i j x, (i,j,x) ∈ ps ↔ Pairs h i j x) ∧
      ps.Pairwise (fun a b => a.2.1 < b.2.1) ∧ (ps.map (·.1)).Nodup ∧
      let stats := (H2Registry.default.run ops).1.stats
      stats.headersResp = stats.exchanges + stats.unpairedStatus := by
  intro h
  have hstart : Follows H2Registry.default [] := fun k c hc => by simp [H2Registry.default] at hc
  obtain ⟨hrun,hout⟩ := extends_run hstart rfl hops
  have hmem : ∀ i j x, (i,j,x) ∈ pairings [] h ↔ Pairs h i j x := fun i j x => by
    rw [mem_pairings_iff (List.nil_append h).symm]
    simp
  refine ⟨pairings [] h,hout,hmem,pairings_sorted [] h,?_,hrun⟩
  refine List.pairwise_map.mpr ((pairings_sorted [] h).imp_of_mem ?_)
  rintro ⟨i,j,x⟩ ⟨i',j',x'⟩ ha hb hlt rfl
  exact absurd (((hmem i j x).mp ha).unique ((hmem i j' x').mp hb)) (Nat.ne_of_lt hlt)

def requestThenStatus : List RegOp :=
  [.feed (someSocket.moved .write (clientPreface ++ [0,0,5,1,4,0,0,0,1,0x83,0x04,2,0x2f,0x61]) 1) 0 false,
    .feed (someSocket.moved .read [0,0,1,1,4,0,0,0,1,0x88] 2) 0 false]

theorem exchanges_are_pairings_one_request :
    ∃ i j x, Pairs (H2Registry.default.history requestThenStatus) i j x := by
  obtain ⟨ps,hout,hpairs,-⟩ := exchanges_are_pairings requestThenStatus
    (by simp [requestThenStatus,RegOp.bothRoles])
  have hlen : (H2Registry.default.exchanges requestThenStatus).length = 1 := by decide +kernel
  rw [hout,List.length_map] at hlen
  obtain ⟨⟨i,j,x⟩,rfl⟩ := List.length_eq_one_iff.mp hlen
  exact ⟨i,j,x,(hpairs i j x).mp (by simp)⟩

end H2
end ObsAgent
