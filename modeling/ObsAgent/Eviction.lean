import ObsAgent.Pairing
import ObsAgent.Socket

/-! How long an unanswered request is held.  A connection is evicted when it has been without an
event for the timeout; its requests have no timeout of their own. -/
namespace ObsAgent
namespace H2

open LastWrite

/-- The observations of an operation, at the instant they are fed. -/
def RegOp.stamp (seen : List Observation) : RegOp → List (Instant × Observation)
  | .feed _ now _ => seen.map (now,·)
  | _ => []

namespace H2Registry

/-- The connection and stream events of a run, with the instants they are fed at. -/
def timedHistory (r : H2Registry) : List RegOp → List (Instant × Observation)
  | [] => []
  | op :: ops => op.stamp (r.step op).2.seen ++ timedHistory (r.step op).1 ops

theorem timedHistory_history (r : H2Registry) (ops : List RegOp) :
    (r.timedHistory ops).map Prod.snd = r.history ops := by
  induction ops generalizing r with
  | nil => rfl
  | cons op ops ih =>
    rw [timedHistory,List.map_append,ih,history_cons]
    cases op <;> simp [RegOp.stamp,step,Reply.nothing,Function.comp_def]

end H2Registry

/-- The request `p` that waits on a stream was completed by an event fed at `t`. -/
def Asked (log : List (Instant × Observation)) (k : ConnKey) (sid : ℕ) (p : PendingStream)
    (t : Instant) : Prop :=
  ∃ i o, log[i]? = some (t,o) ∧ Since (Observation.effect k sid) (log.map Prod.snd) i p

theorem Tracks.asked {k : ConnKey} {streams : Streams} {log : List (Instant × Observation)}
    (h : Tracks k streams (log.map Prod.snd)) {sid : ℕ} {p : PendingStream}
    (hp : streams.get sid = some p) : ∃ t, Asked log k sid p t := by
  rw [h.get] at hp
  obtain ⟨⟨i,p⟩,hheld,rfl⟩ := Option.map_eq_some_iff.mp hp
  have hsince := held_eq_some_iff.mp hheld
  have hwrite := hsince.1
  obtain ⟨a,ha,-⟩ := hwrite
  rw [List.getElem?_map] at ha
  obtain ⟨⟨t,o⟩,hget,-⟩ := Option.map_eq_some_iff.mp ha
  exact ⟨t,i,o,hget,hsince⟩

/-- The operation brings octets to the connection at an instant. -/
def RegOp.FeedsAt (k : ConnKey) (t : Instant) : RegOp → Prop
  | .feed ev now _ =>
    ev.connKey = k ∧ now = t ∧ (IoDir.fromU8 ev.dir).isSome = true ∧ 0 ≤ ev.ret ∧ 0 < ev.plen
  | _ => False

theorem Moves.atTime {dir : IoDir} {ts : ℕ} {c c' : H2Conn} {e : Emitted}
    (h : Moves dir ts c c' e) : c'.atTime = c.atTime := by
  induction h with
  | pipe c p => cases dir <;> rfl
  | reset => rfl
  | block => rfl
  | trans _ _ ih ih' => exact ih'.trans ih

theorem feedConn_atTime {r : H2Registry} {conn c : H2Conn} {dir : IoDir} {ev : SockIoEvent}
    {now : Instant} {clientOnly : Bool}
    (hc : (r.feedConn ev.connKey conn dir ev now clientOnly).1.conns.get ev.connKey = some c) :
    c.atTime = now := by
  have hself := congrArg Prod.fst (feedConn_self r conn dir ev now clientOnly)
  have hmoves : Moves dir ev.tsNs {conn with atTime := now} _ _ :=
    pushBytes_moves {conn with atTime := now} ev.chunk
  rw [hc] at hself
  simp only [Socket.pushConn] at hself
  split_ifs at hself
  rw [Option.some.inj hself]
  exact hmoves.atTime

theorem feed_atTime {r : H2Registry} {ev : SockIoEvent} {dir : IoDir} {now : Instant}
    {clientOnly : Bool} (hdir : IoDir.fromU8 ev.dir = some dir)
    (hgo : ¬ (ev.ret < 0 ∨ ev.plen = 0)) {c : H2Conn}
    (hc : (r.feed ev now clientOnly).1.conns.get ev.connKey = some c) : c.atTime = now := by
  simp only [H2Registry.feed,hdir,if_neg hgo] at hc
  cases hconn : (r.forget ⟨ev.tgid,ev.fd⟩ ev.chunk).conns.get ⟨ev.tgid,ev.fd⟩ with
  | some conn =>
    simp only [hconn] at hc
    exact feedConn_atTime hc
  | none =>
    simp only [hconn] at hc
    split_ifs at hc
    · exact absurd (hc.symm.trans hconn) (by simp)
    · exact feedConn_atTime hc
    · exact absurd (hc.symm.trans hconn) (by simp)

/-- Every connection has the instant of an event of its socket. -/
def Stamped (ops : List RegOp) (r : H2Registry) : Prop :=
  ∀ k c, r.conns.get k = some c → ∃ op ∈ ops, op.FeedsAt k c.atTime

theorem Stamped.fewer {ops : List RegOp} {r r' : H2Registry} (h : Stamped ops r) (op : RegOp)
    (hconns : ∀ k c, r'.conns.get k = some c → r.conns.get k = some c) :
    Stamped (ops ++ [op]) r' := fun k c hc => by
  obtain ⟨op',hop,hfeeds⟩ := h k c (hconns k c hc)
  exact ⟨op',List.mem_append_left _ hop,hfeeds⟩

theorem Stamped.feed {ops : List RegOp} {r : H2Registry} (h : Stamped ops r) (ev : SockIoEvent)
    (now : Instant) (clientOnly : Bool) :
    Stamped (ops ++ [.feed ev now clientOnly]) (r.feed ev now clientOnly).1 := by
  cases hdir : IoDir.fromU8 ev.dir with
  | none => exact h.fewer _ fun k c hc => by simpa [H2Registry.feed,hdir] using hc
  | some dir =>
    by_cases hgo : ev.ret < 0 ∨ ev.plen = 0
    · exact h.fewer _ fun k c hc => by simpa only [H2Registry.feed,hdir,if_pos hgo] using hc
    intro k c hc
    by_cases hk : k = ev.connKey
    · subst hk
      refine ⟨_,List.mem_append_right _ (List.mem_singleton_self _),rfl,(feed_atTime hdir hgo hc).symm,
        by simp [hdir],by omega,by omega⟩
    · rw [feed_other r ev now clientOnly hk] at hc
      exact h.fewer _ (fun _ _ hc => hc) k c hc

theorem Stamped.step {ops : List RegOp} {r : H2Registry} (h : Stamped ops r) (op : RegOp) :
    Stamped (ops ++ [op]) (r.step op).1 := by
  cases op with
  | feed ev now clientOnly => exact h.feed ev now clientOnly
  | _ => exact h.fewer _ fun _ _ => get_of_step (by simp)

theorem Stamped.run {past : List RegOp} {r : H2Registry} (h : Stamped past r) (ops : List RegOp) :
    Stamped (past ++ ops) (r.run ops).1 := by
  induction ops generalizing past r with
  | nil => simpa [H2Registry.run] using h
  | cons op ops ih =>
    have hrest := ih (h.step op)
    rwa [List.append_assoc,List.singleton_append] at hrest

/-- A connection with a request fed longer than the timeout ago has itself been without octets
for longer than the timeout. -/
def QuietIfOverdue (ops : List RegOp) (now : Instant) : Prop :=
  ∀ k c, (H2Registry.default.run ops).1.conns.get k = some c →
    ∀ sid p t, c.streams.get sid = some p → Asked (H2Registry.default.timedHistory ops) k sid p t →
      t + timeout < now → ∀ op ∈ ops, ∀ t', op.FeedsAt k t' → t' + timeout < now

/-- A request header block on a connection, fed within the timeout. -/
def recentRequest (k : ConnKey) (now : Instant) (e : Instant × Observation) : Bool :=
  match e.2 with
  | .opened _ => false
  | .stream k' _ ev => k' = k && ev.accepted.isSome && decide (now ≤ e.1 + timeout)

theorem accepted_of_write {k : ConnKey} {sid : ℕ} {o : Observation} {p : PendingStream}
    (h : o.effect k sid = .write p) :
    ∃ cgroup ev, o = .stream k cgroup ev ∧ ev.streamId = sid ∧ ev.accepted = some p := by
  cases o with
  | opened k' =>
    simp only [Observation.effect] at h
    split_ifs at h
  | stream k' cgroup ev =>
    simp only [Observation.effect] at h
    split_ifs at h with hkey
    obtain ⟨rfl,rfl⟩ := hkey
    refine ⟨cgroup,ev,rfl,rfl,?_⟩
    simp only [StreamEvent.effect] at h
    split at h
    · rename_i req hreq
      rw [hreq,Effect.write.inj h]
    · split at h
      · simp at h
      · split_ifs at h

def Observation.streamId : Observation → Option ℕ
  | .opened _ => none
  | .stream _ _ ev => some ev.streamId

/-- A request fed within the timeout is in the log as such. -/
theorem Asked.recent {log : List (Instant × Observation)} {k : ConnKey} {sid : ℕ}
    {p : PendingStream} {t now : Instant} (h : Asked log k sid p t) (ht : now ≤ t + timeout) :
    some sid ∈ (log.filter (recentRequest k now)).map fun e => e.2.streamId := by
  obtain ⟨i,o,hget,⟨a,ha,hwrite⟩,-⟩ := h
  obtain rfl : o = a := by simpa [hget] using ha
  obtain ⟨cgroup,ev,rfl,rfl,haccepted⟩ := accepted_of_write hwrite
  refine List.mem_map.mpr ⟨_,List.mem_filter.mpr ⟨List.mem_of_getElem? hget,?_⟩,rfl⟩
  simpa [recentRequest,haccepted] using ht

theorem streams_le_requests {streams : Streams} {log : List (Option ℕ)}
    (h : ∀ sid p, streams.get sid = some p → some sid ∈ log) : streams.len ≤ log.length := by
  have hkeys : streams.keys.toFinset ⊆ (log.filterMap id).toFinset := fun sid hsid => by
    rw [List.mem_toFinset,FiniteMap.mem_keys_iff] at hsid
    obtain ⟨p,hp⟩ := Option.isSome_iff_exists.mp hsid
    exact List.mem_toFinset.mpr (List.mem_filterMap.mpr ⟨some sid,h sid p hp,rfl⟩)
  calc streams.len = streams.keys.toFinset.card := (FiniteMap.card_keys _).symm
    _ ≤ (log.filterMap id).toFinset.card := Finset.card_le_card hkeys
    _ ≤ (log.filterMap id).length := List.toFinset_card_le _
    _ ≤ log.length := List.length_filterMap_le _ _

theorem fresh_of_evictStale {r : H2Registry} {now : Instant} {k : ConnKey} {c : H2Conn}
    (hc : (r.evictStale now).conns.get k = some c) : now ≤ c.atTime + timeout := by
  simp only [H2Registry.evictStale,H2Registry.retainConns,FiniteMap.get_retain,
    Option.filter_eq_some_iff,durationSince] at hc
  exact Nat.sub_le_iff_le_add'.mp (of_decide_eq_true hc.2)

/-- Over every run, if connections with overdue requests are quiet, the requests that are held
behind an eviction were completed within the timeout, and a connection holds no more streams than
it had requests in that time. -/
theorem hung_requests_evicted (ops : List RegOp) (now : Instant) (hquiet : QuietIfOverdue ops now) :
    let log := H2Registry.default.timedHistory ops
    let r := ((H2Registry.default.run ops).1.step (.evictStale now)).1
    ∀ k c, r.conns.get k = some c →
      (∀ sid p, c.streams.get sid = some p → ∃ t, Asked log k sid p t ∧ now ≤ t + timeout) ∧
      c.streams.len ≤ (log.filter (recentRequest k now)).length := by
  intro log r k c hc
  have hstart : Follows H2Registry.default [] := fun k c hc => by simp [H2Registry.default] at hc
  have hfollows := hstart.run ops
  have hstamped : Stamped ([] ++ ops) (H2Registry.default.run ops).1 :=
    Stamped.run (fun k c hc => by simp [H2Registry.default] at hc) ops
  rw [List.nil_append] at hfollows hstamped
  have hbefore : (H2Registry.default.run ops).1.conns.get k = some c := get_of_retain hc
  have hfresh : now ≤ c.atTime + timeout := fresh_of_evictStale hc
  have hasked : ∀ sid p, c.streams.get sid = some p →
      ∃ t, Asked log k sid p t ∧ now ≤ t + timeout := by
    intro sid p hp
    have htracks := hfollows k c hbefore
    rw [← H2Registry.timedHistory_history] at htracks
    obtain ⟨t,hasked⟩ := htracks.asked hp
    refine ⟨t,hasked,?_⟩
    by_contra hold
    obtain ⟨op,hop,hfeeds⟩ := hstamped k c hbefore
    exact absurd hfresh (Nat.not_le.mpr
      (hquiet k c hbefore sid p t hp hasked (Nat.not_le.mp hold) op hop _ hfeeds))
  refine ⟨hasked,?_⟩
  rw [← List.length_map (f := fun e : Instant × Observation => e.2.streamId)]
  refine streams_le_requests fun sid p hp => ?_
  obtain ⟨t,ht,hrecent⟩ := hasked sid p hp
  exact ht.recent hrecent

def unanswered : List UInt8 := clientPreface ++ [0,0,4,1,4,0,0,0,1,0x82,0x44,0x01,0x2f]

/-- Two connections, each with one request that is not answered and nothing behind it. -/
def twoUnanswered : List RegOp :=
  [.feed (someSocket.moved .write unanswered 1) 0 false,
    .feed ({someSocket with fd := 4}.moved .write unanswered 2) 1 false]

def Observation.key : Observation → ConnKey
  | .opened k => k
  | .stream k _ _ => k

theorem twoUnanswered_quiet : QuietIfOverdue twoUnanswered (timeout + 1) := by
  intro k c _ sid p t _ hasked hlate op hop t' hfeeds
  have ht : t < 1 := Nat.lt_of_add_lt_add_right (Nat.add_comm timeout 1 ▸ hlate)
  obtain rfl := Nat.lt_one_iff.mp ht
  have hkey : k = ⟨42,3⟩ := by
    obtain ⟨i,o,hget,⟨a,ha,hwrite⟩,-⟩ := hasked
    obtain rfl : o = a := by simpa [hget] using ha
    obtain ⟨cgroup,ev,rfl,-,-⟩ := accepted_of_write hwrite
    have hfirst : ∀ e ∈ H2Registry.default.timedHistory twoUnanswered,
        e.1 = 0 → e.2.key = ⟨42,3⟩ := by decide +kernel
    exact hfirst _ (List.mem_of_getElem? hget) rfl
  subst hkey
  rcases List.mem_pair.mp hop with rfl | rfl
  · obtain ⟨-,rfl,-⟩ := hfeeds
    omega
  · exact absurd hfeeds.1 (by decide)

/-- The first request is overdue and goes with its quiet connection, the second is kept. -/
theorem hung_requests_evicted_within_timeout :
    let before := (H2Registry.default.run twoUnanswered).1
    let r := (before.step (.evictStale (timeout + 1))).1
    ((before.conns.get ⟨42,3⟩).bind fun c => c.streams.get 1).isSome = true ∧
      (r.conns.get ⟨42,3⟩).isNone = true ∧
      ∃ c sid p t, r.conns.get ⟨42,4⟩ = some c ∧ c.streams.get sid = some p ∧
        Asked (H2Registry.default.timedHistory twoUnanswered) ⟨42,4⟩ sid p t ∧
        timeout + 1 ≤ t + timeout := by
  intro before r
  have hheld : ((r.conns.get ⟨42,4⟩).bind fun c => c.streams.get 1).isSome = true := by
    decide +kernel
  obtain ⟨p,hp⟩ := Option.isSome_iff_exists.mp hheld
  obtain ⟨c,hc,hp⟩ := Option.bind_eq_some_iff.mp hp
  obtain ⟨t,hasked,ht⟩ :=
    (hung_requests_evicted twoUnanswered (timeout + 1) twoUnanswered_quiet _ c hc).1 1 p hp
  exact ⟨by decide +kernel,by decide +kernel,c,1,p,t,hc,hp,hasked,ht⟩

/-- The unanswered request at the start, and a SETTINGS frame after the timeout. -/
def unansweredThenSettings : List RegOp :=
  [.feed (someSocket.moved .write unanswered 1) 0 false,
    .feed (someSocket.moved .read [0,0,0,4,0,0,0,0,0] 2) timeout false]

/-- The request is held for longer than the timeout, since the connection is in use. -/
theorem busy_connection_keeps_hung_request :
    let ops := unansweredThenSettings
    let r := ((H2Registry.default.run ops).1.step (.evictStale (timeout + 1))).1
    ((r.conns.get ⟨42,3⟩).bind fun c => c.streams.get 1).isSome = true ∧
      ∀ e ∈ H2Registry.default.timedHistory ops, e.1 + timeout < timeout + 1 := by
  constructor <;> decide +kernel

end H2
end ObsAgent
