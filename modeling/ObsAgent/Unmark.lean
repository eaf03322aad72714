import ObsAgent.Bounds

/-! The accounts of the unmark list: every connection that the registry loses is reported to the
kernel map once, except one that a new preface replaces. -/
namespace ObsAgent
namespace H2

def Observation.opens (key : ConnKey) : Observation → Bool
  | .opened k => k = key
  | .stream _ _ _ => false

def Reply.openings (q : Reply) (key : ConnKey) : ℕ := q.seen.countP (Observation.opens key)

/-- An event that `feed` takes up. -/
def takenUp (ev : SockIoEvent) : Bool :=
  (IoDir.fromU8 ev.dir).isSome && decide (0 ≤ ev.ret) && decide (ev.plen ≠ 0)

theorem pair_injective : Function.Injective fun k : ConnKey => (k.tgid,k.fd) := by
  intro a b h
  cases a
  cases b
  simpa using h

namespace H2Registry

/-- An operation that brings a full preface on a live connection of the key. -/
def restarts (r : H2Registry) (key : ConnKey) : RegOp → Bool
  | .feed ev _ _ => takenUp ev && decide (key = ⟨ev.tgid,ev.fd⟩) &&
      startsWith ev.chunk clientPreface && r.conns.contains key
  | _ => false

def restartCount (r : H2Registry) (key : ConnKey) : List RegOp → ℕ
  | [] => 0
  | op :: ops => (r.restarts key op).toNat + (r.step op).1.restartCount key ops

/-- The reports of a run, as `take_unmark` has returned them. -/
def reported (r : H2Registry) (ops : List RegOp) : List (UInt32 × Int32) :=
  (r.run ops).2.flatMap Reply.unmarked

/-- What is still to be reported of a key: the entries of the list and a live connection. -/
def due (r : H2Registry) (key : ConnKey) : ℕ :=
  r.unmark.count (key.tgid,key.fd) + (r.conns.contains key).toNat

section Feed

variable (r : H2Registry) (key : ConnKey) (conn : H2Conn) (dir : IoDir) (ev : SockIoEvent)
  (now : Instant) (clientOnly : Bool)

/-- A fed connection lives on or is reported. -/
theorem feedConn_unmark : (r.feedConn key conn dir ev now clientOnly).1.unmark =
    r.unmark ++ if (r.feedConn key conn dir ev now clientOnly).1.conns.contains key then []
      else [(key.tgid,key.fd)] := by
  simp only [feedConn]
  split_ifs with hend hin hin <;> simp_all [FiniteMap.contains]

theorem feedConn_due_self : (r.feedConn key conn dir ev now clientOnly).1.due key =
    r.unmark.count (key.tgid,key.fd) + 1 := by
  rw [due,feedConn_unmark]
  split_ifs with hin <;> simp [hin]

theorem feedConn_due_other {k : ConnKey} (hk : k ≠ key) :
    (r.feedConn key conn dir ev now clientOnly).1.due k = r.due k := by
  have hne := pair_injective.ne (Ne.symm hk)
  simp only [due,feedConn]
  split_ifs
  · simp [FiniteMap.contains_remove,hk,List.count_append,hne]
  · simp [FiniteMap.contains_put,hk]

theorem feedConn_openings (k : ConnKey) :
    (r.feedConn key conn dir ev now clientOnly).2.openings k = 0 := by
  simp [Reply.openings,feedConn,List.countP_map,List.countP_eq_zero,Observation.opens]

theorem forget_unmark (chunk : List UInt8) : (r.forget key chunk).unmark = r.unmark := by
  rw [forget]
  split_ifs <;> rfl

theorem forget_due_other (chunk : List UInt8) {k : ConnKey} (hk : k ≠ key) :
    (r.forget key chunk).due k = r.due k := by
  rw [forget]
  split_ifs
  · simp [due,FiniteMap.contains_remove,hk]
  · rfl

theorem forget_due_self (chunk : List UInt8) : (r.forget key chunk).due key +
    (startsWith chunk clientPreface && r.conns.contains key).toNat = r.due key := by
  rw [forget]
  split_ifs with hpre
  · simp [due,FiniteMap.contains_remove,hpre]
  · simp [hpre]

theorem forget_due (hup : takenUp ev = true) (k : ConnKey) :
    (r.forget ⟨ev.tgid,ev.fd⟩ ev.chunk).due k + (r.restarts k (.feed ev now clientOnly)).toNat =
      r.due k := by
  by_cases hk : k = ⟨ev.tgid,ev.fd⟩
  · subst hk
    simpa [restarts,hup] using r.forget_due_self ⟨ev.tgid,ev.fd⟩ ev.chunk
  · simpa [restarts,hk] using r.forget_due_other ⟨ev.tgid,ev.fd⟩ ev.chunk hk

theorem feed_unmarked : (r.feed ev now clientOnly).2.unmarked = [] := by
  have hfed := r.feed_fed ev now clientOnly
  generalize r.feed ev now clientOnly = q at hfed ⊢
  cases hfed with
  | ignored | foreign | full | known => rfl
  | opened _ _ _ hq => rw [← hq]; rfl

/-- What a call adds to the account of a key is a connection that it creates. -/
theorem feed_due (k : ConnKey) :
    (r.feed ev now clientOnly).1.due k + (r.restarts k (.feed ev now clientOnly)).toNat =
      r.due k + (r.feed ev now clientOnly).2.openings k := by
  cases hdir : IoDir.fromU8 ev.dir with
  | none => simp [feed,hdir,restarts,takenUp,Reply.openings,Reply.nothing]
  | some dir =>
    by_cases hgo : ev.ret < 0 ∨ ev.plen = 0
    · have hup : takenUp ev = false := by
        simp only [takenUp,Bool.and_eq_false_iff,decide_eq_false_iff_not]
        omega
      simp [feed,hdir,hgo,restarts,hup,Reply.openings,Reply.nothing]
    have hup : takenUp ev = true := by
      simp only [takenUp,hdir,Option.isSome_some,Bool.true_and,Bool.and_eq_true,decide_eq_true_eq]
      omega
    rw [← r.forget_due ev now clientOnly hup k]
    suffices h : (r.feed ev now clientOnly).1.due k =
        (r.forget ⟨ev.tgid,ev.fd⟩ ev.chunk).due k + (r.feed ev now clientOnly).2.openings k by
      omega
    simp only [feed,hdir,if_neg hgo]
    generalize r.forget ⟨ev.tgid,ev.fd⟩ ev.chunk = r'
    cases hconn : r'.conns.get ⟨ev.tgid,ev.fd⟩ with
    | some conn =>
      dsimp only
      rw [feedConn_openings]
      by_cases hk : k = ⟨ev.tgid,ev.fd⟩
      · subst hk
        rw [feedConn_due_self]
        simp [due,FiniteMap.contains,hconn]
      · rw [feedConn_due_other _ _ _ _ _ _ _ hk,Nat.add_zero]
    | none =>
      dsimp only
      split_ifs
      · simp [due,Reply.openings,Reply.nothing]
      · have hold := feedConn_openings
          {r' with conns := r'.conns.put ⟨ev.tgid,ev.fd⟩ (.new now)} ⟨ev.tgid,ev.fd⟩ (.new now) dir ev
          now clientOnly k
        simp only [Reply.openings] at hold
        simp only [Reply.openings,List.countP_cons,hold,Observation.opens]
        by_cases hk : k = ⟨ev.tgid,ev.fd⟩
        · subst hk
          rw [feedConn_due_self]
          simp [due,FiniteMap.contains,hconn]
        · rw [feedConn_due_other _ _ _ _ _ _ _ hk]
          simp [due,FiniteMap.contains_put,hk,Ne.symm hk]
      · simp [Reply.openings,Reply.nothing]

end Feed

theorem retainConns_due (r : H2Registry) (keep : ConnKey → H2Conn → Bool) (k : ConnKey) :
    (r.retainConns keep).due k = r.due k := by
  have hcount := List.count_map_of_injective (r.conns.rejected keep) _ pair_injective k
  have hsplit := r.conns.count_rejected keep k
  simp only [due,retainConns,List.count_append]
  omega

theorem dropConn_due (r : H2Registry) (tgid : UInt32) (fd : Int32) (k : ConnKey) :
    (r.dropConn tgid fd).due k = r.due k := by
  rw [dropConn]
  cases hget : r.conns.get ⟨tgid,fd⟩ with
  | none =>
    by_cases hk : k = ⟨tgid,fd⟩
    · subst hk
      simp [due,FiniteMap.contains,hget]
    · simp [due,FiniteMap.contains_remove,hk]
  | some conn =>
    by_cases hk : k = ⟨tgid,fd⟩
    · subst hk
      simp [due,FiniteMap.contains,hget]
    · have hne := pair_injective.ne (Ne.symm hk)
      simp [due,FiniteMap.contains_remove,hk,List.count_append,hne]

/-- One operation: what it returns and leaves due, and the connection that it restarts, are what was
due and what it creates. -/
theorem step_due (r : H2Registry) (op : RegOp) (k : ConnKey) :
    (r.step op).2.unmarked.count (k.tgid,k.fd) + (r.step op).1.due k + (r.restarts k op).toNat =
      r.due k + (r.step op).2.openings k := by
  cases op with
  | feed ev now clientOnly =>
    have hdue := r.feed_due ev now clientOnly k
    simp only [step,r.feed_unmarked ev now clientOnly,List.count_nil]
    omega
  | dropConn tgid fd =>
    simp [step,restarts,dropConn_due,Reply.openings,Reply.nothing]
  | evictStale now =>
    simp [step,restarts,evictStale,retainConns_due,Reply.openings,Reply.nothing]
  | evictClosed isLive =>
    simp [step,restarts,evictClosed,retainConns_due,Reply.openings,Reply.nothing]
  | takeUnmark =>
    simp [step,restarts,takeUnmark,due,Reply.openings]

theorem run_due (r : H2Registry) (ops : List RegOp) (k : ConnKey) :
    (r.reported ops).count (k.tgid,k.fd) + (r.run ops).1.due k + r.restartCount k ops =
      r.due k + (r.history ops).countP (Observation.opens k) := by
  induction ops generalizing r with
  | nil => simp [reported,run,restartCount,history]
  | cons op ops ih =>
    have hstep := r.step_due op k
    have hrest := ih (r.step op).1
    have hreported : r.reported (op :: ops) =
        (r.step op).2.unmarked ++ (r.step op).1.reported ops := rfl
    have hlast : (r.run (op :: ops)).1 = ((r.step op).1.run ops).1 := rfl
    rw [hreported,hlast,history_cons,restartCount,List.count_append,List.countP_append]
    simp only [Reply.openings] at hstep
    omega

theorem feed_opened_unmark {r : H2Registry} {ev : SockIoEvent} {now : Instant} {clientOnly : Bool}
    {key : ConnKey} (h : .opened key ∈ (r.feed ev now clientOnly).2.seen) :
    (r.feed ev now clientOnly).1.unmark = r.unmark ++
      if (r.feed ev now clientOnly).1.isMarked key.tgid key.fd then [] else [(key.tgid,key.fd)] := by
  have hfed := r.feed_fed ev now clientOnly
  generalize r.feed ev now clientOnly = q at hfed h ⊢
  cases hfed with
  | ignored | foreign | full => simp [Reply.nothing] at h
  | known => simp [feedConn] at h
  | opened hr hnone hroom hq =>
    have hunmark := r.forget_unmark ⟨ev.tgid,ev.fd⟩ ev.chunk
    rw [hr] at hunmark
    subst hq
    obtain rfl : key = ⟨ev.tgid,ev.fd⟩ := by simpa [feedConn] using h
    rw [← hunmark]
    exact feedConn_unmark _ _ _ _ _ _ _

theorem restarts_opened {r : H2Registry} (hfew : r.conns.len ≤ maxConns) {key : ConnKey}
    {ev : SockIoEvent} {now : Instant} {clientOnly : Bool}
    (h : r.restarts key (.feed ev now clientOnly) = true) :
    .opened key ∈ (r.feed ev now clientOnly).2.seen := by
  simp only [restarts,takenUp,Bool.and_eq_true,decide_eq_true_eq] at h
  obtain ⟨⟨⟨⟨⟨hdir,hret⟩,hlen⟩,rfl⟩,hpre⟩,hin⟩ := h
  obtain ⟨dir,hdir⟩ := Option.isSome_iff_exists.mp hdir
  have hroom := lt_of_lt_of_le (FiniteMap.len_remove_of_contains hin) hfew
  rw [feed_preface hdir hret hlen hpre hroom]
  simp

def after (ops : List RegOp) : H2Registry := (default.run ops).1

/-- The reports of a key, returned or still in the list, are the connections that were created for
it, less those that a preface replaced and less the one that is live. A connection that one call
creates and ends is reported, and a restart reports nothing of the connection that it replaces. -/
theorem unmarked_once (ops : List RegOp) (key : ConnKey) :
    (default.reported ops).count (key.tgid,key.fd) + (after ops).unmark.count (key.tgid,key.fd) +
        default.restartCount key ops + ((after ops).isMarked key.tgid key.fd).toNat =
      (default.history ops).countP (Observation.opens key) ∧
    (∀ ev now clientOnly, .opened key ∈ ((after ops).feed ev now clientOnly).2.seen →
      ((after ops).feed ev now clientOnly).1.isMarked key.tgid key.fd = false →
      ((after ops).feed ev now clientOnly).1.unmark = (after ops).unmark ++ [(key.tgid,key.fd)]) ∧
    ∀ ev now clientOnly, (after ops).restarts key (.feed ev now clientOnly) = true →
      .opened key ∈ ((after ops).feed ev now clientOnly).2.seen ∧
      (((after ops).feed ev now clientOnly).1.isMarked key.tgid key.fd = true →
        ((after ops).feed ev now clientOnly).1.unmark = (after ops).unmark) := by
  refine ⟨?_,?_,?_⟩
  · have hrun := default.run_due ops key
    have hzero : default.due key = 0 := rfl
    have hdue : (default.run ops).1.due key = (after ops).unmark.count (key.tgid,key.fd) +
        ((after ops).isMarked key.tgid key.fd).toNat := rfl
    omega
  · intro ev now clientOnly hopened hgone
    rw [feed_opened_unmark hopened,hgone]
    rfl
  · intro ev now clientOnly hrestart
    have hfew : (after ops).conns.len ≤ maxConns := (bounded_default.run ops).few
    have hopened := restarts_opened hfew hrestart
    refine ⟨hopened,fun hlive => ?_⟩
    rw [feed_opened_unmark hopened,hlive]
    simp

/-- A preface, and then a preface and GOAWAY in one call. -/
def restartedRun : List RegOp :=
  [.feed (someSocket.moved .write clientPreface 1) 0 false,
    .feed (someSocket.moved .write (clientPreface ++ [0,0,8,7,0,0,0,0,0,0,0,0,0,0,0,0,0]) 2) 1 false]

/-- Two connections were created, one was replaced, the other is reported. -/
theorem unmarked_once_restarted :
    default.restartCount ⟨42,3⟩ restartedRun = 1 ∧
    (default.history restartedRun).countP (Observation.opens ⟨42,3⟩) = 2 ∧
    (after restartedRun).unmark.count (42,3) = 1 := by
  have hbalance : ∀ ops, default.restartCount ⟨42,3⟩ ops = 1 →
      (default.history ops).countP (Observation.opens ⟨42,3⟩) = 2 →
      (after ops).isMarked 42 3 = false → default.reported ops = [] →
      (after ops).unmark.count (42,3) = 1 := by
    intro ops hrestarts hopened hlive hreported
    have hsum := (unmarked_once ops ⟨42,3⟩).1
    simp only [hrestarts,hopened,hlive,hreported,List.count_nil,Bool.toNat_false] at hsum
    omega
  have hrestarts : default.restartCount ⟨42,3⟩ restartedRun = 1 := by decide +kernel
  have hopened : (default.history restartedRun).countP (Observation.opens ⟨42,3⟩) = 2 := by
    decide +kernel
  exact ⟨hrestarts,hopened,
    hbalance restartedRun hrestarts hopened (by decide +kernel) (by decide +kernel)⟩

end H2Registry
end H2
end ObsAgent
