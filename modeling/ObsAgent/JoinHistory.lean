import ObsAgent.DualPlane

/-! The pruned buffers of the dual plane against the complete history.  What a push drops is older
than the windows that a join of a recent exchange looks at, and in an ordered buffer the last
timestamp in a window is the greatest. -/
namespace ObsAgent

open Http1

/-- A buffer into which these timestamps have been pushed. -/
def pushedAll (h : List ℕ) : List ℕ := h.foldl pushTs []

/-- At most as many timestamps as the buffer holds lie in any span of the timeout. -/
def Sparse (h : List ℕ) : Prop :=
  ∀ a, (h.filter fun t => a ≤ t && t ≤ a + timeout).length ≤ maxTsPerDir

theorem Sparse.of_append {h : List ℕ} {t : ℕ} (hs : Sparse (h ++ [t])) : Sparse h := by
  intro a
  have hall := hs a
  rw [List.filter_append,List.length_append] at hall
  omega

/-- The count cap never strikes: what a push leaves spans the timeout at most. -/
theorem pushTs_eq {h q : List ℕ} {t : ℕ} (hq : q <:+ h) (hsorted : (h ++ [t]).Pairwise (· ≤ ·))
    (hsparse : Sparse (h ++ [t])) :
    pushTs q t = (q ++ [t]).dropWhile fun u => u < t - timeout := by
  have hsuffix : (q ++ [t]) <:+ (h ++ [t]) := by
    obtain ⟨l,rfl⟩ := hq
    exact ⟨l,by simp⟩
  have hqsorted : (q ++ [t]).Pairwise (· ≤ ·) := hsorted.sublist hsuffix.sublist
  have hle : ∀ u ∈ q ++ [t], u ≤ t := by
    intro u hu
    rcases List.mem_append.mp hu with hu | hu
    · exact (List.pairwise_append.mp hqsorted).2.2 u hu t (by simp)
    · rw [List.mem_singleton.mp hu]
  have hrecent : ∀ u ∈ (q ++ [t]).dropWhile (fun u => decide (u < t - timeout)),
      (decide (t - timeout ≤ u) && decide (u ≤ t - timeout + timeout)) = true := by
    intro u hu
    have hge := TimedQueue.not_of_mem_dropWhile hqsorted (p := fun u => decide (u < t - timeout))
      (fun a b hab hb => decide_eq_true (lt_of_le_of_lt hab (of_decide_eq_true hb))) u hu
    have hut := hle u ((List.dropWhile_sublist _).subset hu)
    have hge' : t - timeout ≤ u := Nat.not_lt.mp (of_decide_eq_false hge)
    simp only [Bool.and_eq_true,decide_eq_true_eq]
    omega
  have hlen : ((q ++ [t]).dropWhile fun u => decide (u < t - timeout)).length ≤ maxTsPerDir := by
    have hsub := ((List.dropWhile_sublist (l := q ++ [t])
      fun u => decide (u < t - timeout)).trans hsuffix.sublist).filter
        fun u => decide (t - timeout ≤ u) && decide (u ≤ t - timeout + timeout)
    rw [List.filter_eq_self.mpr hrecent] at hsub
    exact hsub.length_le.trans (hsparse (t - timeout))
  rw [pushTs]
  simp only [Nat.sub_eq_zero_of_le hlen,List.drop_zero]

/-- The timestamps of a window. -/
def inWindow (lo hi : ℕ) (h : List ℕ) : List ℕ := h.filter fun t => lo ≤ t && t ≤ hi

/-- A buffer is an end part of its history and shows every window above what was dropped. -/
theorem pushedAll_spec {h : List ℕ} (hsorted : h.Pairwise (· ≤ ·)) (hsparse : Sparse h) :
    pushedAll h <:+ h ∧ ∀ lo hi, (∀ t ∈ h, t - timeout ≤ lo) →
      inWindow lo hi (pushedAll h) = inWindow lo hi h := by
  induction h using List.reverseRecOn with
  | nil => exact ⟨List.suffix_rfl,fun _ _ _ => rfl⟩
  | append_singleton h t ih =>
    obtain ⟨hsuffix,hshown⟩ := ih (List.pairwise_append.mp hsorted).1 hsparse.of_append
    have hpush : pushedAll (h ++ [t]) =
        (pushedAll h ++ [t]).dropWhile fun u => u < t - timeout := by
      rw [← pushTs_eq hsuffix hsorted hsparse,pushedAll,List.foldl_concat]
      rfl
    rw [hpush]
    constructor
    · refine (List.dropWhile_suffix _).trans ?_
      obtain ⟨l,hl⟩ := hsuffix
      exact ⟨l,by rw [← List.append_assoc,hl]⟩
    · intro lo hi hlo
      have hkept : inWindow lo hi ((pushedAll h ++ [t]).dropWhile fun u => u < t - timeout) =
          inWindow lo hi (pushedAll h ++ [t]) := by
        apply TimedQueue.filter_dropWhile
        intro u hu
        have hlt : u < lo := lt_of_lt_of_le (of_decide_eq_true hu) (hlo t (by simp))
        simp [hlt]
      rw [hkept,inWindow,List.filter_append]
      have hold := hshown lo hi fun u hu => hlo u (by simp [hu])
      rw [inWindow] at hold
      rw [hold,inWindow,inWindow,List.filter_append]

/-- The greatest timestamp of a window. -/
def greatest (h : List ℕ) (lo hi : ℕ) : Option ℕ := (inWindow lo hi h).max?

theorem find?_pushedAll {h : List ℕ} (hsorted : h.Pairwise (· ≤ ·)) (hsparse : Sparse h)
    {lo hi : ℕ} (hlo : ∀ t ∈ h, t - timeout ≤ lo) :
    (pushedAll h).reverse.find? (fun t => lo ≤ t && t ≤ hi) = greatest h lo hi := by
  have hshown := (pushedAll_spec hsorted hsparse).2 lo hi hlo
  have hordered : (inWindow lo hi h).Pairwise (· ≤ ·) := hsorted.filter _
  rw [TimedQueue.find?_reverse,greatest,← TimedQueue.getLast?_eq_max? hordered,← hshown]
  rfl

def PlaneOp.Keeps : PlaneOp → Prop
  | .evictStale _ | .evictClosed _ => False
  | _ => True

/-- The timestamp that a call notes on one side of a socket. -/
def PlaneOp.noted (k : SockKey) (dir : IoDir) : PlaneOp → Option ℕ
  | .note tgid fd d tsNs _ => if (⟨tgid,fd⟩ : SockKey) = k ∧ d = dir then some tsNs else none
  | _ => none

/-- Everything that was ever noted on one side of a socket. -/
def history (k : SockKey) (dir : IoDir) (ops : List PlaneOp) : List ℕ := ops.filterMap (·.noted k dir)

namespace DualPlane

def queueOf (p : DualPlane) (k : SockKey) (dir : IoDir) : List ℕ :=
  ((p.fds.get k).map (·.queue dir)).getD []

theorem latest_eq (p : DualPlane) (tgid : UInt32) (fd : Int32) (dir : IoDir) (lo hi : ℕ) :
    p.latest tgid fd dir lo hi =
      (p.queueOf ⟨tgid,fd⟩ dir).reverse.find? fun ts => lo ≤ ts && ts ≤ hi := by
  rw [latest,queueOf]
  cases p.fds.get ⟨tgid,fd⟩ <;> rfl

theorem queue_push (slot : FdTimes) (ts : ℕ) (d dir : IoDir) :
    (slot.push ts d).queue dir = if d = dir then pushTs (slot.queue dir) ts else slot.queue dir := by
  cases d <;> cases dir <;> simp only [reduceCtorEq,if_true,if_false]
  all_goals rw [FdTimes.push,FdTimes.queue,FdTimes.queue]

theorem queue_last (slot : FdTimes) (now : Instant) (dir : IoDir) :
    {slot with last := now}.queue dir = slot.queue dir := by
  cases dir <;> rfl

theorem queue_fresh (now : Instant) (dir : IoDir) : FdTimes.queue ⟨[],[],now⟩ dir = [] := by
  cases dir <;> rfl

theorem queueOf_note (p : DualPlane) (tgid : UInt32) (fd : Int32) (d dir : IoDir) (ts : ℕ)
    (now : Instant) (k : SockKey) :
    (p.note tgid fd d ts now).queueOf k dir =
      if (⟨tgid,fd⟩ : SockKey) = k ∧ d = dir then pushTs (p.queueOf k dir) ts
      else p.queueOf k dir := by
  simp only [queueOf,note,FiniteMap.get_upsert]
  by_cases hk : (⟨tgid,fd⟩ : SockKey) = k
  · subst hk
    have hslot : ((p.fds.get ⟨tgid,fd⟩).getD ⟨[],[],now⟩).queue dir =
        ((p.fds.get ⟨tgid,fd⟩).map (·.queue dir)).getD [] := by
      cases p.fds.get ⟨tgid,fd⟩ with
      | none => exact queue_fresh now dir
      | some slot => rfl
    simp only [if_true,Option.map_some,Option.getD_some,queue_push,queue_last,true_and,hslot]
  · simp only [if_neg (Ne.symm hk),hk,false_and,if_false]

theorem queueOf_step (p : DualPlane) {op : PlaneOp} (h : op.Keeps) (k : SockKey) (dir : IoDir) :
    (p.step op).1.queueOf k dir =
      (op.noted k dir).elim (p.queueOf k dir) (pushTs (p.queueOf k dir)) := by
  cases op with
  | note tgid fd d ts now =>
    rw [step,queueOf_note,PlaneOp.noted]
    split_ifs
    · rw [Option.elim_some]
    · rw [Option.elim_none]
  | join tgid fd tStartNs tEndNs client now =>
    rw [step,(p.join_counted tgid fd tStartNs tEndNs client now).1]
    rfl
  | handshake latencyNs now =>
    simp only [step,recordHandshake]
    split_ifs <;> rfl
  | evictStale now => exact h.elim
  | evictClosed stillOpen => exact h.elim

theorem queueOf_run (p : DualPlane) {ops : List PlaneOp} (h : ∀ op ∈ ops, op.Keeps) (k : SockKey)
    (dir : IoDir) :
    (Machine.final step p ops).queueOf k dir = (history k dir ops).foldl pushTs (p.queueOf k dir) := by
  induction ops generalizing p with
  | nil => rfl
  | cons op ops ih =>
    have hfinal : Machine.final step p (op :: ops) = Machine.final step (p.step op).1 ops := rfl
    rw [hfinal,ih _ fun o ho => h o (by simp [ho]),p.queueOf_step (h op (by simp)),history,history,
      List.filterMap_cons]
    cases op.noted k dir with
    | none => rw [Option.elim_none]
    | some t => rw [Option.elim_some,List.foldl_cons]

end DualPlane

/-- The wire latency between two halves, if it can be that of the exchange. -/
def wireBetween (tStartNs tEndNs : ℕ) (s e : Option ℕ) : Option ℕ :=
  s.bind fun s => e.bind fun e =>
    if 0 < e - s ∧ e - s ≤ (tEndNs - tStartNs) + wireSlackNs then some (e - s) else none

/-- What the join is for: the last start before the request, with the last end before the response,
or else with the last end shortly after it. -/
def joinSpec (w : ℕ) (starts ends : List ℕ) (tStartNs tEndNs : ℕ) : Option Join :=
  let s := greatest starts (tStartNs - w) tStartNs
  ((wireBetween tStartNs tEndNs s (greatest ends (tEndNs - w) tEndNs)).map (⟨·,.hit⟩)).or
    ((wireBetween tStartNs tEndNs s (greatest ends (tEndNs + 1) (tEndNs + w))).map (⟨·,.fallback⟩))

namespace DualPlane

/-- The slack does not saturate where it matters. -/
theorem tryWire_eq (p : DualPlane) {startTs endTs : Option ℕ} (tStartNs tEndNs : ℕ)
    (kind : JoinKind) (now : Instant) (h : ∀ e ∈ endTs, e < 2^64) :
    (p.tryWire startTs endTs tStartNs tEndNs kind now).2 =
      (wireBetween tStartNs tEndNs startTs endTs).map (⟨·,kind⟩) := by
  cases startTs with
  | none => rfl
  | some s =>
    cases endTs with
    | none => rfl
    | some e =>
      have he : e < 2^64 := h e rfl
      have hiff : (e - s = 0 ∨ e - s > saturatingAdd (tEndNs - tStartNs) wireSlackNs) ↔
          ¬ (0 < e - s ∧ e - s ≤ (tEndNs - tStartNs) + wireSlackNs) := by
        simp only [saturatingAdd]
        omega
      simp only [tryWire,acceptWire,wireBetween,Option.bind_some]
      by_cases hok : 0 < e - s ∧ e - s ≤ (tEndNs - tStartNs) + wireSlackNs
      · rw [if_neg (fun hbad => hiff.mp hbad hok),if_pos hok]
        rfl
      · rw [if_pos (hiff.mpr hok),if_neg hok]
        rfl

theorem latest_run {ops : List PlaneOp} {tgid : UInt32} {fd : Int32} {dir : IoDir} {lo hi : ℕ}
    (w : ℕ) (hkeeps : ∀ op ∈ ops, op.Keeps)
    (hsorted : (history ⟨tgid,fd⟩ dir ops).Pairwise (· ≤ ·))
    (hsparse : Sparse (history ⟨tgid,fd⟩ dir ops))
    (hlo : ∀ t ∈ history ⟨tgid,fd⟩ dir ops, t - timeout ≤ lo) :
    (Machine.final step (new w) ops).latest tgid fd dir lo hi =
      greatest (history ⟨tgid,fd⟩ dir ops) lo hi := by
  rw [latest_eq,queueOf_run _ hkeeps]
  exact find?_pushedAll hsorted hsparse hlo

theorem le_of_greatest {h : List ℕ} {lo hi t : ℕ} (ht : greatest h lo hi = some t) :
    lo ≤ t ∧ t ≤ hi := by
  have hmem := (List.max?_eq_some_iff.mp ht).1
  simpa using (List.mem_filter.mp hmem).2

theorem joinWindowNs_run (p : DualPlane) (ops : List PlaneOp) :
    (Machine.final step p ops).joinWindowNs = p.joinWindowNs := by
  refine Machine.final_invariant step (I := fun q => q.joinWindowNs = p.joinWindowNs) ?_ rfl ops
  intro q op hq
  cases op with
  | join tgid fd tStartNs tEndNs client now =>
    rw [step,(q.join_counted tgid fd tStartNs tEndNs client now).1]
    exact hq
  | handshake latencyNs now =>
    simp only [step,recordHandshake]
    split_ifs <;> exact hq
  | _ => exact hq

theorem join_eq (p : DualPlane) (tgid : UInt32) (fd : Int32) (tStartNs tEndNs : ℕ) (client : Bool)
    (now : Instant) :
    (p.join tgid fd tStartNs tEndNs client now).2 =
      (p.tryWire (p.latest tgid fd (startDir client) (tStartNs - p.joinWindowNs) tStartNs)
        (p.latest tgid fd (endDir client) (tEndNs - p.joinWindowNs) tEndNs)
        tStartNs tEndNs .hit now).2.or
      (p.tryWire (p.latest tgid fd (startDir client) (tStartNs - p.joinWindowNs) tStartNs)
        (p.latest tgid fd (endDir client) (saturatingAdd tEndNs 1)
          (saturatingAdd tEndNs p.joinWindowNs)) tStartNs tEndNs .fallback now).2 := by
  simp only [join]
  split_ifs with hhit hfb
  · obtain ⟨j,hj⟩ := Option.isSome_iff_exists.mp hhit
    rw [hj,Option.some_or]
  · rw [Option.not_isSome_iff_eq_none.mp hhit,Option.none_or]
  · rw [Option.not_isSome_iff_eq_none.mp hhit,Option.not_isSome_iff_eq_none.mp hfb,Option.none_or]

/-- A join whose windows begin no more than the timeout before the last timestamp of its socket
finds in the pruned buffers what the complete history gives. -/
theorem join_loses_nothing (w : ℕ) (ops : List PlaneOp) (tgid : UInt32) (fd : Int32)
    (tStartNs tEndNs : ℕ) (client : Bool) (now : Instant) (hkeeps : ∀ op ∈ ops, op.Keeps)
    (hsorted : ∀ dir, (history ⟨tgid,fd⟩ dir ops).Pairwise (· ≤ ·))
    (hsparse : ∀ dir, Sparse (history ⟨tgid,fd⟩ dir ops)) (hspan : tStartNs ≤ tEndNs)
    (hrecent : ∀ dir, ∀ t ∈ history ⟨tgid,fd⟩ dir ops, t - timeout ≤ tStartNs - w)
    (hfits : tEndNs + w < 2^64) :
    ((Machine.final step (new w) ops).join tgid fd tStartNs tEndNs client now).2 =
      joinSpec w (history ⟨tgid,fd⟩ (startDir client) ops) (history ⟨tgid,fd⟩ (endDir client) ops)
        tStartNs tEndNs := by
  have hfound : ∀ dir lo hi, tStartNs - w ≤ lo →
      (Machine.final step (new w) ops).latest tgid fd dir lo hi =
        greatest (history ⟨tgid,fd⟩ dir ops) lo hi := fun dir lo hi hlo =>
    latest_run w hkeeps (hsorted dir) (hsparse dir) fun t ht => (hrecent dir t ht).trans hlo
  have hhi : saturatingAdd tEndNs w = tEndNs + w := Nat.min_eq_left (by omega)
  have hlo1 : tStartNs - w ≤ saturatingAdd tEndNs 1 := by
    simp only [saturatingAdd]
    omega
  rw [join_eq,joinWindowNs_run,show (new w).joinWindowNs = w from rfl,hfound _ _ _ le_rfl,
    hfound _ _ _ (by omega : tStartNs - w ≤ tEndNs - w),hfound _ _ _ hlo1,hhi,
    tryWire_eq _ _ _ _ _ fun e he => by have := le_of_greatest he; omega,
    tryWire_eq _ _ _ _ _ fun e he => by have := le_of_greatest he; omega,joinSpec]
  by_cases hmax : tEndNs + 1 < 2^64
  · rw [show saturatingAdd tEndNs 1 = tEndNs + 1 from Nat.min_eq_left (by omega)]
  · -- no room above: the window has no width, and the fallback repeats the hit
    have hw : w = 0 := by omega
    have hone : saturatingAdd tEndNs 1 = tEndNs := by
      simp only [saturatingAdd]
      omega
    have hempty : greatest (history ⟨tgid,fd⟩ (endDir client) ops) (tEndNs + 1) (tEndNs + w) =
        none := by
      cases he : greatest (history ⟨tgid,fd⟩ (endDir client) ops) (tEndNs + 1) (tEndNs + w) with
      | none => rfl
      | some e =>
        have := le_of_greatest he
        omega
    rw [hempty,hone,hw,Nat.sub_zero,Nat.sub_zero,Nat.add_zero]
    cases wireBetween tStartNs tEndNs
        (greatest (history ⟨tgid,fd⟩ (startDir client) ops) tStartNs tStartNs)
        (greatest (history ⟨tgid,fd⟩ (endDir client) ops) tEndNs tEndNs) with
    | none =>
      cases greatest (history ⟨tgid,fd⟩ (startDir client) ops) tStartNs tStartNs <;> rfl
    | some n => rfl

def lateRead : List PlaneOp := [.note 42 3 .write 100 0,.note 42 3 .read 960 0]

theorem join_loses_nothing_fallback :
    ((Machine.final step (new 1000) lateRead).join 42 3 120 950 true 0).2 = some ⟨860,.fallback⟩ := by
  have hsorted : ∀ dir, (history ⟨42,3⟩ dir lateRead).Pairwise (· ≤ ·) := by
    intro dir
    cases dir <;> decide +kernel
  have hshort : ∀ dir, (history ⟨42,3⟩ dir lateRead).length ≤ maxTsPerDir := by
    intro dir
    cases dir <;> decide +kernel
  have hrecent : ∀ dir, ∀ t ∈ history ⟨42,3⟩ dir lateRead, t - timeout ≤ 120 - 1000 := by
    intro dir
    cases dir <;> decide +kernel
  rw [join_loses_nothing 1000 lateRead 42 3 120 950 true 0 (by simp [lateRead,PlaneOp.Keeps]) hsorted
    (fun dir a => (List.length_filter_le _ _).trans (hshort dir)) (by decide) hrecent (by decide)]
  decide +kernel

end DualPlane
end ObsAgent
