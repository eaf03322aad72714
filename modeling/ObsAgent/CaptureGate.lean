import ObsAgent.CommFilter
import ObsAgent.SockMeta

/-! The process filter maps of the kernel and the agent's account of what it has written there.
Every operation on a map may fail on its own, and then leaves both as they are. -/
namespace ObsAgent

/-- A map of the kernel with the keys that the agent has published into it. -/
structure TgidMap where
  map : FiniteMap UInt32 UInt8
  published : TgidSet

/-- The operations of a call that fail. -/
structure Faults where
  set : Bool
  remove : UInt32 → Bool
  insert : UInt32 → Bool

def Faults.none : Faults := ⟨false,fun _ => false,fun _ => false⟩

namespace TgidMap

/-- A key that is not there is not removed either. -/
def remove (fails : UInt32 → Bool) (m : TgidMap) (t : UInt32) : TgidMap :=
  if fails t || !m.map.contains t then m else ⟨m.map.remove t,m.published.remove t⟩

def insert (fails : UInt32 → Bool) (m : TgidMap) (t : UInt32) : TgidMap :=
  if fails t then m else ⟨m.map.put t 1,m.published.put t ()⟩

def applyTgidHashmap (m : TgidMap) (desired : TgidSet) (faults : Faults) : TgidMap :=
  let delta := tgidMapDelta m.published desired
  delta.2.foldl (insert faults.insert) (delta.1.foldl (remove faults.remove) m)

end TgidMap

/-- What the agent keeps of the gate, on both sides. -/
structure CaptureMaps where
  allowOnly : Option UInt32
  denied : TgidMap
  allowed : TgidMap

namespace CaptureMaps

def start : CaptureMaps := ⟨some 0,⟨∅,∅⟩,⟨∅,∅⟩⟩

def kernel (g : CaptureMaps) : Kernel.CaptureFilter := ⟨g.allowOnly,g.allowed.map,g.denied.map⟩

def lazyDenyInsert (g : CaptureMaps) (filter : CommFilter) (tgid : UInt32) (fails : Bool) :
    CaptureMaps :=
  if filter.isAllowOnly then g
  else if g.denied.published.contains tgid then g
  else {g with denied := g.denied.insert (fun _ => fails) tgid}

/-- The agent itself and the processes of its calibration. -/
def selfExtras (agentTgid : UInt32) (bpfSelfIds : TgidSet) : TgidSet := bpfSelfIds.put agentTgid ()

def sweepCaptureMaps (g : CaptureMaps) (agentTgid : UInt32) (filter : CommFilter)
    (bpfSelfIds : TgidSet) (proc : ProcSnapshot) (faults : Faults) : CaptureMaps :=
  let flag := if filter.isAllowOnly then 1 else 0
  let g := if faults.set then g else {g with allowOnly := some flag}
  if filter.isAllowOnly then
    let desired := allowedTgidsFromProc proc filter
    {g with allowed := g.allowed.applyTgidHashmap desired faults}
  else
    let desired := deniedTgidsFromProc proc filter (selfExtras agentTgid bpfSelfIds)
    {g with denied := g.denied.applyTgidHashmap desired faults}

end CaptureMaps

namespace TgidMap

def Mirrored (m : TgidMap) : Prop := ∀ t, m.published.contains t = m.map.contains t

theorem Mirrored.remove {m : TgidMap} (h : m.Mirrored) (fails : UInt32 → Bool) (t : UInt32) :
    (m.remove fails t).Mirrored := by
  intro u
  rw [TgidMap.remove]
  split_ifs
  · exact h u
  · rw [FiniteMap.contains_remove,FiniteMap.contains_remove,h u]

theorem Mirrored.insert {m : TgidMap} (h : m.Mirrored) (fails : UInt32 → Bool) (t : UInt32) :
    (m.insert fails t).Mirrored := by
  intro u
  rw [TgidMap.insert]
  split_ifs
  · exact h u
  · rw [FiniteMap.contains_put,FiniteMap.contains_put,h u]

theorem Mirrored.foldl_remove {m : TgidMap} (h : m.Mirrored) (fails : UInt32 → Bool)
    (l : List UInt32) : (l.foldl (TgidMap.remove fails) m).Mirrored :=
  List.foldlRecOn l _ h fun _ hm t _ => hm.remove fails t

theorem Mirrored.foldl_insert {m : TgidMap} (h : m.Mirrored) (fails : UInt32 → Bool)
    (l : List UInt32) : (l.foldl (TgidMap.insert fails) m).Mirrored :=
  List.foldlRecOn l _ h fun _ hm t _ => hm.insert fails t

theorem Mirrored.apply {m : TgidMap} (h : m.Mirrored) (desired : TgidSet) (faults : Faults) :
    (m.applyTgidHashmap desired faults).Mirrored :=
  (h.foldl_remove _ _).foldl_insert _ _

theorem contains_foldl_remove {m : TgidMap} (h : m.Mirrored) (l : List UInt32) (t : UInt32) :
    (l.foldl (TgidMap.remove Faults.none.remove) m).published.contains t = true ↔
      m.published.contains t = true ∧ t ∉ l := by
  induction l generalizing m with
  | nil => simp
  | cons u l ih =>
    have hone : (m.remove Faults.none.remove u).published.contains t = true ↔
        m.published.contains t = true ∧ t ≠ u := by
      rw [TgidMap.remove]
      split_ifs with hmiss
      · have hnot : m.published.contains u = false := by simpa [h u,Faults.none] using hmiss
        refine ⟨fun ht => ⟨ht,?_⟩,And.left⟩
        rintro rfl
        simp [hnot] at ht
      · simp [FiniteMap.contains_remove,and_comm]
    rw [List.foldl_cons,ih (h.remove _ u),hone,List.mem_cons,not_or,and_assoc]

theorem contains_foldl_insert (m : TgidMap) (l : List UInt32) (t : UInt32) :
    (l.foldl (TgidMap.insert Faults.none.insert) m).published.contains t = true ↔
      m.published.contains t = true ∨ t ∈ l := by
  induction l generalizing m with
  | nil => simp
  | cons u l ih =>
    rw [List.foldl_cons,ih,TgidMap.insert,if_neg (by simp [Faults.none]),FiniteMap.contains_put,
      List.mem_cons,Bool.or_eq_true,decide_eq_true_eq]
    tauto

/-- Without faults the map ends up with the keys that it is to have. -/
theorem Mirrored.contains_apply {m : TgidMap} (h : m.Mirrored) (desired : TgidSet) (t : UInt32) :
    (m.applyTgidHashmap desired Faults.none).map.contains t = desired.contains t := by
  rw [← h.apply desired Faults.none t,Bool.eq_iff_iff,applyTgidHashmap,contains_foldl_insert,
    contains_foldl_remove h,tgidMapDelta]
  simp only [List.mem_filter,FiniteMap.mem_keys_iff,← FiniteMap.contains.eq_1]
  cases m.published.contains t <;> cases desired.contains t <;> simp

end TgidMap

inductive GateOp
  | sweep (agentTgid : UInt32) (bpfSelfIds : TgidSet) (proc : ProcSnapshot) (faults : Faults)
  | lazyDeny (tgid : UInt32) (fails : Bool)

namespace CaptureMaps

def step (filter : CommFilter) (g : CaptureMaps) : GateOp → CaptureMaps
  | .sweep agentTgid bpfSelfIds proc faults =>
    g.sweepCaptureMaps agentTgid filter bpfSelfIds proc faults
  | .lazyDeny tgid fails => g.lazyDenyInsert filter tgid fails

def run (filter : CommFilter) (ops : List GateOp) : CaptureMaps := ops.foldl (step filter) start

structure Mirrored (g : CaptureMaps) : Prop where
  denied : g.denied.Mirrored
  allowed : g.allowed.Mirrored

theorem Mirrored.sweep {g : CaptureMaps} (h : g.Mirrored) (agentTgid : UInt32)
    (filter : CommFilter) (bpfSelfIds : TgidSet) (proc : ProcSnapshot) (faults : Faults) :
    (g.sweepCaptureMaps agentTgid filter bpfSelfIds proc faults).Mirrored := by
  have hset : (if faults.set then g
      else {g with allowOnly := some (if filter.isAllowOnly then 1 else 0)}).Mirrored := by
    split_ifs <;> exact ⟨h.denied,h.allowed⟩
  rw [sweepCaptureMaps]
  split_ifs at hset ⊢
  all_goals first
    | exact ⟨hset.denied,hset.allowed.apply _ faults⟩
    | exact ⟨hset.denied.apply _ faults,hset.allowed⟩

theorem Mirrored.step {g : CaptureMaps} (h : g.Mirrored) (filter : CommFilter) (op : GateOp) :
    (g.step filter op).Mirrored := by
  cases op with
  | sweep agentTgid bpfSelfIds proc faults => exact h.sweep agentTgid filter bpfSelfIds proc faults
  | lazyDeny tgid fails =>
    rw [CaptureMaps.step,lazyDenyInsert]
    split_ifs
    · exact h
    · exact h
    · exact ⟨h.denied.insert _ tgid,h.allowed⟩

theorem mirrored_run (filter : CommFilter) (ops : List GateOp) : (run filter ops).Mirrored :=
  List.foldlRecOn ops _ ⟨fun _ => rfl,fun _ => rfl⟩ fun _ h op _ => h.step filter op

/-- A sweep without faults leaves the kernel with the mode and the keys of its snapshot. -/
theorem Mirrored.captured_sweep {g : CaptureMaps} (h : g.Mirrored) (agentTgid : UInt32)
    (filter : CommFilter) (bpfSelfIds : TgidSet) (proc : ProcSnapshot) (t : UInt32) :
    (g.sweepCaptureMaps agentTgid filter bpfSelfIds proc Faults.none).kernel.tgidCaptured t =
      if filter.isAllowOnly then (allowedTgidsFromProc proc filter).contains t
      else !(deniedTgidsFromProc proc filter (selfExtras agentTgid bpfSelfIds)).contains t := by
  cases hmode : filter.isAllowOnly with
  | true =>
    have hkeys := h.allowed.contains_apply (allowedTgidsFromProc proc filter) t
    simpa [sweepCaptureMaps,hmode,Faults.none,kernel,Kernel.CaptureFilter.tgidCaptured,
      Kernel.CaptureFilter.allowOnlyMode] using hkeys
  | false =>
    have hkeys := h.denied.contains_apply
      (deniedTgidsFromProc proc filter (selfExtras agentTgid bpfSelfIds)) t
    simpa [sweepCaptureMaps,hmode,Faults.none,kernel,Kernel.CaptureFilter.tgidCaptured,
      Kernel.CaptureFilter.allowOnlyMode,Kernel.CaptureFilter.isDenied] using hkeys

/-- The published keys are always those of the maps, and behind a sweep without faults the gate
takes the processes that the filter takes. -/
theorem gate_agrees_with_filter (filter : CommFilter) (ops : List GateOp) :
    (∀ t, (run filter ops).denied.published.contains t = (run filter ops).denied.map.contains t) ∧
    (∀ t, (run filter ops).allowed.published.contains t =
      (run filter ops).allowed.map.contains t) ∧
    ∀ (agentTgid : UInt32) (bpfSelfIds : TgidSet) (proc : ProcSnapshot),
      ((selfExtras agentTgid bpfSelfIds).keys.toFinset ∪
        (qualifying filter.lists proc.leaders).toFinset).card < 8192 →
      ∀ e ∈ proc.entries, ∀ t, e.pid = some t → isThreadGroupLeader e.statusText t = true →
        e.commText ≠ "" → (selfExtras agentTgid bpfSelfIds).contains t = false →
        ((run filter ops).sweepCaptureMaps agentTgid filter bpfSelfIds proc
          Faults.none).kernel.tgidCaptured t = filter.allow e.commText := by
  have hmirror := mirrored_run filter ops
  refine ⟨hmirror.denied,hmirror.allowed,?_⟩
  intro agentTgid bpfSelfIds proc hroom e he t hpid hleads hnamed hself
  have hleader : (t,e.commText) ∈ proc.leaders :=
    List.mem_filterMap.mpr ⟨e,he,ProcEntry.leader_eq_some_iff.mpr ⟨hpid,hleads,hnamed,rfl⟩⟩
  rw [hmirror.captured_sweep]
  cases hmode : filter.isAllowOnly with
  | true =>
    have hlists : filter.lists = filter.allow := by
      funext comm
      rw [CommFilter.lists,hmode,if_pos rfl]
    rw [hlists] at hroom
    rw [if_pos rfl]
    exact contains_allowedTgidsFromProc hleader
      (lt_of_le_of_lt (Finset.card_le_card Finset.subset_union_right) hroom)
  | false =>
    have hlists : filter.lists = fun comm => !filter.allow comm := by
      funext comm
      rw [CommFilter.lists,hmode,if_neg Bool.false_ne_true]
    rw [hlists] at hroom
    rw [if_neg Bool.false_ne_true,contains_deniedTgidsFromProc hleader hself hroom,Bool.not_not]

/-- A process, one of its threads and the node's agent. -/
def curlAndKubelet : List ProcEntry :=
  [⟨some "9",some "Name:\tcurl\nTgid:\t9\n",some "curl\n"⟩,
    ⟨some "10",some "Name:\tcurl\nTgid:\t9\n",some "curl\n"⟩,
    ⟨some "self",none,none⟩,
    ⟨some "12",some "Name:\tkubelet\nTgid:\t12\n",some "kubelet\n"⟩]

theorem curlAndKubelet_distinct : (curlAndKubelet.filterMap ProcEntry.pid).Nodup := by decide

/-- A process that was denied lazily is taken again, and a denied one is not. -/
theorem gate_agrees_with_filter_relisted :
    ((run (.new [] none true) [.lazyDeny 9 false]).sweepCaptureMaps 1 (.new [] none true) ∅
      ⟨curlAndKubelet,curlAndKubelet_distinct⟩ Faults.none).kernel.tgidCaptured 9 = true ∧
    ((run (.new [] none true) [.lazyDeny 9 false]).sweepCaptureMaps 1 (.new [] none true) ∅
      ⟨curlAndKubelet,curlAndKubelet_distinct⟩ Faults.none).kernel.tgidCaptured 12 = false := by
  have hagrees := (gate_agrees_with_filter (.new [] none true) [.lazyDeny 9 false]).2.2 1 ∅
    ⟨curlAndKubelet,curlAndKubelet_distinct⟩ (by decide)
  constructor
  · exact (hagrees ⟨some "9",some "Name:\tcurl\nTgid:\t9\n",some "curl\n"⟩
      (by simp [curlAndKubelet]) 9 (by decide) (by decide) (by decide) (by decide)).trans
        (by decide)
  · exact (hagrees ⟨some "12",some "Name:\tkubelet\nTgid:\t12\n",some "kubelet\n"⟩
      (by simp [curlAndKubelet]) 12 (by decide) (by decide) (by decide) (by decide)).trans
        (by decide)

end CaptureMaps

end ObsAgent
