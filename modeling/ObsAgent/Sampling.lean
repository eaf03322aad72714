import ObsAgent.Capture
import ObsAgent.Machine

/-! The sample decision of a descriptor.  Three probes write the flags of an entry: a mark that makes
it, a mark that finds it and a keep check.  Once the decision is drawn none of them changes it, while
the address follows the marks. -/
namespace ObsAgent
namespace Kernel

open Http1 LastWrite

namespace SockMeta

theorem flags_setIoKeep (m : SockMeta) (keep : Bool) :
    (m.setIoKeep keep).flags &&& flagSampleDecided = flagSampleDecided ∧
      (m.setIoKeep keep).flags &&& flagKeepIo = if keep then flagKeepIo else 0 := by
  obtain ⟨family,⟨flags⟩,dport,daddr⟩ := m
  dsimp only [setIoKeep,flagSampleDecided,flagKeepIo]
  revert flags keep
  decide +kernel

@[simp] theorem ioSampledKeep_setIoKeep (m : SockMeta) (keep : Bool) :
    (m.setIoKeep keep).ioSampledKeep = some keep := by
  obtain ⟨hdecided,hkeep⟩ := m.flags_setIoKeep keep
  rw [ioSampledKeep,hdecided,hkeep]
  cases keep <;> rfl

@[simp] theorem hasAddr_setIoKeep (m : SockMeta) (keep : Bool) :
    (m.setIoKeep keep).hasAddr = m.hasAddr := by
  obtain ⟨family,⟨flags⟩,dport,daddr⟩ := m
  dsimp only [setIoKeep,hasAddr,flagHasAddr,flagSampleDecided,flagKeepIo]
  revert flags keep
  decide +kernel

theorem or_and_mask (a b mask : UInt8) : (a ||| b) &&& mask = (a &&& mask) ||| (b &&& mask) := by
  apply UInt8.toBitVec_inj.mp
  simp [BitVec.and_or_distrib_right]

theorem merge_decided (m : SockMeta) {old : SockMeta} {keep : Bool}
    (h : old.ioSampledKeep = some keep) :
    (m.mergePeerPreserveSample (some old)).ioSampledKeep = some keep ∧
      (m.mergePeerPreserveSample (some old)).hasAddr = m.hasAddr := by
  have hmerge : m.mergePeerPreserveSample (some old) = {m with flags :=
      (m.flags &&& flagHasAddr) ||| (old.flags &&& (flagSampleDecided ||| flagKeepIo))} := by
    rw [mergePeerPreserveSample,if_pos (by rw [h]; rfl)]
  have hsample : ∀ mask : UInt8, flagHasAddr &&& mask = 0 →
      (flagSampleDecided ||| flagKeepIo) &&& mask = mask →
      ((m.flags &&& flagHasAddr) ||| (old.flags &&& (flagSampleDecided ||| flagKeepIo))) &&& mask =
        old.flags &&& mask := by
    intro mask haddr hmask
    rw [or_and_mask,UInt8.and_assoc,haddr,UInt8.and_zero,UInt8.and_assoc,hmask,UInt8.zero_or]
  have haddr : ((m.flags &&& flagHasAddr) ||| (old.flags &&& (flagSampleDecided ||| flagKeepIo))) &&&
      flagHasAddr = m.flags &&& flagHasAddr := by
    have hnone : (flagSampleDecided ||| flagKeepIo) &&& flagHasAddr = 0 := by decide
    rw [or_and_mask,UInt8.and_assoc,UInt8.and_self,UInt8.and_assoc,hnone,UInt8.and_zero,UInt8.or_zero]
  rw [hmerge]
  constructor
  · rw [← h,ioSampledKeep,ioSampledKeep]
    simp only [hsample flagSampleDecided (by decide) (by decide),
      hsample flagKeepIo (by decide) (by decide)]
  · simp only [hasAddr,haddr]

end SockMeta

/-- The peer that connect and accept read, or the zero address for want of one. -/
inductive SockPeer
  | v4 (daddrBe : UInt32) (dportBe : UInt16)
  | v6 (daddr : List.Vector UInt8 16) (dportBe : UInt16)

def SockPeer.sockMeta : SockPeer → SockMeta
  | .v4 daddrBe dportBe => .withPeerV4 daddrBe dportBe
  | .v6 daddr dportBe => .withPeerV6 daddr dportBe

theorem SockPeer.hasAddr_sockMeta (p : SockPeer) : p.sockMeta.hasAddr = true := by
  have hflag : (SockMeta.flagHasAddr &&& SockMeta.flagHasAddr != 0) = true := by decide
  cases p <;> exact hflag

/-- A connect or an accept, a keep check of an I/O or a TLS probe, and a close.  Every probe brings
the denominator that userspace has written by then and its own random draw. -/
inductive KeepStep
  | mark (probe : Probe) (fd : ℤ) (peer : SockPeer)
  | check (probe : Probe) (fd : UInt32)
  | close (tgid fd : UInt32)

namespace KeepStep

def apply (sockMeta : SockMetaMap) : KeepStep → SockMetaMap × List Bool
  | .mark probe fd peer => (markSockMeta sockMeta probe fd peer.sockMeta,[])
  | .check probe fd => ((existingFdKeepIo sockMeta probe fd).1,[(existingFdKeepIo sockMeta probe fd).2])
  | .close tgid fd => (unmarkSockFd sockMeta tgid fd,[])

def run (steps : List KeepStep) : SockMetaMap := Machine.final apply ∅ steps

def Of (tgid : UInt32) : KeepStep → Prop
  | .mark probe _ _ | .check probe _ => probe.tgid = tgid ∧ probe.filter.tgidCaptured tgid = true
  | .close tgid' _ => tgid' = tgid

/-- Whether the mark of a captured process takes effect on a descriptor. -/
def Marks (mfd : ℤ) (fd : UInt32) : Prop :=
  ¬ (mfd < 0 ∨ mfd > 2^32 - 1) ∧ UInt32.ofNat mfd.toNat = fd

instance (mfd : ℤ) (fd : UInt32) : Decidable (Marks mfd fd) := inferInstanceAs (Decidable (_ ∧ _))

/-- What a step does to the peer of a descriptor of its process. -/
def effect (fd : UInt32) : KeepStep → Effect SockPeer
  | .mark _ mfd peer => if Marks mfd fd then .write peer else .keep
  | .check _ _ => .keep
  | .close _ cfd => if cfd = fd then .clear else .keep

theorem effect_clear {fd : UInt32} {step : KeepStep} (h : step.effect fd = .clear) :
    ∃ tgid, step = .close tgid fd := by
  cases step with
  | mark probe mfd peer =>
    rw [effect] at h
    split_ifs at h
  | check probe cfd => simp [effect] at h
  | close tgid cfd =>
    rw [effect] at h
    split_ifs at h with hfd
    exact ⟨tgid,by rw [hfd]⟩

end KeepStep

/-- An entry that holds a decision and a peer. -/
structure Holds (m : SockMeta) (keep : Bool) (peer : SockPeer) : Prop where
  decided : m.ioSampledKeep = some keep
  hasAddr : m.hasAddr = true
  peer : PeerAddr.fromMeta m = PeerAddr.fromMeta peer.sockMeta

/-- The entry that a mark writes over the one it finds. -/
def markedEntry (old : Option SockMeta) (peer : SockPeer) (draw : Bool) : SockMeta :=
  if (old.bind SockMeta.ioSampledKeep).isNone then
    (peer.sockMeta.mergePeerPreserveSample old).setIoKeep draw
  else peer.sockMeta.mergePeerPreserveSample old

theorem markedEntry_new (peer : SockPeer) (draw : Bool) :
    Holds (markedEntry none peer draw) draw peer := by
  refine ⟨?_,?_,?_⟩
  · simp [markedEntry]
  · simp [markedEntry,SockMeta.mergePeerPreserveSample,peer.hasAddr_sockMeta]
  · simp [markedEntry]

theorem markedEntry_again {old : SockMeta} {keep : Bool} (h : old.ioSampledKeep = some keep)
    (peer : SockPeer) (draw : Bool) : Holds (markedEntry (some old) peer draw) keep peer := by
  obtain ⟨hkeep,haddr⟩ := peer.sockMeta.merge_decided h
  refine ⟨?_,?_,?_⟩
  · simp [markedEntry,h,hkeep]
  · simp [markedEntry,h,haddr,peer.hasAddr_sockMeta]
  · simp [markedEntry,h]

namespace KeepStep

theorem get_mark (sockMeta : SockMetaMap) {probe : Probe} {tgid : UInt32} (mfd : ℤ) (peer : SockPeer)
    (fd : UInt32) (h : probe.tgid = tgid ∧ probe.filter.tgidCaptured tgid = true) :
    (markSockMeta sockMeta probe mfd peer.sockMeta).get (sockFdKey tgid fd) =
      if Marks mfd fd then
        some (markedEntry (sockMeta.get (sockFdKey tgid fd)) peer probe.drawKeepIo)
      else sockMeta.get (sockFdKey tgid fd) := by
  obtain ⟨rfl,hcap⟩ := h
  simp only [markSockMeta,hcap,Bool.not_true,Bool.false_eq_true,if_false]
  by_cases hrange : mfd < 0 ∨ mfd > 2^32 - 1
  · have hnot : ¬ Marks mfd fd := fun hm => hm.1 hrange
    rw [if_pos hrange,if_neg hnot]
  · rw [if_neg hrange]
    by_cases hfd : UInt32.ofNat mfd.toNat = fd
    · have hmarks : Marks mfd fd := ⟨hrange,hfd⟩
      rw [if_pos hmarks,hfd,FiniteMap.get_put_self]
      rfl
    · have hnot : ¬ Marks mfd fd := fun hm => hfd hm.2
      have hkey : sockFdKey probe.tgid fd ≠ sockFdKey probe.tgid (UInt32.ofNat mfd.toNat) :=
        fun hk => hfd (sockFdKey_inj.mp hk).2.symm
      rw [if_neg hnot,FiniteMap.get_put,if_neg hkey]

theorem get_close (sockMeta : SockMetaMap) (tgid cfd fd : UInt32) :
    (unmarkSockFd sockMeta tgid cfd).get (sockFdKey tgid fd) =
      if cfd = fd then none else sockMeta.get (sockFdKey tgid fd) := by
  rw [unmarkSockFd,FiniteMap.get_remove]
  simp only [sockFdKey_inj,true_and,eq_comm (a := fd)]

theorem check_decided {sockMeta : SockMetaMap} {probe : Probe} {tgid fd : UInt32}
    (h : probe.tgid = tgid ∧ probe.filter.tgidCaptured tgid = true)
    (hheld : ∀ m ∈ sockMeta.get (sockFdKey tgid fd), m.ioSampledKeep.isSome = true) :
    existingFdKeepIo sockMeta probe fd =
      (sockMeta,((sockMeta.get (sockFdKey tgid fd)).bind SockMeta.ioSampledKeep).getD false) := by
  obtain ⟨rfl,hcap⟩ := h
  simp only [existingFdKeepIo,hcap,Bool.not_true,Bool.false_eq_true,if_false]
  cases hget : sockMeta.get (sockFdKey probe.tgid fd) with
  | none => rfl
  | some m =>
    obtain ⟨keep,hkeep⟩ := Option.isSome_iff_exists.mp (hheld m hget)
    simp [SockMeta.keepFromLookup,hkeep]

/-- The table behind a log: a descriptor that is marked has an entry that holds a decision and the
last peer, any other has none. -/
structure Tracks (tgid : UInt32) (log : List KeepStep) (sockMeta : SockMetaMap) : Prop where
  unmarked : ∀ fd, held (effect fd) log = none → sockMeta.get (sockFdKey tgid fd) = none
  marked : ∀ fd i peer, held (effect fd) log = some (i,peer) →
    ∃ m keep, sockMeta.get (sockFdKey tgid fd) = some m ∧ Holds m keep peer

theorem Tracks.decided {tgid : UInt32} {log : List KeepStep} {sockMeta : SockMetaMap}
    (h : Tracks tgid log sockMeta) (fd : UInt32) :
    ∀ m ∈ sockMeta.get (sockFdKey tgid fd), m.ioSampledKeep.isSome = true := by
  intro m hm
  cases hheld : held (effect fd) log with
  | none =>
    rw [Option.mem_def,h.unmarked fd hheld] at hm
    cases hm
  | some e =>
    obtain ⟨m',keep,hget,hholds⟩ := h.marked fd e.1 e.2 hheld
    obtain rfl : m' = m := Option.some.inj (hget.symm.trans hm)
    rw [hholds.decided]
    rfl

/-- Along with the invariant, a step that does not close the descriptor keeps its decision. -/
theorem Tracks.step {tgid : UInt32} {log : List KeepStep} {sockMeta : SockMetaMap}
    (h : Tracks tgid log sockMeta) {step : KeepStep} (hof : step.Of tgid) :
    Tracks tgid (log ++ [step]) (apply sockMeta step).1 ∧
      ∀ fd m keep, effect fd step ≠ .clear → sockMeta.get (sockFdKey tgid fd) = some m →
        m.ioSampledKeep = some keep →
        ∃ m', (apply sockMeta step).1.get (sockFdKey tgid fd) = some m' ∧
          m'.ioSampledKeep = some keep := by
  cases step with
  | mark probe mfd peer =>
    have hget := fun fd => get_mark sockMeta mfd peer fd hof
    refine ⟨⟨fun fd hheld => ?_,fun fd i p hheld => ?_⟩,fun fd m keep _ hm hkeep => ?_⟩
    · rw [held_concat,effect] at hheld
      split_ifs at hheld with hmarks
      · simp [Effect.update] at hheld
      · rw [apply,hget,if_neg hmarks]
        exact h.unmarked fd hheld
    · rw [held_concat,effect] at hheld
      rw [apply,hget]
      split_ifs at hheld with hmarks
      · obtain ⟨-,rfl⟩ := Prod.mk.inj (Option.some.inj hheld)
        rw [if_pos hmarks]
        cases hold : sockMeta.get (sockFdKey tgid fd) with
        | none => exact ⟨_,_,rfl,markedEntry_new peer probe.drawKeepIo⟩
        | some old =>
          obtain ⟨keep,hkeep⟩ := Option.isSome_iff_exists.mp (h.decided fd old hold)
          exact ⟨_,_,rfl,markedEntry_again hkeep peer probe.drawKeepIo⟩
      · rw [if_neg hmarks]
        exact h.marked fd i p hheld
    · rw [apply,hget,hm]
      split_ifs
      · exact ⟨_,rfl,(markedEntry_again hkeep peer probe.drawKeepIo).decided⟩
      · exact ⟨m,rfl,hkeep⟩
  | check probe cfd =>
    have hsame : (apply sockMeta (.check probe cfd)).1 = sockMeta := by
      rw [apply,check_decided hof (h.decided cfd)]
    have hheld : ∀ fd, held (effect fd) (log ++ [.check probe cfd]) = held (effect fd) log :=
      fun fd => held_append_keep (by simp [effect])
    rw [hsame]
    refine ⟨⟨fun fd => ?_,fun fd => ?_⟩,fun fd m keep _ hm hkeep => ⟨m,hm,hkeep⟩⟩
    · rw [hheld]
      exact h.unmarked fd
    · rw [hheld]
      exact h.marked fd
  | close tgid' cfd =>
    obtain rfl : tgid' = tgid := hof
    refine ⟨⟨fun fd hheld => ?_,fun fd i p hheld => ?_⟩,fun fd m keep hopen hm hkeep => ?_⟩
    · rw [held_concat,effect] at hheld
      rw [apply,get_close]
      split_ifs at hheld ⊢ with hfd
      · rfl
      · exact h.unmarked fd hheld
    · rw [held_concat,effect] at hheld
      rw [apply,get_close]
      split_ifs at hheld with hfd
      · simp [Effect.update] at hheld
      · rw [if_neg hfd]
        exact h.marked fd i p hheld
    · rw [effect] at hopen
      split_ifs at hopen with hfd
      · exact absurd rfl hopen
      · rw [apply,get_close,if_neg hfd]
        exact ⟨m,hm,hkeep⟩

theorem run_tracks {tgid : UInt32} {steps : List KeepStep} (hof : ∀ step ∈ steps, step.Of tgid) :
    Tracks tgid steps (run steps) := by
  induction steps using List.reverseRecOn with
  | nil => exact ⟨fun _ _ => rfl,fun _ _ _ h => by simp at h⟩
  | append_singleton steps step ih =>
    rw [run,Machine.final,List.foldl_concat]
    exact ((ih fun s hs => hof s (by simp [hs])).step (hof step (by simp))).1

theorem run_keeps {tgid fd : UInt32} {pre mid : List KeepStep} {m : SockMeta} {keep : Bool}
    (hof : ∀ step ∈ pre ++ mid, step.Of tgid) (hopen : ∀ step ∈ mid, effect fd step ≠ .clear)
    (hm : (run pre).get (sockFdKey tgid fd) = some m) (hkeep : m.ioSampledKeep = some keep) :
    ∃ m', (run (pre ++ mid)).get (sockFdKey tgid fd) = some m' ∧ m'.ioSampledKeep = some keep := by
  induction mid using List.reverseRecOn with
  | nil => exact ⟨m,by simpa using hm,hkeep⟩
  | append_singleton mid step ih =>
    have hof' : ∀ s ∈ pre ++ mid, s.Of tgid := by
      intro s hs
      apply hof
      rw [← List.append_assoc]
      exact List.mem_append_left _ hs
    obtain ⟨m',hm',hkeep'⟩ := ih hof' fun s hs => hopen s (by simp [hs])
    rw [← List.append_assoc,run,Machine.final,List.foldl_concat]
    exact ((run_tracks hof').step (hof step (by simp))).2 fd m' keep (hopen step (by simp)) hm' hkeep'

/-- From the mark that makes an entry on and up to the next close, the entry holds one decision, the
last peer and its flag, and every check returns the decision.  A check of a descriptor that is not
marked returns false and leaves the table alone. -/
theorem sampling_sticky (tgid fd : UInt32) (pre mid : List KeepStep) (first : KeepStep)
    (peer : SockPeer) (hof : ∀ step ∈ pre ++ first :: mid, step.Of tgid)
    (hnew : held (effect fd) pre = none) (hfirst : first.effect fd = .write peer)
    (hopen : ∀ step ∈ mid, step ≠ .close tgid fd) :
    (∀ probe : Probe, probe.tgid = tgid → probe.filter.tgidCaptured tgid = true →
      existingFdKeepIo (run pre) probe fd = (run pre,false)) ∧
    ∃ keep, ∀ mid', mid' <+: mid →
      (∃ m i last, held (effect fd) (pre ++ first :: mid') = some (i,last) ∧
        (run (pre ++ first :: mid')).get (sockFdKey tgid fd) = some m ∧
        m.ioSampledKeep = some keep ∧ m.hasAddr = true ∧
        PeerAddr.fromMeta m = PeerAddr.fromMeta last.sockMeta) ∧
      ∀ probe : Probe, probe.tgid = tgid → probe.filter.tgidCaptured tgid = true →
        (existingFdKeepIo (run (pre ++ first :: mid')) probe fd).2 = keep := by
  have hofpre : ∀ step ∈ pre, step.Of tgid := fun s hs => hof s (by simp [hs])
  have hofnew : ∀ step ∈ pre ++ [first], step.Of tgid := by
    intro s hs
    apply hof
    rcases List.mem_append.mp hs with hs | hs
    · simp [hs]
    · simp [List.mem_singleton.mp hs]
  refine ⟨fun probe htgid hcap => ?_,?_⟩
  · have htracks := run_tracks hofpre
    rw [check_decided ⟨htgid,hcap⟩ (htracks.decided fd),htracks.unmarked fd hnew]
    rfl
  have hheld : held (effect fd) (pre ++ [first]) = some (pre.length,peer) := by
    rw [held_concat,hfirst,Effect.update]
  obtain ⟨m,keep,hm,hholds⟩ := (run_tracks hofnew).marked fd _ _ hheld
  refine ⟨keep,fun mid' hmid => ?_⟩
  have hsplit : pre ++ first :: mid' = (pre ++ [first]) ++ mid' := by simp
  have hofmid : ∀ step ∈ (pre ++ [first]) ++ mid', step.Of tgid := by
    intro s hs
    rcases List.mem_append.mp hs with hs | hs
    · exact hofnew s hs
    · exact hof s (by simp [hmid.subset hs])
  have hopen' : ∀ step ∈ mid', effect fd step ≠ .clear := by
    intro s hs hclear
    obtain ⟨tgid',rfl⟩ := effect_clear hclear
    obtain rfl : tgid' = tgid := hofmid _ (List.mem_append_right _ hs)
    exact hopen _ (hmid.subset hs) rfl
  obtain ⟨m',hm',hkeep'⟩ := run_keeps hofmid hopen' hm hholds.decided
  have htracks := run_tracks hofmid
  rw [hsplit]
  refine ⟨?_,fun probe htgid hcap => ?_⟩
  · cases hlast : held (effect fd) ((pre ++ [first]) ++ mid') with
    | none =>
      rw [htracks.unmarked fd hlast] at hm'
      cases hm'
    | some e =>
      obtain ⟨m'',keep'',hm'',hholds''⟩ := htracks.marked fd e.1 e.2 hlast
      obtain rfl : m'' = m' := Option.some.inj (hm''.symm.trans hm')
      exact ⟨m'',e.1,e.2,rfl,hm',hkeep',hholds''.hasAddr,hholds''.peer⟩
  · rw [check_decided ⟨htgid,hcap⟩ (htracks.decided fd),hm']
    simp [hkeep']

/-- A connect, a connect again to another address while the denominator is 4, and the checks between
them. -/
theorem sampling_sticky_remarked :
    ∃ keep, ∀ mid', mid' <+: [KeepStep.check ⟨7,⟨none,∅,∅⟩,some 4,1⟩ 3,
        .mark ⟨7,⟨none,∅,∅⟩,some 4,1⟩ 3 (.v4 9 443)] →
      (existingFdKeepIo (run (.mark ⟨7,⟨none,∅,∅⟩,some 4,8⟩ 3 (.v4 5 80) :: mid'))
        ⟨7,⟨none,∅,∅⟩,some 4,1⟩ 3).2 = keep := by
  obtain ⟨-,keep,h⟩ := sampling_sticky 7 3 [] [KeepStep.check ⟨7,⟨none,∅,∅⟩,some 4,1⟩ 3,
    .mark ⟨7,⟨none,∅,∅⟩,some 4,1⟩ 3 (.v4 9 443)] (.mark ⟨7,⟨none,∅,∅⟩,some 4,8⟩ 3 (.v4 5 80))
    (.v4 5 80) (by simp [Of]; decide) rfl (by simp [effect]; decide) (by simp)
  exact ⟨keep,fun mid' hmid => (h mid' hmid).2 _ rfl (by decide)⟩

end KeepStep
end Kernel
end ObsAgent
