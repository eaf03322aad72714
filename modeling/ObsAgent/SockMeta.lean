import ObsAgent.Correlate

/-! `SOCK_META`, the kernel's table of socket peers: connect and accept mark a descriptor,
close unmarks it. -/
namespace ObsAgent
namespace Kernel

def afInet : UInt16 := 2

def afInet6 : UInt16 := 10

/-- Peer and sample decision of a descriptor: the value type of `SOCK_META`. -/
structure SockMeta where
  family : UInt8
  flags : UInt8
  dportBe : UInt16
  daddr : List.Vector UInt8 16
  deriving DecidableEq

namespace SockMeta

def flagHasAddr : UInt8 := 1

def flagSampleDecided : UInt8 := 2

def flagKeepIo : UInt8 := 4

/-- The sample decision, once it has been drawn. -/
def ioSampledKeep (m : SockMeta) : Option Bool :=
  if m.flags &&& flagSampleDecided = 0 then none else some (m.flags &&& flagKeepIo != 0)

def setIoKeep (m : SockMeta) (keep : Bool) : SockMeta :=
  let flags := m.flags &&& ~~~(flagSampleDecided ||| flagKeepIo)
  let flags := flags ||| flagSampleDecided
  {m with flags := if keep then flags ||| flagKeepIo else flags}

/-- `u32::to_ne_bytes` on the little-endian hosts the agent runs on. -/
def toNeBytes (v : UInt32) : List UInt8 :=
  [v.toUInt8,(v >>> 8).toUInt8,(v >>> 16).toUInt8,(v >>> 24).toUInt8]

def withPeerV4 (daddrBe : UInt32) (dportBe : UInt16) : SockMeta where
  family := afInet.toUInt8
  flags := flagHasAddr
  dportBe := dportBe
  daddr := ⟨toNeBytes daddrBe ++ List.replicate 12 0,rfl⟩

def withPeerV6 (daddr : List.Vector UInt8 16) (dportBe : UInt16) : SockMeta where
  family := afInet6.toUInt8
  flags := flagHasAddr
  dportBe := dportBe
  daddr := daddr

def hasAddr (m : SockMeta) : Bool := m.flags &&& flagHasAddr != 0

/-- The peer of a new mark with the sample bits an earlier mark has drawn. -/
def mergePeerPreserveSample (m : SockMeta) (old : Option SockMeta) : SockMeta :=
  match old with
  | none => m
  | some old =>
    if old.ioSampledKeep.isSome then
      {m with flags :=
        (m.flags &&& flagHasAddr) ||| (old.flags &&& (flagSampleDecided ||| flagKeepIo))}
    else m

end SockMeta

/-- The process filter maps, as userspace has written them. -/
structure CaptureFilter where
  allowOnly : Option UInt32
  allowedTgid : FiniteMap UInt32 UInt8
  deniedTgid : FiniteMap UInt32 UInt8

def CaptureFilter.isDenied (f : CaptureFilter) (tgid : UInt32) : Bool := f.deniedTgid.contains tgid

def CaptureFilter.allowOnlyMode (f : CaptureFilter) : Bool :=
  match f.allowOnly with
  | some n => n != 0
  | none => false

def CaptureFilter.tgidCaptured (f : CaptureFilter) (tgid : UInt32) : Bool :=
  if f.allowOnlyMode then f.allowedTgid.contains tgid else !f.isDenied tgid

/-- What a probe reads when it fires: its caller, the filter maps, the sampling denominator
and a random draw. -/
structure Probe where
  tgid : UInt32
  filter : CaptureFilter
  sampleN : Option UInt32
  prandom : UInt32

def Probe.readSampleN (probe : Probe) : UInt32 := probe.sampleN.getD 1

def Probe.drawKeepIo (probe : Probe) : Bool :=
  let n := probe.readSampleN
  if n ≤ 1 then true else probe.prandom % n == 0

def sockFdKey (tgid fd : UInt32) : UInt64 := (tgid.toUInt64 <<< 32) ||| fd.toUInt64

/-- The map is never full: an insertion always takes effect. -/
abbrev SockMetaMap := FiniteMap UInt64 SockMeta

/-- Connect marks the descriptor it is given with the address it reads, accept the descriptor
it returns. -/
def markSockMeta (sockMeta : SockMetaMap) (probe : Probe) (fd : ℤ) (m : SockMeta) : SockMetaMap :=
  if fd < 0 ∨ fd > 2^32 - 1 then sockMeta
  else if !probe.filter.tgidCaptured probe.tgid then sockMeta
  else
    let key := sockFdKey probe.tgid (UInt32.ofNat fd.toNat)
    let old := sockMeta.get key
    let m := m.mergePeerPreserveSample old
    let m := if (old.bind SockMeta.ioSampledKeep).isNone then m.setIoKeep probe.drawKeepIo else m
    sockMeta.put key m

/-- The part of a close that concerns `SOCK_META`. -/
def unmarkSockFd (sockMeta : SockMetaMap) (tgid fd : UInt32) : SockMetaMap :=
  sockMeta.remove (sockFdKey tgid fd)

end Kernel

def Http1.PeerAddr.fromMeta (m : Kernel.SockMeta) : Option Http1.PeerAddr :=
  if m.hasAddr then some ⟨m.family,m.dportBe,m.daddr⟩ else none

namespace Kernel

open Http1

/-- The peer of a descriptor, if its entry has a valid address. -/
def SockMetaMap.peer (sockMeta : SockMetaMap) (tgid fd : UInt32) : Option PeerAddr :=
  (sockMeta.get (sockFdKey tgid fd)).bind PeerAddr.fromMeta

theorem toNat_sockFdKey (tgid fd : UInt32) :
    (sockFdKey tgid fd).toNat = tgid.toNat * 2^32 + fd.toNat := by
  have hfd := fd.toNat_lt
  have hlow := Nat.shiftLeft_add_eq_or_of_lt hfd tgid.toNat
  have hhigh : tgid.toNat <<< 32 % 18446744073709551616 = tgid.toNat <<< 32 := by
    have := tgid.toNat_lt
    rw [Nat.shiftLeft_eq,Nat.mod_eq_of_lt (by omega)]
  simp only [sockFdKey,UInt64.toNat_or,UInt64.toNat_shiftLeft,UInt32.toNat_toUInt64]
  simp only [UInt64.toNat_ofNat,Nat.reduceMod,Nat.reducePow]
  rw [hhigh,← hlow,Nat.shiftLeft_eq]

theorem sockFdKey_inj {tgid tgid' fd fd' : UInt32} :
    sockFdKey tgid fd = sockFdKey tgid' fd' ↔ tgid = tgid' ∧ fd = fd' := by
  refine ⟨fun h => ?_,fun h => by rw [h.1,h.2]⟩
  have hnat := congrArg UInt64.toNat h
  rw [toNat_sockFdKey,toNat_sockFdKey] at hnat
  have hfd := fd.toNat_lt
  have hfd' := fd'.toNat_lt
  exact ⟨UInt32.toNat_inj.mp (by omega),UInt32.toNat_inj.mp (by omega)⟩

theorem fromMeta_flags {m : SockMeta} {flags : UInt8}
    (h : flags &&& SockMeta.flagHasAddr = m.flags &&& SockMeta.flagHasAddr) :
    PeerAddr.fromMeta {m with flags := flags} = PeerAddr.fromMeta m := by
  simp only [PeerAddr.fromMeta,SockMeta.hasAddr,h]
  rfl

@[simp] theorem fromMeta_setIoKeep (m : SockMeta) (keep : Bool) :
    PeerAddr.fromMeta (m.setIoKeep keep) = PeerAddr.fromMeta m := by
  apply fromMeta_flags
  apply UInt8.toBitVec_inj.mp
  cases keep <;>
    simp [SockMeta.flagHasAddr,SockMeta.flagSampleDecided,SockMeta.flagKeepIo,
      BitVec.and_or_distrib_right,BitVec.and_assoc]

@[simp] theorem fromMeta_mergePeerPreserveSample (m : SockMeta) (old : Option SockMeta) :
    PeerAddr.fromMeta (m.mergePeerPreserveSample old) = PeerAddr.fromMeta m := by
  cases old with
  | none => rfl
  | some old =>
    rw [SockMeta.mergePeerPreserveSample]
    split_ifs
    · apply fromMeta_flags
      apply UInt8.toBitVec_inj.mp
      simp [SockMeta.flagHasAddr,SockMeta.flagSampleDecided,SockMeta.flagKeepIo,
        BitVec.and_or_distrib_right,BitVec.and_assoc]
    · rfl

inductive SockStep
  | mark (probe : Probe) (fd : ℤ) (m : SockMeta)
  | close (tgid fd : UInt32)

def SockStep.apply (sockMeta : SockMetaMap) : SockStep → SockMetaMap
  | .mark probe fd m => markSockMeta sockMeta probe fd m
  | .close tgid fd => unmarkSockFd sockMeta tgid fd

end Kernel
end ObsAgent
