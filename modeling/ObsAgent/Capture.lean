import ObsAgent.SockMeta

/-! The kernel side of an I/O call: the sticky sample decision, the copy of the caller's
buffer, and the record that goes to the ring. -/
namespace ObsAgent
namespace Kernel

inductive EventKind
  | connect | accept | sockIo | tlsIo | sockIoTimes | tlsHandshake | stackSample
  deriving DecidableEq

def EventKind.toU8 : EventKind → UInt8
  | .connect => 1
  | .accept => 2
  | .sockIo => 3
  | .tlsIo => 4
  | .sockIoTimes => 5
  | .tlsHandshake => 6
  | .stackSample => 7

inductive SockMetaKeep
  | unmarked | undecided
  | decided (keep : Bool)

def SockMeta.keepFromLookup : Option SockMeta → SockMetaKeep
  | none => .unmarked
  | some m =>
    match m.ioSampledKeep with
    | some keep => .decided keep
    | none => .undecided

/-- Sticky keep of a marked descriptor. An entry that connect or accept did not make is
never created. -/
def existingFdKeepIo (sockMeta : SockMetaMap) (probe : Probe) (fd : UInt32) : SockMetaMap × Bool :=
  if !probe.filter.tgidCaptured probe.tgid then (sockMeta,false)
  else
    let key := sockFdKey probe.tgid fd
    match sockMeta.get key with
    | none => (sockMeta,false)
    | some m =>
      match SockMeta.keepFromLookup (some m) with
      | .unmarked => (sockMeta,false)
      | .decided keep => (sockMeta,keep)
      | .undecided =>
        let m := m.setIoKeep probe.drawKeepIo
        (sockMeta.put key m,m.flags &&& SockMeta.flagKeepIo != 0)

/-- The caller's memory: a read of a page that is not mapped fails. -/
structure UserMemory where
  byte : UInt64 → UInt8
  mapped : UInt64 → Bool

namespace UserMemory

def bytes (mem : UserMemory) (ptr : UInt64) (n : ℕ) : List UInt8 :=
  (List.range n).map fun i => mem.byte (ptr + UInt64.ofNat i)

def readable (mem : UserMemory) (ptr : UInt64) (n : ℕ) : Bool :=
  (List.range n).all fun i => mem.mapped (ptr + UInt64.ofNat i)

@[simp] theorem bytes_length (mem : UserMemory) (ptr : UInt64) (n : ℕ) :
    (mem.bytes ptr n).length = n := by
  simp [bytes]

def prefixBuf (mem : UserMemory) (ptr : UInt64) : PrefixBuf :=
  ⟨mem.bytes ptr sockIoPrefixLen,mem.bytes_length ptr sockIoPrefixLen⟩

/-- `bpf_probe_read_user_buf` into the fixed buffer of an event. -/
def readPrefixBuf (mem : UserMemory) (ptr : UInt64) : Option PrefixBuf :=
  if mem.readable ptr sockIoPrefixLen then some (mem.prefixBuf ptr) else none

/-- `bpf_probe_read_user` of a `u64`. -/
def readU64 (mem : UserMemory) (ptr : UInt64) : Option UInt64 :=
  if mem.readable ptr 8 then
    some ((mem.bytes ptr 8).foldr (fun b acc => (acc <<< 8) ||| b.toUInt64) 0)
  else none

end UserMemory

/-- What the probes of an I/O call read of their thread and of the machine. -/
structure Caller extends Probe where
  pid : UInt32
  tsNs : ℕ
  cgroupId : ℕ
  ringFree : Bool
  mem : UserMemory

/-- An I/O call between its enter and its exit. -/
structure PendingIo where
  bufPtr : UInt64
  bufLen : ℕ
  fd : Int32
  dir : UInt8

/-- The loop that clears what the fixed-size read copied too much. -/
def zeroTail (buf : PrefixBuf) (n : ℕ) : PrefixBuf :=
  ⟨buf.toList.mapIdx fun i b => if i ≥ n then 0 else b,by simp⟩

abbrev InflightMap := FiniteMap UInt64 UInt8

structure IoMaps where
  sockMeta : SockMetaMap
  inflight : InflightMap
  drops : ℕ

def isInflight (inflight : InflightMap) (tgid fd : UInt32) : Bool :=
  inflight.contains (sockFdKey tgid fd)

def markInflight (inflight : InflightMap) (tgid : UInt32) (fd : Int32) : InflightMap :=
  if fd < 0 then inflight else inflight.put (sockFdKey tgid fd.toUInt32) 1

def emitIoKind (maps : IoMaps) (c : Caller) (kind : EventKind) (pending : PendingIo) (ret : ℤ) :
    IoMaps × Option SockIoEvent :=
  let fd := pending.fd
  if fd < 0 then (maps,none)
  else
    let kept := existingFdKeepIo maps.sockMeta c.toProbe fd.toUInt32
    let maps := {maps with sockMeta := kept.1}
    if !kept.2 then (maps,none)
    else
      let prefixLen := ioCopyLen ret pending.bufLen
      if prefixLen = 0 then (maps,none)
      else
        match c.mem.readPrefixBuf pending.bufPtr with
        | none => (maps,none)
        | some raw =>
          let buf := zeroTail raw prefixLen
          let magic := httpMagic buf.toList prefixLen
          if !magic && !isInflight maps.inflight c.tgid fd.toUInt32 then (maps,none)
          else if !c.ringFree then ({maps with drops := maps.drops + 1},none)
          else
            (if magic then {maps with inflight := markInflight maps.inflight c.tgid fd} else maps,
              some ⟨kind.toU8,pending.dir,prefixLen,fd,c.pid,c.tgid,ret,c.tsNs,c.cgroupId,buf⟩)

theorem UserMemory.bytes_take (mem : UserMemory) (ptr : UInt64) {n m : ℕ} (h : n ≤ m) :
    (mem.bytes ptr m).take n = mem.bytes ptr n := by
  rw [bytes,bytes,← List.map_take,List.take_range,Nat.min_eq_left h]

theorem zeroTail_take (buf : PrefixBuf) (n : ℕ) :
    (zeroTail buf n).toList.take n = buf.toList.take n := by
  simp only [zeroTail,List.Vector.toList]
  apply List.ext_getElem (by simp)
  intro i hi _
  have hlt : i < n := by
    rw [List.length_take] at hi
    omega
  simp [Nat.not_le.mpr hlt]

theorem zeroTail_toList (buf : PrefixBuf) (n : ℕ) :
    (zeroTail buf n).toList = buf.toList.take n ++ List.replicate (sockIoPrefixLen - n) 0 := by
  have htail : (zeroTail buf n).toList.drop n = List.replicate (sockIoPrefixLen - n) 0 := by
    rw [List.eq_replicate_iff]
    refine ⟨by simp,fun b hb => ?_⟩
    obtain ⟨i,hi,rfl⟩ := List.mem_iff_getElem.mp hb
    simp [zeroTail,List.Vector.toList]
  rw [← List.take_append_drop n (zeroTail buf n).toList,zeroTail_take,htail]

theorem zeroTail_congr {buf buf' : PrefixBuf} {n : ℕ}
    (h : buf.toList.take n = buf'.toList.take n) : zeroTail buf n = zeroTail buf' n := by
  apply List.Vector.toList_injective
  rw [zeroTail_toList,zeroTail_toList,h]

theorem zeroTail_zeroTail (buf : PrefixBuf) (n : ℕ) :
    zeroTail (zeroTail buf n) n = zeroTail buf n :=
  zeroTail_congr (zeroTail_take buf n)

theorem ioCopyLen_le (ret : ℤ) (bufLen : ℕ) : ioCopyLen ret bufLen ≤ sockIoPrefixLen := by
  simp only [ioCopyLen]
  split_ifs <;> omega

theorem ioCopyLen_le_min {ret : ℤ} {bufLen : ℕ} (h : ioCopyLen ret bufLen ≠ 0) :
    (ioCopyLen ret bufLen : ℤ) ≤ min (min ret bufLen) sockIoPrefixLen := by
  simp only [ioCopyLen] at h ⊢
  split_ifs at h ⊢ <;> omega

/-- What a record says: the call it comes from and the valid octets of its buffer. -/
theorem emitIoKind_some {maps : IoMaps} {c : Caller} {kind : EventKind} {pending : PendingIo}
    {ret : ℤ} {ev : SockIoEvent} (h : (emitIoKind maps c kind pending ret).2 = some ev) :
    ioCopyLen ret pending.bufLen ≠ 0 ∧ ∃ raw, c.mem.readPrefixBuf pending.bufPtr = some raw ∧
      ev = ⟨kind.toU8,pending.dir,ioCopyLen ret pending.bufLen,pending.fd,c.pid,c.tgid,ret,c.tsNs,
        c.cgroupId,zeroTail raw (ioCopyLen ret pending.bufLen)⟩ := by
  cases hread : c.mem.readPrefixBuf pending.bufPtr with
  | none =>
    simp only [emitIoKind,hread] at h
    split_ifs at h
  | some raw =>
    simp only [emitIoKind,hread] at h
    split_ifs at h with _ _ hlen <;> cases h <;> exact ⟨hlen,raw,rfl,rfl⟩

theorem emitIoKind_event {maps : IoMaps} {c : Caller} {kind : EventKind} {pending : PendingIo}
    {ret : ℤ} {ev : SockIoEvent} (h : (emitIoKind maps c kind pending ret).2 = some ev) :
    ev.fd = pending.fd ∧ ev.tgid = c.tgid ∧ ev.kind = kind.toU8 := by
  obtain ⟨-,raw,-,rfl⟩ := emitIoKind_some h
  exact ⟨rfl,rfl,rfl⟩

end Kernel
end ObsAgent
