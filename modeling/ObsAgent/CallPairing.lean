import ObsAgent.Probes
import ObsAgent.Stash

/-! The two probes of a system call.  The enter leaves an entry under its thread and the exit takes
it; in between the probes of other threads and other calls run in any order.  An exit reports the
call whose enter it belongs to. -/
namespace ObsAgent
namespace Kernel

open Stash (Role Closed)

/-- The role of a step for the slot of one thread. -/
def KernelStep.roleOf (role : ProbeKind → Role) (tid : UInt32) : KernelStep → Role
  | .fire c _ probe => if c.pid = tid then role probe else .idle
  | .clearInflight _ _ => .idle

/-- A map by thread in which the enters leave an entry and the exits take it. -/
structure ThreadSlot {V : Type} (slot : ProbeMaps → FiniteMap UInt32 V) (role : ProbeKind → Role)
    (stash : ProbeMaps → Caller → Room → ProbeKind → Option V) : Prop where
  enter : ∀ m c room probe, role probe = .enter → ∀ tid, (slot (m.fire c room probe).1).get tid =
    if tid = c.pid then (stash m c room probe).or ((slot m).get c.pid) else (slot m).get tid
  exit : ∀ m c room probe, role probe = .exit → ∀ tid, (slot (m.fire c room probe).1).get tid =
    if tid = c.pid then none else (slot m).get tid
  idle : ∀ m c room probe, role probe = .idle → slot (m.fire c room probe).1 = slot m
  clear : ∀ m tgid fd, slot (m.step (.clearInflight tgid fd)).1 = slot m

/-- What a step leaves, if it is an enter. -/
def stashOf {V : Type} (stash : ProbeMaps → Caller → Room → ProbeKind → Option V) (m : ProbeMaps) :
    KernelStep → Option V
  | .fire c room probe => stash m c room probe
  | .clearInflight _ _ => none

theorem ThreadSlot.slotted {V : Type} {slot : ProbeMaps → FiniteMap UInt32 V}
    {role : ProbeKind → Role} {stash : ProbeMaps → Caller → Room → ProbeKind → Option V}
    (h : ThreadSlot slot role stash) (tid : UInt32) :
    Stash.Slotted ProbeMaps.step (KernelStep.roleOf role tid) (fun m => (slot m).get tid)
      (stashOf stash) where
  enter m e hrole := by
    cases e with
    | fire c room probe =>
      simp only [KernelStep.roleOf] at hrole
      split_ifs at hrole with htid
      subst htid
      exact (h.enter m c room probe hrole c.pid).trans (if_pos rfl)
    | clearInflight tgid fd => cases hrole
  exit m e hrole := by
    cases e with
    | fire c room probe =>
      simp only [KernelStep.roleOf] at hrole
      split_ifs at hrole with htid
      subst htid
      exact (h.exit m c room probe hrole c.pid).trans (if_pos rfl)
    | clearInflight tgid fd => cases hrole
  idle m e hrole := by
    cases e with
    | clearInflight tgid fd => rw [h.clear]
    | fire c room probe =>
      change (slot (m.fire c room probe).1).get tid = _
      simp only [KernelStep.roleOf] at hrole
      split_ifs at hrole with htid
      · rw [h.idle m c room probe hrole]
      · cases hprobe : role probe with
        | enter => rw [h.enter m c room probe hprobe,if_neg (Ne.symm htid)]
        | exit => rw [h.exit m c room probe hprobe,if_neg (Ne.symm htid)]
        | idle => rw [h.idle m c room probe hprobe]

/-- Before the exit of a call its thread's entry is what the enter has left. -/
theorem ThreadSlot.taken {V : Type} {slot : ProbeMaps → FiniteMap UInt32 V}
    {role : ProbeKind → Role} {stash : ProbeMaps → Caller → Room → ProbeKind → Option V}
    (h : ThreadSlot slot role stash) (hstart : slot .start = ∅) {before between : List KernelStep}
    (c : Caller) (room : Room) (probe : ProbeKind) (henter : role probe = .enter)
    (hclosed : Closed (KernelStep.roleOf role c.pid) before)
    (hidle : ∀ e ∈ between, KernelStep.roleOf role c.pid e = .idle) :
    (slot (Machine.final ProbeMaps.step .start (before ++ .fire c room probe :: between))).get c.pid =
      stash (Machine.final ProbeMaps.step .start before) c room probe :=
  (h.slotted c.pid).taken (by rw [hstart]; rfl) hclosed (by simp [KernelStep.roleOf,henter]) hidle

theorem get_of_no_stash {V : Type} (m : FiniteMap UInt32 V) (pid tid : UInt32) :
    (if tid = pid then (none : Option V).or (m.get pid) else m.get tid) = m.get tid := by
  split_ifs with h
  · rw [h,Option.none_or]
  · rfl

def ProbeKind.callRole : ProbeKind → Role
  | .enterConnect _ _ | .enterAccept4 _ => .enter
  | .exitConnect _ | .exitAccept4 _ => .exit
  | _ => .idle

def ProbeKind.ioRole : ProbeKind → Role
  | .enterIo _ _ _ => .enter
  | .exitIo _ => .exit
  | _ => .idle

def ProbeKind.handshakeRole : ProbeKind → Role
  | .enterSslDoHandshake _ => .enter
  | .exitSslDoHandshake _ => .exit
  | _ => .idle

/-- The probes that note the start of a handshake or forget it. -/
def ProbeKind.timesHandshake : ProbeKind → Bool
  | .enterClose _ | .enterSslFree _ | .enterSslDoHandshake _ | .exitSslDoHandshake _ => true
  | _ => false

/-- A probe leaves the calls of the kinds that it is not about as they are. -/
structure Untouched (m m' : Calls) (probe : ProbeKind) : Prop where
  pendingEnter : probe.callRole = .idle → m'.pendingEnter = m.pendingEnter
  pendingIo : probe.ioRole = .idle → m'.pendingIo = m.pendingIo
  pendingHs : probe.handshakeRole = .idle → m'.pendingHs = m.pendingHs
  handshakeStart : probe.timesHandshake = false → m'.handshakeStart = m.handshakeStart

theorem Untouched.of_eq {m m' : Calls} {probe : ProbeKind} (h : m' = m) : Untouched m m' probe := by
  rw [h]
  exact ⟨fun _ => rfl,fun _ => rfl,fun _ => rfl,fun _ => rfl⟩

theorem ProbeMaps.fire_untouched (m : ProbeMaps) (c : Caller) (room : Room) (probe : ProbeKind) :
    Untouched m.toCalls (m.fire c room probe).1.toCalls probe := by
  cases probe with
  | enterConnect fd sockaddr =>
    obtain ⟨p,hp⟩ := m.tryEnterConnect_toCalls c room fd sockaddr
    rw [fire,hp]
    exact ⟨nofun,fun _ => rfl,fun _ => rfl,fun _ => rfl⟩
  | exitConnect ret =>
    obtain ⟨p,hp⟩ := m.tryExitKind_toCalls c .connect ret
    rw [fire,hp]
    exact ⟨nofun,fun _ => rfl,fun _ => rfl,fun _ => rfl⟩
  | enterAccept4 sockaddr =>
    obtain ⟨p,hp⟩ := m.tryEnterAccept4_toCalls c room sockaddr
    rw [fire,hp]
    exact ⟨nofun,fun _ => rfl,fun _ => rfl,fun _ => rfl⟩
  | exitAccept4 ret =>
    obtain ⟨p,hp⟩ := m.tryExitAccept4_toCalls c room ret
    rw [fire,hp]
    exact ⟨nofun,fun _ => rfl,fun _ => rfl,fun _ => rfl⟩
  | enterClose fd => exact ⟨fun _ => rfl,fun _ => rfl,fun _ => rfl,nofun⟩
  | enterIo fd args dir =>
    obtain ⟨p,hp⟩ := m.tryEnterIo_toCalls c room fd args dir
    rw [fire,hp]
    exact ⟨fun _ => rfl,nofun,fun _ => rfl,fun _ => rfl⟩
  | exitIo ret =>
    obtain ⟨p,hp⟩ := m.tryExitIo_toCalls c room ret
    rw [fire,hp]
    exact ⟨fun _ => rfl,nofun,fun _ => rfl,fun _ => rfl⟩
  | enterSslSetFd ssl fd => exact .of_eq (m.tryEnterSslSetFd_toCalls c room ssl fd)
  | enterSslFree ssl =>
    obtain ⟨p,hp⟩ := m.tryEnterSslFree_toCalls c ssl
    rw [fire,hp]
    exact ⟨fun _ => rfl,fun _ => rfl,fun _ => rfl,nofun⟩
  | enterSslIo ssl buf dir => exact .of_eq (m.tryEnterSslIo_toCalls c room ssl buf dir)
  | enterSslIoEx ssl buf outlen dir =>
    exact .of_eq (m.tryEnterSslIoEx_toCalls c room ssl buf outlen dir)
  | exitSslIo isEx rax => exact .of_eq (m.tryExitSslPending_toCalls c room isEx rax)
  | enterSslDoHandshake ssl =>
    obtain ⟨p,q,hp⟩ := m.tryEnterSslDoHandshake_toCalls c room ssl
    rw [fire,hp]
    exact ⟨fun _ => rfl,fun _ => rfl,nofun,nofun⟩
  | exitSslDoHandshake ret =>
    obtain ⟨p,q,hp⟩ := m.tryExitSslDoHandshake_toCalls c room ret
    rw [fire,hp]
    exact ⟨fun _ => rfl,fun _ => rfl,nofun,nofun⟩

theorem get_of_taken {V : Type} {m : FiniteMap UInt32 V} {pid : UInt32} (h : m.get pid = none)
    (tid : UInt32) : m.get tid = if tid = pid then none else m.get tid := by
  split_ifs with htid
  · rw [htid,h]
  · rfl

inductive SocketCall
  | connect (fd sockaddr : UInt64)
  | accept4 (sockaddr : UInt64)

namespace SocketCall

def enter : SocketCall → ProbeKind
  | connect fd sockaddr => .enterConnect fd sockaddr
  | accept4 sockaddr => .enterAccept4 sockaddr

def exit (ret : ℤ) : SocketCall → ProbeKind
  | connect _ _ => .exitConnect ret
  | accept4 _ => .exitAccept4 ret

def kind : SocketCall → EventKind
  | connect _ _ => .connect
  | accept4 _ => .accept

/-- Address and port of the peer: of a connect from the memory that its enter finds, of an accept
that succeeds from the memory that its exit finds. -/
def peer (atEnter atExit : UserMemory) (ret : ℤ) : SocketCall → Option (UInt32 × UInt16)
  | connect _ sockaddr =>
    (readSockaddr atEnter sockaddr).map fun peer => (peer.v4Addr.getD 0,peer.dportBe)
  | accept4 sockaddr =>
    some (if sockaddr ≠ 0 ∧ ret ≥ 0 then
      ((readSockaddr atExit sockaddr).map fun peer => (peer.v4Addr.getD 0,peer.dportBe)).getD (0,0)
    else (0,0))

end SocketCall

/-- A record that is due goes to the ring, or is counted as dropped. -/
structure Submits (drops : ℕ) (c : Caller) (due : Option RingEvent)
    (q : ProbeMaps × List RingEvent) : Prop where
  records : q.2 = if c.ringFree then due.toList else []
  dropped : q.1.drops = drops + if c.ringFree then 0 else due.toList.length

theorem Submits.nothing (m : ProbeMaps) (c : Caller) : Submits m.drops c none (m,[]) := by
  constructor <;> simp

theorem ProbeMaps.submit_submits (m : ProbeMaps) (c : Caller) (ev : RingEvent) :
    Submits m.drops c (some ev) (m.submit c ev) := by
  unfold submit
  constructor <;> split <;> simp_all

theorem ProbeMaps.emit_submits (m : ProbeMaps) (c : Caller) (kind : EventKind) (ret : ℤ)
    (latencyNs : ℕ) (daddrBe : UInt32) (dportBe : UInt16) :
    Submits m.drops c (if captured c then
      some (.latency ⟨kind.toU8,c.pid,c.tgid,ret,latencyNs,c.tsNs,daddrBe,dportBe⟩) else none)
      (m.emit c kind ret latencyNs daddrBe dportBe) := by
  unfold emit
  cases captured c with
  | false => exact .nothing m c
  | true => exact m.submit_submits c _

/-- The record of a call whose two probes find its process captured. -/
def SocketCall.due (call : SocketCall) (c c' : Caller) (room : Room) (ret : ℤ) : Option RingEvent :=
  if ProbeMaps.captured c && room.pendingEnter && ProbeMaps.captured c' then
    (call.peer c.mem c'.mem ret).map fun peer => .latency
      ⟨call.kind.toU8,c'.pid,c'.tgid,ret,c'.tsNs - c.tsNs,c'.tsNs,peer.1,peer.2⟩
  else none

/-- A `sockaddr_in` at address 64 and a request of 18 octets at address 128. -/
def requestMemory : UserMemory where
  byte p :=
    if p < 128 then ([2,0,31,144,10,0,0,1] : List UInt8).getD (p.toNat - 64) 0
    else ([71,69,84,32,47,32,72,84,84,80,47,49,46,49,13,10,13,10] : List UInt8).getD (p.toNat - 128) 0
  mapped _ := true

/-- What the enter of a read or a write leaves.  The descriptor is marked, as it is kept. -/
def ioStash (m : ProbeMaps) (c : Caller) (room : Room) : ProbeKind → Option StashedIo
  | .enterIo fd args dir =>
    (args.firstBuffer c.mem).bind fun buf =>
      if (existingFdKeepIo m.sockMeta c.toProbe fd.toUInt32).2 && room.pendingIo then
        if m.isTlsFd c.tgid fd.toUInt32 then some ⟨⟨0,0,fd.toUInt32.toInt32,dir.toU8⟩,true⟩
        else if buf.1 = 0 then none
        else some ⟨⟨buf.1,buf.2,fd.toUInt32.toInt32,dir.toU8⟩,false⟩
      else none
  | _ => none

theorem emitIoKind_keeps {maps : IoMaps} {c : Caller} {kind : EventKind} {pending : PendingIo}
    {ret : ℤ} {ev : SockIoEvent} (h : (emitIoKind maps c kind pending ret).2 = some ev) :
    (existingFdKeepIo maps.sockMeta c.toProbe pending.fd.toUInt32).2 = true := by
  by_contra hkeep
  rw [Bool.not_eq_true] at hkeep
  simp only [emitIoKind,hkeep,Bool.not_false,if_true] at h
  split at h <;> cases h

theorem existingFdKeepIo_captured {sockMeta : SockMetaMap} {probe : Probe} {fd : UInt32}
    (h : (existingFdKeepIo sockMeta probe fd).2 = true) :
    probe.filter.tgidCaptured probe.tgid = true := by
  unfold existingFdKeepIo at h
  split_ifs at h with hc
  simpa using hc

theorem existingFdKeepIo_marked {sockMeta : SockMetaMap} {probe : Probe} {fd : UInt32}
    (h : (existingFdKeepIo sockMeta probe fd).2 = true) :
    sockMeta.contains (sockFdKey probe.tgid fd) = true := by
  unfold existingFdKeepIo at h
  split_ifs at h
  dsimp only at h
  rw [FiniteMap.contains]
  split at h
  · cases h
  · next hget => rw [hget]; rfl

theorem ProbeMaps.stashPendingIo_pendingIo (m : ProbeMaps) (c : Caller) (room : Room) (fd : UInt32)
    (bufPtr : UInt64) (bufLen : ℕ) (dir : IoDir) (tid : UInt32) :
    (m.stashPendingIo c room fd bufPtr bufLen dir).pendingIo.get tid =
      if tid = c.pid then
        (if (existingFdKeepIo m.sockMeta c.toProbe fd).2 && room.pendingIo then
          if m.isTlsFd c.tgid fd then some ⟨⟨0,0,fd.toInt32,dir.toU8⟩,true⟩
          else if bufPtr = 0 then none else some ⟨⟨bufPtr,bufLen,fd.toInt32,dir.toU8⟩,false⟩
        else none).or (m.pendingIo.get c.pid)
      else m.pendingIo.get tid := by
  have hnone := get_of_no_stash m.pendingIo c.pid tid
  cases hkeep : (existingFdKeepIo m.sockMeta c.toProbe fd).2 with
  | false =>
    have hsame : (m.stashPendingIo c room fd bufPtr bufLen dir).pendingIo = m.pendingIo := by
      simp only [stashPendingIo,hkeep]
      split_ifs <;> first | rfl | contradiction
    rw [hsame]
    exact hnone.symm
  | true =>
    have hc : captured c = true := existingFdKeepIo_captured hkeep
    have hmarked : m.isMarkedSockFd c.tgid fd = true := existingFdKeepIo_marked hkeep
    cases htls : m.isTlsFd c.tgid fd with
    | true =>
      simp only [stashPendingIo,hkeep,hc,htls]
      exact get_place room.pendingIo m.pendingIo c.pid tid _
    | false =>
      by_cases hbuf : bufPtr = 0
      · have hsame : (m.stashPendingIo c room fd bufPtr bufLen dir).pendingIo = m.pendingIo := by
          simp [stashPendingIo,hc,htls,hbuf]
        rw [hsame,if_neg Bool.false_ne_true,if_pos hbuf,ite_self]
        exact hnone.symm
      · simp only [stashPendingIo,hkeep,hc,htls,hbuf,hmarked,if_false]
        exact get_place room.pendingIo m.pendingIo c.pid tid _

theorem pendingIo_slot : ThreadSlot (fun m => m.pendingIo) ProbeKind.ioRole ioStash where
  enter m c room probe hrole tid := by
    cases probe with
    | enterIo fd args dir =>
      change (m.tryEnterIo c room fd args dir).pendingIo.get tid = _
      cases hbuf : args.firstBuffer c.mem with
      | none =>
        simp only [ProbeMaps.tryEnterIo,ioStash,hbuf,Option.bind_none]
        exact (get_of_no_stash m.pendingIo c.pid tid).symm
      | some buf =>
        simp only [ProbeMaps.tryEnterIo,ioStash,hbuf,Option.bind_some]
        exact m.stashPendingIo_pendingIo c room fd.toUInt32 buf.1 buf.2 dir tid
    | _ => cases hrole
  exit m c room probe hrole tid := by
    cases probe with
    | exitIo ret =>
      change (m.tryExitIo c room ret).1.pendingIo.get tid = _
      cases hget : m.pendingIo.get c.pid with
      | none =>
        simp only [ProbeMaps.tryExitIo,hget]
        exact get_of_taken hget tid
      | some p =>
        cases htiming : p.timingOnly with
        | true =>
          simp only [ProbeMaps.tryExitIo,hget,htiming,if_true,ProbeMaps.emitTimes_toCalls]
          exact m.pendingIo.get_remove c.pid tid
        | false =>
          simp only [ProbeMaps.tryExitIo,hget,htiming,Bool.false_eq_true,if_false,
            ProbeMaps.emitIo_toCalls]
          exact m.pendingIo.get_remove c.pid tid
    | _ => cases hrole
  idle m c room probe hrole := (m.fire_untouched c room probe).pendingIo hrole
  clear m tgid fd := congrArg Calls.pendingIo (m.clearInflight_toCalls tgid fd)

theorem ProbeMaps.emitTimes_record {m : ProbeMaps} {c : Caller} {pending : PendingIo} {ret : ℤ}
    {r : RingEvent} (h : r ∈ (m.emitTimes c pending ret).2) :
    captured c = true ∧ 0 < ret ∧ r = .times ⟨EventKind.sockIoTimes.toU8,pending.dir,pending.fd,
      c.pid,c.tgid,ret,c.tsNs⟩ := by
  unfold emitTimes at h
  split_ifs at h with hret hfd
  · cases h
  · cases h
  · dsimp only at h
    cases hkeep : (existingFdKeepIo m.sockMeta c.toProbe pending.fd.toUInt32).2 with
    | false => simp [hkeep] at h
    | true =>
      refine ⟨existingFdKeepIo_captured hkeep,by omega,?_⟩
      rw [hkeep,Bool.not_true,if_neg Bool.false_ne_true,(submit_submits _ c _).records] at h
      split_ifs at h
      · simpa using h
      · cases h

theorem ProbeMaps.emitIo_record {m : ProbeMaps} {c : Caller} {room : Room} {pending : PendingIo}
    {ret : ℤ} {r : RingEvent} (h : r ∈ (m.emitIo c room pending ret).2) :
    captured c = true ∧ ioCopyLen ret pending.bufLen ≠ 0 ∧
      ∃ raw, c.mem.readPrefixBuf pending.bufPtr = some raw ∧
        r = .io ⟨EventKind.sockIo.toU8,pending.dir,ioCopyLen ret pending.bufLen,pending.fd,c.pid,
          c.tgid,ret,c.tsNs,c.cgroupId,zeroTail raw (ioCopyLen ret pending.bufLen)⟩ := by
  obtain ⟨ev,hev,rfl⟩ := List.mem_map.mp h
  have hemit := Option.mem_toList.mp hev
  obtain ⟨hlen,raw,hraw,rfl⟩ := emitIoKind_some hemit
  exact ⟨existingFdKeepIo_captured (emitIoKind_keeps hemit),hlen,raw,hraw,rfl⟩

theorem ioStash_some {m : ProbeMaps} {c : Caller} {room : Room} {fd : UInt64}
    {args : ProbeMaps.IoArgs} {dir : IoDir} {p : StashedIo}
    (h : ioStash m c room (.enterIo fd args dir) = some p) :
    (existingFdKeepIo m.sockMeta c.toProbe fd.toUInt32).2 = true ∧
      ∃ bufPtr bufLen, args.firstBuffer c.mem = some (bufPtr,bufLen) ∧
        if m.isTlsFd c.tgid fd.toUInt32 then p = ⟨⟨0,0,fd.toUInt32.toInt32,dir.toU8⟩,true⟩
        else p = ⟨⟨bufPtr,bufLen,fd.toUInt32.toInt32,dir.toU8⟩,false⟩ := by
  obtain ⟨buf,hbuf,hp⟩ := Option.bind_eq_some_iff.mp h
  split_ifs at hp with hkeep htls hzero
  · exact ⟨(Bool.and_eq_true_iff.mp hkeep).1,buf.1,buf.2,hbuf,by
      rw [if_pos htls,Option.some.inj hp]⟩
  · exact ⟨(Bool.and_eq_true_iff.mp hkeep).1,buf.1,buf.2,hbuf,by
      rw [if_neg htls,Option.some.inj hp]⟩

theorem ProbeMaps.tryExitIo_record {m : ProbeMaps} {c : Caller} {room : Room} {ret : ℤ}
    {r : RingEvent} (h : r ∈ (m.tryExitIo c room ret).2) :
    ∃ p m', m.pendingIo.get c.pid = some p ∧
      if p.timingOnly then r ∈ (emitTimes m' c p.toPendingIo ret).2
      else r ∈ (emitIo m' c room p.toPendingIo ret).2 := by
  unfold tryExitIo at h
  split at h
  · cases h
  · next p hget =>
    refine ⟨p,{m with pendingIo := m.pendingIo.remove c.pid},hget,?_⟩
    split_ifs with htiming
    · rwa [if_pos htiming] at h
    · rwa [if_neg htiming] at h

/-- Whatever else runs between the two probes of a read or a write, the record of its exit is about
this call: its descriptor, its direction and the octets of its buffer.  Of a descriptor that is
known to be TLS when the call starts there is only the time. -/
theorem io_call_reports_itself (before between : List KernelStep) (c c' : Caller) (room room' : Room)
    (fd : UInt64) (args : ProbeMaps.IoArgs) (dir : IoDir) (ret : ℤ) (hthread : c'.pid = c.pid)
    (hclosed : Closed (KernelStep.roleOf ProbeKind.ioRole c.pid) before)
    (hidle : ∀ e ∈ between, KernelStep.roleOf ProbeKind.ioRole c.pid e = .idle) :
    let m₀ := Machine.final ProbeMaps.step .start before
    let m := Machine.final ProbeMaps.step .start
      (before ++ .fire c room (.enterIo fd args dir) :: between)
    ∀ r ∈ (m.step (.fire c' room' (.exitIo ret))).2,
      ProbeMaps.captured c = true ∧ ProbeMaps.captured c' = true ∧
      m₀.isMarkedSockFd c.tgid fd.toUInt32 = true ∧
      ∃ bufPtr bufLen, args.firstBuffer c.mem = some (bufPtr,bufLen) ∧
        if m₀.isTlsFd c.tgid fd.toUInt32 then
          0 < ret ∧ r = .times ⟨EventKind.sockIoTimes.toU8,dir.toU8,fd.toUInt32.toInt32,c'.pid,
            c'.tgid,ret,c'.tsNs⟩
        else
          ∃ raw, c'.mem.readPrefixBuf bufPtr = some raw ∧ r = .io ⟨EventKind.sockIo.toU8,dir.toU8,
            ioCopyLen ret bufLen,fd.toUInt32.toInt32,c'.pid,c'.tgid,ret,c'.tsNs,c'.cgroupId,
            zeroTail raw (ioCopyLen ret bufLen)⟩ := by
  intro m₀ m r hr
  have hslot := pendingIo_slot.taken rfl c room (.enterIo fd args dir) rfl hclosed hidle
  obtain ⟨p,m',hget,hrecord⟩ := ProbeMaps.tryExitIo_record hr
  rw [hthread,hslot] at hget
  obtain ⟨hkeep,bufPtr,bufLen,hbuf,hp⟩ := ioStash_some hget
  have hc := existingFdKeepIo_captured hkeep
  have hmarked := existingFdKeepIo_marked hkeep
  split_ifs at hp with htls
  · subst hp
    obtain ⟨hc',hret,hr⟩ := ProbeMaps.emitTimes_record hrecord
    exact ⟨hc,hc',hmarked,bufPtr,bufLen,hbuf,by rw [if_pos htls]; exact ⟨hret,hr⟩⟩
  · subst hp
    obtain ⟨hc',-,raw,hraw,hr⟩ := ProbeMaps.emitIo_record hrecord
    exact ⟨hc,hc',hmarked,bufPtr,bufLen,hbuf,by rw [if_neg htls]; exact ⟨raw,hraw,hr⟩⟩

/-- A write with a read of another thread in between. -/
theorem io_call_reports_itself_interleaved :
    let c := plainCaller 7 11 300 requestMemory
    let other := plainCaller 7 12 500 requestMemory
    let before := [.fire c .all (.enterConnect 3 64),.fire c .all (.exitConnect 0)]
    let m := Machine.final ProbeMaps.step .start (before ++
      .fire c .all (.enterIo 3 (.scalar 128) .write) ::
        [.fire other .all (.enterIo 3 (.scalar 256) .read),.fire other .all (.exitIo 5)])
    let out := (m.step (.fire (plainCaller 7 11 900 requestMemory) .all (.exitIo 18))).2
    out.length = 1 ∧ ∀ r ∈ out, ∃ raw, requestMemory.readPrefixBuf 128 = some raw ∧
      r = .io ⟨3,2,18,3,11,7,18,900,0,zeroTail raw 18⟩ := by
  intro c other before m out
  refine ⟨by decide +kernel,fun r hr => ?_⟩
  obtain ⟨-,-,-,bufPtr,bufLen,hbuf,hrecord⟩ := io_call_reports_itself before _ c
    (plainCaller 7 11 900 requestMemory) .all .all 3 (.scalar 128) .write 18 rfl
    (Stash.closed_of_no_enter (by decide)) (by decide) r hr
  cases hbuf
  rw [if_neg (by decide +kernel)] at hrecord
  exact hrecord

end Kernel
end ObsAgent
