import ObsAgent.Machine
import ObsAgent.RingRecord
import ObsAgent.TlsMaps

/-! The probes of the kernel program over all of its maps, with the calls of every thread between
their two probes.  An insertion may find its map full, and then leaves it as it is. -/
namespace ObsAgent
namespace Kernel

open LittleEndian

/-- The insertions that take effect while a probe runs, by map. -/
structure Room where
  sockMeta : Bool
  pendingEnter : Bool
  pendingIo : Bool
  pendingTls : Bool
  sslFd : Bool
  fdSsl : Bool
  tlsFds : Bool
  inflight : Bool
  unmappedSeen : Bool
  handshakeStart : Bool
  pendingHs : Bool

def place {K V : Type} [DecidableEq K] (fits : Bool) (m : FiniteMap K V) (k : K) (v : V) :
    FiniteMap K V := if fits then m.put k v else m

theorem get_place {K V : Type} [DecidableEq K] (fits : Bool) (m : FiniteMap K V) (k k' : K) (v : V) :
    (place fits m k v).get k' =
      if k' = k then (if fits then some v else none).or (m.get k) else m.get k' := by
  unfold place
  split_ifs with hfits hk hk
  · rw [hk,FiniteMap.get_put_self]
    rfl
  · rw [FiniteMap.get_put,if_neg hk]
  · rw [hk]
    rfl
  · rfl

structure PendingEnter where
  tsNs : ℕ
  daddrBe : UInt32
  dportBe : UInt16
  hasAddr : Bool
  sockaddrPtr : UInt64

/-- A socket call between its enter and its exit; of a TLS descriptor only the time is taken. -/
structure StashedIo extends PendingIo where
  timingOnly : Bool

/-- The calls that are under way, by thread, and the handshakes, by object. -/
structure Calls where
  pendingEnter : FiniteMap UInt32 PendingEnter
  pendingIo : FiniteMap UInt32 StashedIo
  handshakeStart : FiniteMap UInt64 ℕ
  pendingHs : FiniteMap UInt32 UInt64

structure ProbeMaps extends Maps, Calls

/-- What a probe submits to the ring. -/
inductive RingEvent
  | latency (ev : SockLatencyEvent)
  | io (ev : SockIoEvent)
  | times (ev : SockIoTimesEvent)
  | handshake (ev : TlsHandshakeEvent)
  deriving DecidableEq

def SockMeta.v4Addr (m : SockMeta) : Option UInt32 :=
  if m.family = afInet.toUInt8 then some (field m.daddr.toList 0 4).toUInt32 else none

/-- The octets of a structure in the caller's memory. -/
def UserMemory.readBytes (mem : UserMemory) (ptr : UInt64) (n : ℕ) : Option (List.Vector UInt8 n) :=
  if mem.readable ptr n then some ⟨mem.bytes ptr n,mem.bytes_length ptr n⟩ else none

/-- The family decides how much is read. -/
def readSockaddr (mem : UserMemory) (ptr : UInt64) : Option SockMeta := do
  let fam ← mem.readBytes ptr 2
  if (field fam.toList 0 2).toUInt16 = afInet then
    let sa ← mem.readBytes ptr 8
    some (.withPeerV4 (field sa.toList 4 4).toUInt32 (field sa.toList 2 2).toUInt16)
  else if (field fam.toList 0 2).toUInt16 = afInet6 then
    let sa ← mem.readBytes ptr 28
    some (.withPeerV6 ((sa.drop 8).take 16) (field sa.toList 2 2).toUInt16)
  else none

/-- Address, port and entry of the peer when the call returns. -/
def peerAddr (mem : UserMemory) (p : PendingEnter) (ret : ℤ) : UInt32 × UInt16 × SockMeta :=
  if p.hasAddr then (p.daddrBe,p.dportBe,.withPeerV4 p.daddrBe p.dportBe)
  else if p.sockaddrPtr ≠ 0 ∧ ret ≥ 0 then
    match readSockaddr mem p.sockaddrPtr with
    | some peer => (peer.v4Addr.getD 0,peer.dportBe,peer)
    | none => (0,0,.withPeerV4 0 0)
  else (0,0,.withPeerV4 0 0)

namespace ProbeMaps

def start : ProbeMaps := ⟨Maps.start,⟨∅,∅,∅,∅⟩⟩

def captured (c : Caller) : Bool := c.filter.tgidCaptured c.tgid

/-- The caller's record goes to the ring, or is counted as dropped. -/
def submit (m : ProbeMaps) (c : Caller) (ev : RingEvent) : ProbeMaps × List RingEvent :=
  if c.ringFree then (m,[ev]) else ({m with drops := m.drops + 1},[])

@[simp] theorem submit_toCalls (m : ProbeMaps) (c : Caller) (ev : RingEvent) :
    (m.submit c ev).1.toCalls = m.toCalls := by
  unfold submit
  split <;> rfl

def markSockMeta (m : ProbeMaps) (c : Caller) (room : Room) (fd : ℤ) (peer : SockMeta) : ProbeMaps :=
  if room.sockMeta then {m with sockMeta := Kernel.markSockMeta m.sockMeta c.toProbe fd peer} else m

@[simp] theorem markSockMeta_toCalls (m : ProbeMaps) (c : Caller) (room : Room) (fd : ℤ)
    (peer : SockMeta) : (m.markSockMeta c room fd peer).toCalls = m.toCalls := by
  unfold markSockMeta
  split <;> rfl

def tryEnterConnect (m : ProbeMaps) (c : Caller) (room : Room) (fd sockaddr : UInt64) : ProbeMaps :=
  if !captured c then m
  else
    match readSockaddr c.mem sockaddr with
    | none => m
    | some peer =>
      let m := m.markSockMeta c room fd.toInt64.toInt peer
      let p : PendingEnter := ⟨c.tsNs,peer.v4Addr.getD 0,peer.dportBe,true,0⟩
      {m with pendingEnter := place room.pendingEnter m.pendingEnter c.pid p}

def tryEnterAccept4 (m : ProbeMaps) (c : Caller) (room : Room) (sockaddr : UInt64) : ProbeMaps :=
  if !captured c then m
  else
    let p : PendingEnter := ⟨c.tsNs,0,0,false,sockaddr⟩
    {m with pendingEnter := place room.pendingEnter m.pendingEnter c.pid p}

def emit (m : ProbeMaps) (c : Caller) (kind : EventKind) (ret : ℤ) (latencyNs : ℕ)
    (daddrBe : UInt32) (dportBe : UInt16) : ProbeMaps × List RingEvent :=
  if !captured c then (m,[])
  else m.submit c (.latency ⟨kind.toU8,c.pid,c.tgid,ret,latencyNs,c.tsNs,daddrBe,dportBe⟩)

@[simp] theorem emit_toCalls (m : ProbeMaps) (c : Caller) (kind : EventKind) (ret : ℤ)
    (latencyNs : ℕ) (daddrBe : UInt32) (dportBe : UInt16) :
    (m.emit c kind ret latencyNs daddrBe dportBe).1.toCalls = m.toCalls := by
  unfold emit
  split
  · rfl
  · exact submit_toCalls m c _

/-- The exit of a connect. -/
def tryExitKind (m : ProbeMaps) (c : Caller) (kind : EventKind) (ret : ℤ) :
    ProbeMaps × List RingEvent :=
  match m.pendingEnter.get c.pid with
  | none => (m,[])
  | some p =>
    let m := {m with pendingEnter := m.pendingEnter.remove c.pid}
    let peer := peerAddr c.mem p ret
    m.emit c kind ret (c.tsNs - p.tsNs) peer.1 peer.2.1

/-- The exit of an accept marks the descriptor that it returns. -/
def tryExitAccept4 (m : ProbeMaps) (c : Caller) (room : Room) (ret : ℤ) :
    ProbeMaps × List RingEvent :=
  match m.pendingEnter.get c.pid with
  | none => (m,[])
  | some p =>
    let m := {m with pendingEnter := m.pendingEnter.remove c.pid}
    let peer := peerAddr c.mem p ret
    (m.markSockMeta c room ret peer.2.2).emit c .accept ret (c.tsNs - p.tsNs) peer.1 peer.2.1

def isTlsFd (m : ProbeMaps) (tgid fd : UInt32) : Bool := m.tlsFds.contains (sockFdKey tgid fd)

def isMarkedSockFd (m : ProbeMaps) (tgid fd : UInt32) : Bool :=
  m.sockMeta.contains (sockFdKey tgid fd)

def stashPendingIo (m : ProbeMaps) (c : Caller) (room : Room) (fd : UInt32) (bufPtr : UInt64)
    (bufLen : ℕ) (dir : IoDir) : ProbeMaps :=
  if !captured c then m
  else if m.isTlsFd c.tgid fd then
    let kept := existingFdKeepIo m.sockMeta c.toProbe fd
    let m := {m with sockMeta := kept.1}
    if !kept.2 then m
    else
      let p : StashedIo := ⟨⟨0,0,fd.toInt32,dir.toU8⟩,true⟩
      {m with pendingIo := place room.pendingIo m.pendingIo c.pid p}
  else if !m.isMarkedSockFd c.tgid fd || bufPtr = 0 then m
  else
    let kept := existingFdKeepIo m.sockMeta c.toProbe fd
    let m := {m with sockMeta := kept.1}
    if !kept.2 then m
    else
      let p : StashedIo := ⟨⟨bufPtr,bufLen,fd.toInt32,dir.toU8⟩,false⟩
      {m with pendingIo := place room.pendingIo m.pendingIo c.pid p}

/-- Where a call keeps its first buffer. -/
inductive IoArgs
  | scalar (bufPtr : UInt64)
  | iov (iovPtr : UInt64)
  | msghdr (msg : UInt64)

def iovLenU32 (len : ℕ) : ℕ := if len > 2^32 - 1 then 2^32 - 1 else len

def readIov (mem : UserMemory) (ptr : UInt64) : Option (UInt64 × ℕ) :=
  (mem.readBytes ptr 16).map fun iov =>
    ((field iov.toList 0 8).toUInt64,iovLenU32 (field iov.toList 8 8))

/-- The first buffer and its length; a scalar call has no length of its own. -/
def IoArgs.firstBuffer (mem : UserMemory) : IoArgs → Option (UInt64 × ℕ)
  | .scalar bufPtr => some (bufPtr,ioBufLenUnbounded)
  | .iov iovPtr => if iovPtr = 0 then none else readIov mem iovPtr
  | .msghdr msg =>
    if msg = 0 then none
    else (mem.readBytes msg 24).bind fun hdr =>
      let iovPtr := (field hdr.toList 16 8).toUInt64
      if iovPtr = 0 then none else readIov mem iovPtr

/-- `try_enter_io`, `try_enter_iov` and `try_enter_msghdr`. -/
def tryEnterIo (m : ProbeMaps) (c : Caller) (room : Room) (fd : UInt64) (args : IoArgs)
    (dir : IoDir) : ProbeMaps :=
  match args.firstBuffer c.mem with
  | none => m
  | some (bufPtr,bufLen) => m.stashPendingIo c room fd.toUInt32 bufPtr bufLen dir

def emitTimes (m : ProbeMaps) (c : Caller) (pending : PendingIo) (ret : ℤ) :
    ProbeMaps × List RingEvent :=
  if ret ≤ 0 then (m,[])
  else if pending.fd < 0 then (m,[])
  else
    let kept := existingFdKeepIo m.sockMeta c.toProbe pending.fd.toUInt32
    let m := {m with sockMeta := kept.1}
    if !kept.2 then (m,[])
    else m.submit c (.times ⟨EventKind.sockIoTimes.toU8,pending.dir,pending.fd,c.pid,c.tgid,ret,
      c.tsNs⟩)

@[simp] theorem emitTimes_toCalls (m : ProbeMaps) (c : Caller) (pending : PendingIo) (ret : ℤ) :
    (m.emitTimes c pending ret).1.toCalls = m.toCalls := by
  unfold emitTimes
  split_ifs
  · rfl
  · rfl
  · dsimp only
    split_ifs
    · rfl
    · rw [submit_toCalls]

/-- The mark of a header that begins may find no room. -/
def withInflight (room : Room) (old : InflightMap) (m : ProbeMaps) : ProbeMaps :=
  if room.inflight then m else {m with inflight := old}

@[simp] theorem withInflight_toCalls (room : Room) (old : InflightMap) (m : ProbeMaps) :
    (withInflight room old m).toCalls = m.toCalls := by
  unfold withInflight
  split <;> rfl

def emitIo (m : ProbeMaps) (c : Caller) (room : Room) (pending : PendingIo) (ret : ℤ) :
    ProbeMaps × List RingEvent :=
  let q := emitIoKind m.toIoMaps c .sockIo pending ret
  (withInflight room m.inflight {m with toIoMaps := q.1},q.2.toList.map .io)

@[simp] theorem emitIo_toCalls (m : ProbeMaps) (c : Caller) (room : Room) (pending : PendingIo)
    (ret : ℤ) : (m.emitIo c room pending ret).1.toCalls = m.toCalls := by
  rw [emitIo,withInflight_toCalls]

def tryExitIo (m : ProbeMaps) (c : Caller) (room : Room) (ret : ℤ) : ProbeMaps × List RingEvent :=
  match m.pendingIo.get c.pid with
  | none => (m,[])
  | some p =>
    let m := {m with pendingIo := m.pendingIo.remove c.pid}
    if p.timingOnly then m.emitTimes c p.toPendingIo ret else m.emitIo c room p.toPendingIo ret

def dropReverse (m : ProbeMaps) (key ssl : UInt64) : ProbeMaps :=
  {m with toMaps := m.toMaps.dropReverse key ssl}

def markTlsFd (m : ProbeMaps) (room : Room) (tgid : UInt32) (fd : Int32) : ProbeMaps :=
  if fd < 0 then m
  else {m with tlsFds := place room.tlsFds m.tlsFds (sockFdKey tgid fd.toUInt32) 1}

@[simp] theorem markTlsFd_toCalls (m : ProbeMaps) (room : Room) (tgid : UInt32) (fd : Int32) :
    (m.markTlsFd room tgid fd).toCalls = m.toCalls := by
  unfold markTlsFd
  split <;> rfl

/-- Forget the descriptor that the object was bound to before, if it was another one. -/
def dropStale (m : ProbeMaps) (tgid : UInt32) (ssl : UInt64) (fd : Int32) : ProbeMaps :=
  match m.sslFd.get ssl with
  | some oldFd =>
    if oldFd ≥ 0 ∧ oldFd ≠ fd then m.dropReverse (sockFdKey tgid oldFd.toUInt32) ssl else m
  | none => m

@[simp] theorem dropStale_toCalls (m : ProbeMaps) (tgid : UInt32) (ssl : UInt64) (fd : Int32) :
    (m.dropStale tgid ssl fd).toCalls = m.toCalls := by
  unfold dropStale
  split
  · split <;> rfl
  · rfl

def tryEnterSslSetFd (m : ProbeMaps) (c : Caller) (room : Room) (ssl : UInt64) (fd : Int32) :
    ProbeMaps :=
  if ssl = 0 ∨ fd < 0 then m
  else
    let m := m.dropStale c.tgid ssl fd
    let m := {m with sslFd := place room.sslFd m.sslFd ssl fd}
    let m := {m with fdSsl := place room.fdSsl m.fdSsl (sockFdKey c.tgid fd.toUInt32) ssl}
    m.markTlsFd room c.tgid fd

@[simp] theorem tryEnterSslSetFd_toCalls (m : ProbeMaps) (c : Caller) (room : Room) (ssl : UInt64)
    (fd : Int32) : (m.tryEnterSslSetFd c room ssl fd).toCalls = m.toCalls := by
  unfold tryEnterSslSetFd
  split
  · rfl
  · rw [markTlsFd_toCalls]
    exact dropStale_toCalls m c.tgid ssl fd

def tryEnterSslFree (m : ProbeMaps) (c : Caller) (ssl : UInt64) : ProbeMaps :=
  if ssl = 0 then m
  else {m with
    toMaps := m.toMaps.clearSslPtr c.tgid ssl
    handshakeStart := m.handshakeStart.remove ssl}

def tryEnterClose (m : ProbeMaps) (c : Caller) (fd : UInt64) : ProbeMaps :=
  {m with
    toMaps := m.toMaps.unmarkSockFd c.tgid fd.toUInt32
    handshakeStart :=
      match m.fdSsl.get (sockFdKey c.tgid fd.toUInt32) with
      | none => m.handshakeStart
      | some ssl => m.handshakeStart.remove ssl}

/-- An object that cannot be noted is not counted. -/
def bumpUnmappedSsl (m : ProbeMaps) (room : Room) (ssl : UInt64) : ProbeMaps :=
  if room.unmappedSeen then {m with toMaps := m.toMaps.bumpUnmappedSsl ssl} else m

@[simp] theorem bumpUnmappedSsl_toCalls (m : ProbeMaps) (room : Room) (ssl : UInt64) :
    (m.bumpUnmappedSsl room ssl).toCalls = m.toCalls := by
  unfold bumpUnmappedSsl
  split <;> rfl

def admitTls (m : ProbeMaps) (c : Caller) (room : Room) (ssl : UInt64) : ProbeMaps × Bool :=
  match m.sslFd.get ssl with
  | some fd =>
    if fd ≥ 0 then
      let kept := existingFdKeepIo m.sockMeta c.toProbe fd.toUInt32
      ({m with sockMeta := kept.1},kept.2)
    else (m.bumpUnmappedSsl room ssl,false)
  | none => (m.bumpUnmappedSsl room ssl,false)

@[simp] theorem admitTls_toCalls (m : ProbeMaps) (c : Caller) (room : Room) (ssl : UInt64) :
    (m.admitTls c room ssl).1.toCalls = m.toCalls := by
  unfold admitTls
  split
  · split
    · rfl
    · exact bumpUnmappedSsl_toCalls m room ssl
  · exact bumpUnmappedSsl_toCalls m room ssl

def tryEnterSslIo (m : ProbeMaps) (c : Caller) (room : Room) (ssl buf : UInt64) (dir : IoDir) :
    ProbeMaps :=
  if ssl = 0 ∨ buf = 0 then m
  else
    let q := m.admitTls c room ssl
    if q.2 then
      let p : PendingTls := ⟨buf,ssl,0,dir.toU8⟩
      {q.1 with pendingTls := place room.pendingTls q.1.pendingTls c.pid p}
    else q.1

@[simp] theorem tryEnterSslIo_toCalls (m : ProbeMaps) (c : Caller) (room : Room) (ssl buf : UInt64)
    (dir : IoDir) : (m.tryEnterSslIo c room ssl buf dir).toCalls = m.toCalls := by
  unfold tryEnterSslIo
  split_ifs
  · rfl
  · dsimp only
    split <;> exact admitTls_toCalls m c room ssl

def tryEnterSslIoEx (m : ProbeMaps) (c : Caller) (room : Room) (ssl buf outlen : UInt64)
    (dir : IoDir) : ProbeMaps :=
  if ssl = 0 ∨ buf = 0 ∨ outlen = 0 then m
  else
    let q := m.admitTls c room ssl
    if q.2 then
      let p : PendingTls := ⟨buf,ssl,outlen,dir.toU8⟩
      {q.1 with pendingTlsEx := place room.pendingTls q.1.pendingTlsEx c.pid p}
    else q.1

@[simp] theorem tryEnterSslIoEx_toCalls (m : ProbeMaps) (c : Caller) (room : Room)
    (ssl buf outlen : UInt64) (dir : IoDir) :
    (m.tryEnterSslIoEx c room ssl buf outlen dir).toCalls = m.toCalls := by
  unfold tryEnterSslIoEx
  split_ifs
  · rfl
  · dsimp only
    split <;> exact admitTls_toCalls m c room ssl

def tryExitSslPending (m : ProbeMaps) (c : Caller) (room : Room) (isEx : Bool) (rax : UInt64) :
    ProbeMaps × List RingEvent :=
  let q := m.toMaps.tryExitSslPending c isEx rax
  (withInflight room m.inflight {m with toMaps := q.1},q.2.toList.map .io)

@[simp] theorem tryExitSslPending_toCalls (m : ProbeMaps) (c : Caller) (room : Room) (isEx : Bool)
    (rax : UInt64) : (m.tryExitSslPending c room isEx rax).1.toCalls = m.toCalls := by
  rw [tryExitSslPending,withInflight_toCalls]

def tryEnterSslDoHandshake (m : ProbeMaps) (c : Caller) (room : Room) (ssl : UInt64) : ProbeMaps :=
  if !captured c then m
  else if ssl = 0 then m
  else
    let m := {m with pendingHs := place room.pendingHs m.pendingHs c.pid ssl}
    if m.handshakeStart.contains ssl then m
    else {m with handshakeStart := place room.handshakeStart m.handshakeStart ssl c.tsNs}

def tryExitSslDoHandshake (m : ProbeMaps) (c : Caller) (room : Room) (ret : Int32) :
    ProbeMaps × List RingEvent :=
  match m.pendingHs.get c.pid with
  | none => (m,[])
  | some ssl =>
    let m := {m with pendingHs := m.pendingHs.remove c.pid}
    if ret ≠ 1 then (m,[])
    else
      match m.handshakeStart.get ssl with
      | none => (m,[])
      | some start =>
        let m := {m with handshakeStart := m.handshakeStart.remove ssl}
        match m.sslFd.get ssl with
        | none => (m.bumpUnmappedSsl room ssl,[])
        | some fd =>
          if !captured c then (m,[])
          else m.submit c (.handshake ⟨EventKind.tlsHandshake.toU8,c.pid,c.tgid,fd,ret.toInt,
            c.tsNs - start,c.tsNs⟩)

theorem tryEnterConnect_toCalls (m : ProbeMaps) (c : Caller) (room : Room) (fd sockaddr : UInt64) :
    ∃ p, (m.tryEnterConnect c room fd sockaddr).toCalls = {m.toCalls with pendingEnter := p} := by
  unfold tryEnterConnect
  split_ifs
  · exact ⟨_,rfl⟩
  · split
    · exact ⟨_,rfl⟩
    · next peer _ =>
      have h := markSockMeta_toCalls m c room fd.toInt64.toInt peer
      exact ⟨place room.pendingEnter m.pendingEnter c.pid
        ⟨c.tsNs,peer.v4Addr.getD 0,peer.dportBe,true,0⟩,by simp only [h]⟩

theorem tryEnterAccept4_toCalls (m : ProbeMaps) (c : Caller) (room : Room) (sockaddr : UInt64) :
    ∃ p, (m.tryEnterAccept4 c room sockaddr).toCalls = {m.toCalls with pendingEnter := p} := by
  unfold tryEnterAccept4
  split <;> exact ⟨_,rfl⟩

theorem tryExitKind_toCalls (m : ProbeMaps) (c : Caller) (kind : EventKind) (ret : ℤ) :
    ∃ p, (m.tryExitKind c kind ret).1.toCalls = {m.toCalls with pendingEnter := p} := by
  unfold tryExitKind
  split
  · exact ⟨_,rfl⟩
  · exact ⟨_,by rw [emit_toCalls]⟩

theorem tryExitAccept4_toCalls (m : ProbeMaps) (c : Caller) (room : Room) (ret : ℤ) :
    ∃ p, (m.tryExitAccept4 c room ret).1.toCalls = {m.toCalls with pendingEnter := p} := by
  unfold tryExitAccept4
  split
  · exact ⟨_,rfl⟩
  · exact ⟨_,by rw [emit_toCalls,markSockMeta_toCalls]⟩

theorem stashPendingIo_toCalls (m : ProbeMaps) (c : Caller) (room : Room) (fd : UInt32)
    (bufPtr : UInt64) (bufLen : ℕ) (dir : IoDir) :
    ∃ p, (m.stashPendingIo c room fd bufPtr bufLen dir).toCalls = {m.toCalls with pendingIo := p} := by
  unfold stashPendingIo
  dsimp only
  split_ifs <;> exact ⟨_,rfl⟩

theorem tryEnterIo_toCalls (m : ProbeMaps) (c : Caller) (room : Room) (fd : UInt64) (args : IoArgs)
    (dir : IoDir) :
    ∃ p, (m.tryEnterIo c room fd args dir).toCalls = {m.toCalls with pendingIo := p} := by
  unfold tryEnterIo
  split
  · exact ⟨_,rfl⟩
  · exact stashPendingIo_toCalls m c room _ _ _ dir

theorem tryExitIo_toCalls (m : ProbeMaps) (c : Caller) (room : Room) (ret : ℤ) :
    ∃ p, (m.tryExitIo c room ret).1.toCalls = {m.toCalls with pendingIo := p} := by
  unfold tryExitIo
  split
  · exact ⟨_,rfl⟩
  · dsimp only
    split_ifs
    · exact ⟨_,by rw [emitTimes_toCalls]⟩
    · exact ⟨_,by rw [emitIo_toCalls]⟩

theorem tryEnterSslFree_toCalls (m : ProbeMaps) (c : Caller) (ssl : UInt64) :
    ∃ p, (m.tryEnterSslFree c ssl).toCalls = {m.toCalls with handshakeStart := p} := by
  unfold tryEnterSslFree
  split <;> exact ⟨_,rfl⟩

theorem tryEnterSslDoHandshake_toCalls (m : ProbeMaps) (c : Caller) (room : Room) (ssl : UInt64) :
    ∃ p q, (m.tryEnterSslDoHandshake c room ssl).toCalls =
      {m.toCalls with handshakeStart := p, pendingHs := q} := by
  unfold tryEnterSslDoHandshake
  dsimp only
  split_ifs <;> exact ⟨_,_,rfl⟩

theorem tryExitSslDoHandshake_toCalls (m : ProbeMaps) (c : Caller) (room : Room) (ret : Int32) :
    ∃ p q, (m.tryExitSslDoHandshake c room ret).1.toCalls =
      {m.toCalls with handshakeStart := p, pendingHs := q} := by
  unfold tryExitSslDoHandshake
  split
  · exact ⟨_,_,rfl⟩
  · dsimp only
    split
    · exact ⟨_,_,rfl⟩
    · split
      · exact ⟨_,_,rfl⟩
      · split
        · exact ⟨_,_,by rw [bumpUnmappedSsl_toCalls]⟩
        · split
          · exact ⟨_,_,rfl⟩
          · exact ⟨_,_,by rw [submit_toCalls]⟩

end ProbeMaps

inductive ProbeKind
  | enterConnect (fd sockaddr : UInt64)
  | exitConnect (ret : ℤ)
  | enterAccept4 (sockaddr : UInt64)
  | exitAccept4 (ret : ℤ)
  | enterClose (fd : UInt64)
  | enterIo (fd : UInt64) (args : ProbeMaps.IoArgs) (dir : IoDir)
  | exitIo (ret : ℤ)
  | enterSslSetFd (ssl : UInt64) (fd : Int32)
  | enterSslFree (ssl : UInt64)
  | enterSslIo (ssl buf : UInt64) (dir : IoDir)
  | enterSslIoEx (ssl buf outlen : UInt64) (dir : IoDir)
  | exitSslIo (isEx : Bool) (rax : UInt64)
  | enterSslDoHandshake (ssl : UInt64)
  | exitSslDoHandshake (ret : Int32)

/-- A probe that fires, or a clear of `INFLIGHT` by the agent. -/
inductive KernelStep
  | fire (c : Caller) (room : Room) (probe : ProbeKind)
  | clearInflight (tgid : UInt32) (fd : Int32)

namespace ProbeMaps

/-- `clear_inflight`, which the agent calls on the map. -/
def clearInflight (m : ProbeMaps) (tgid : UInt32) (fd : Int32) : ProbeMaps :=
  if fd < 0 then m else {m with inflight := m.inflight.remove (sockFdKey tgid fd.toUInt32)}

@[simp] theorem clearInflight_toCalls (m : ProbeMaps) (tgid : UInt32) (fd : Int32) :
    (m.clearInflight tgid fd).toCalls = m.toCalls := by
  unfold clearInflight
  split <;> rfl

def fire (m : ProbeMaps) (c : Caller) (room : Room) : ProbeKind → ProbeMaps × List RingEvent
  | .enterConnect fd sockaddr => (m.tryEnterConnect c room fd sockaddr,[])
  | .exitConnect ret => m.tryExitKind c .connect ret
  | .enterAccept4 sockaddr => (m.tryEnterAccept4 c room sockaddr,[])
  | .exitAccept4 ret => m.tryExitAccept4 c room ret
  | .enterClose fd => (m.tryEnterClose c fd,[])
  | .enterIo fd args dir => (m.tryEnterIo c room fd args dir,[])
  | .exitIo ret => m.tryExitIo c room ret
  | .enterSslSetFd ssl fd => (m.tryEnterSslSetFd c room ssl fd,[])
  | .enterSslFree ssl => (m.tryEnterSslFree c ssl,[])
  | .enterSslIo ssl buf dir => (m.tryEnterSslIo c room ssl buf dir,[])
  | .enterSslIoEx ssl buf outlen dir => (m.tryEnterSslIoEx c room ssl buf outlen dir,[])
  | .exitSslIo isEx rax => m.tryExitSslPending c room isEx rax
  | .enterSslDoHandshake ssl => (m.tryEnterSslDoHandshake c room ssl,[])
  | .exitSslDoHandshake ret => m.tryExitSslDoHandshake c room ret

def step (m : ProbeMaps) : KernelStep → ProbeMaps × List RingEvent
  | .fire c room probe => m.fire c room probe
  | .clearInflight tgid fd => (m.clearInflight tgid fd,[])

end ProbeMaps

def Room.all : Room := ⟨true,true,true,true,true,true,true,true,true,true,true⟩

def plainCaller (tgid tid : UInt32) (tsNs : ℕ) (mem : UserMemory) : Caller :=
  ⟨⟨tgid,⟨none,∅,∅⟩,none,0⟩,tid,tsNs,0,true,mem⟩

end Kernel
end ObsAgent
