import ObsAgent.Capture

/-! The OpenSSL probes: the map from `SSL*` to descriptor, its reverse, and the events of
`SSL_read` and `SSL_write`. Every map has room for what is inserted. -/
namespace ObsAgent
namespace Kernel

structure PendingTls where
  bufPtr : UInt64
  sslPtr : UInt64
  outlenPtr : UInt64
  dir : UInt8

structure Maps extends IoMaps where
  sslFd : FiniteMap UInt64 Int32
  fdSsl : FiniteMap UInt64 UInt64
  tlsFds : FiniteMap UInt64 UInt8
  unmappedSeen : FiniteMap UInt64 UInt8
  tlsUnmapped : ℕ
  pendingTls : FiniteMap UInt32 PendingTls
  pendingTlsEx : FiniteMap UInt32 PendingTls

namespace Maps

def start : Maps := ⟨⟨∅,∅,0⟩,∅,∅,∅,∅,0,∅,∅⟩

/-- Forget the reverse entry of a descriptor, if it names this object. -/
def dropReverse (m : Maps) (key ssl : UInt64) : Maps :=
  if m.fdSsl.get key = some ssl then
    {m with fdSsl := m.fdSsl.remove key, tlsFds := m.tlsFds.remove key}
  else m

def markTlsFd (m : Maps) (tgid : UInt32) (fd : Int32) : Maps :=
  if fd < 0 then m else {m with tlsFds := m.tlsFds.put (sockFdKey tgid fd.toUInt32) 1}

def tryEnterSslSetFd (m : Maps) (tgid : UInt32) (ssl : UInt64) (fd : Int32) : Maps :=
  if ssl = 0 ∨ fd < 0 then m
  else
    let m :=
      match m.sslFd.get ssl with
      | some oldFd =>
        if oldFd ≥ 0 ∧ oldFd ≠ fd then m.dropReverse (sockFdKey tgid oldFd.toUInt32) ssl else m
      | none => m
    let m := {m with sslFd := m.sslFd.put ssl fd}
    let m := {m with fdSsl := m.fdSsl.put (sockFdKey tgid fd.toUInt32) ssl}
    m.markTlsFd tgid fd

/-- The start time of a handshake, which is dropped here too, is not modelled. -/
def clearSslPtr (m : Maps) (tgid : UInt32) (ssl : UInt64) : Maps :=
  if ssl = 0 then m
  else
    let m := {m with unmappedSeen := m.unmappedSeen.remove ssl}
    match m.sslFd.get ssl with
    | none => m
    | some fd =>
      let m := {m with sslFd := m.sslFd.remove ssl}
      if fd < 0 then m else m.dropReverse (sockFdKey tgid fd.toUInt32) ssl

def tryEnterSslFree (m : Maps) (tgid : UInt32) (ssl : UInt64) : Maps := m.clearSslPtr tgid ssl

def clearSslForFdKey (m : Maps) (key : UInt64) (fd : Int32) : Maps :=
  match m.fdSsl.get key with
  | none => m
  | some ssl =>
    let m := {m with
      fdSsl := m.fdSsl.remove key
      unmappedSeen := m.unmappedSeen.remove ssl}
    if m.sslFd.get ssl = some fd then {m with sslFd := m.sslFd.remove ssl} else m

/-- A close, on every map that knows the descriptor. -/
def unmarkSockFd (m : Maps) (tgid fd : UInt32) : Maps :=
  let key := sockFdKey tgid fd
  let m := {m with
    sockMeta := Kernel.unmarkSockFd m.sockMeta tgid fd
    tlsFds := m.tlsFds.remove key
    inflight := m.inflight.remove key}
  m.clearSslForFdKey key fd.toInt32

def bumpUnmappedSsl (m : Maps) (ssl : UInt64) : Maps :=
  if ssl = 0 then m
  else if m.unmappedSeen.contains ssl then m
  else {m with unmappedSeen := m.unmappedSeen.put ssl 1, tlsUnmapped := m.tlsUnmapped + 1}

/-- What both kinds of enter do behind their checks: count an unmapped object, or sample. -/
def admitTls (m : Maps) (c : Caller) (ssl : UInt64) : Maps × Bool :=
  match m.sslFd.get ssl with
  | some fd =>
    if fd ≥ 0 then
      let kept := existingFdKeepIo m.sockMeta c.toProbe fd.toUInt32
      ({m with sockMeta := kept.1},kept.2)
    else (m.bumpUnmappedSsl ssl,false)
  | none => (m.bumpUnmappedSsl ssl,false)

def tryEnterSslIo (m : Maps) (c : Caller) (ssl buf : UInt64) (dir : IoDir) : Maps :=
  if ssl = 0 ∨ buf = 0 then m
  else
    let q := m.admitTls c ssl
    if q.2 then {q.1 with pendingTls := q.1.pendingTls.put c.pid ⟨buf,ssl,0,dir.toU8⟩} else q.1

/-- `SSL_read_ex` and `SSL_write_ex` leave the octet count behind a pointer. -/
def tryEnterSslIoEx (m : Maps) (c : Caller) (ssl buf outlen : UInt64) (dir : IoDir) : Maps :=
  if ssl = 0 ∨ buf = 0 ∨ outlen = 0 then m
  else
    let q := m.admitTls c ssl
    if q.2 then {q.1 with pendingTlsEx := q.1.pendingTlsEx.put c.pid ⟨buf,ssl,outlen,dir.toU8⟩}
    else q.1

def pending (m : Maps) (isEx : Bool) (pid : UInt32) : Option PendingTls :=
  if isEx then m.pendingTlsEx.get pid else m.pendingTls.get pid

def dropPending (m : Maps) (isEx : Bool) (pid : UInt32) : Maps :=
  if isEx then {m with pendingTlsEx := m.pendingTlsEx.remove pid}
  else {m with pendingTls := m.pendingTls.remove pid}

/-- Octets moved, from the return register or from behind the pointer. -/
def movedOctets (c : Caller) (p : PendingTls) (rax : UInt64) : ℤ :=
  if p.outlenPtr = 0 then rax.toInt64.toInt
  else if rax.toUInt32.toInt32 ≠ 1 then 0
  else
    match c.mem.readU64 p.outlenPtr with
    | some n => n.toInt64.toInt
    | none => 0

def tryExitSslPending (m : Maps) (c : Caller) (isEx : Bool) (rax : UInt64) :
    Maps × Option SockIoEvent :=
  match m.pending isEx c.pid with
  | none => (m,none)
  | some p =>
    let m := m.dropPending isEx c.pid
    match m.sslFd.get p.sslPtr with
    | none => (m,none)
    | some fd =>
      let q := emitIoKind m.toIoMaps c .tlsIo ⟨p.bufPtr,ioBufLenUnbounded,fd,p.dir⟩
        (movedOctets c p rax)
      ({m with toIoMaps := q.1},q.2)

end Maps

/-- One probe of a thread, or anything that changes what is sampled and in flight; `unmapped` is the
end of a handshake on an object without descriptor. -/
inductive TlsStep
  | setFd (c : Caller) (ssl : UInt64) (fd : Int32)
  | free (c : Caller) (ssl : UInt64)
  | close (c : Caller) (fd : UInt32)
  | enter (c : Caller) (ssl buf : UInt64) (dir : IoDir)
  | enterEx (c : Caller) (ssl buf outlen : UInt64) (dir : IoDir)
  | exit (c : Caller) (isEx : Bool) (rax : UInt64)
  | unmapped (ssl : UInt64)
  | world (io : IoMaps)

def TlsStep.apply (m : Maps) : TlsStep → Maps × Option SockIoEvent
  | .setFd c ssl fd => (m.tryEnterSslSetFd c.tgid ssl fd,none)
  | .free c ssl => (m.tryEnterSslFree c.tgid ssl,none)
  | .close c fd => (m.unmarkSockFd c.tgid fd,none)
  | .enter c ssl buf dir => (m.tryEnterSslIo c ssl buf dir,none)
  | .enterEx c ssl buf outlen dir => (m.tryEnterSslIoEx c ssl buf outlen dir,none)
  | .exit c isEx rax => m.tryExitSslPending c isEx rax
  | .unmapped ssl => (m.bumpUnmappedSsl ssl,none)
  | .world io => ({m with toIoMaps := io},none)

def TlsStep.run (steps : List TlsStep) : Maps := steps.foldl (fun m s => (s.apply m).1) Maps.start

end Kernel
end ObsAgent
