import ObsAgent.Agreement
import ObsAgent.CallPairing

/-! What one process does is not seen in the records of another.  The maps are shared by all
processes; an entry belongs to the process of its descriptor, of its thread or of its `SSL*`. -/
namespace ObsAgent
namespace Kernel

open FiniteMap (AgreeOn All)

/-- The processes that threads and `SSL*` pointers belong to. -/
structure Owners where
  thread : UInt32 → UInt32
  object : UInt64 → UInt32

def DescriptorOf (tgid : UInt32) (key : UInt64) : Prop := ∃ fd, key = sockFdKey tgid fd

theorem descriptorOf_key (tgid fd : UInt32) : DescriptorOf tgid (sockFdKey tgid fd) := ⟨fd,rfl⟩

theorem not_descriptorOf_key {tgid tgid' : UInt32} (h : tgid' ≠ tgid) (fd : UInt32) :
    ¬DescriptorOf tgid (sockFdKey tgid' fd) := by
  rintro ⟨fd',hkey⟩
  exact h (sockFdKey_inj.mp hkey).1

/-- Two states that a process cannot tell apart. -/
structure Alike (o : Owners) (tgid : UInt32) (s t : ProbeMaps) : Prop where
  sockMeta : AgreeOn (DescriptorOf tgid) s.sockMeta t.sockMeta
  inflight : AgreeOn (DescriptorOf tgid) s.inflight t.inflight
  fdSsl : AgreeOn (DescriptorOf tgid) s.fdSsl t.fdSsl
  tlsFds : AgreeOn (DescriptorOf tgid) s.tlsFds t.tlsFds
  sslFd : AgreeOn (fun ssl => o.object ssl = tgid) s.sslFd t.sslFd
  unmappedSeen : AgreeOn (fun ssl => o.object ssl = tgid) s.unmappedSeen t.unmappedSeen
  handshakeStart : AgreeOn (fun ssl => o.object ssl = tgid) s.handshakeStart t.handshakeStart
  pendingTls : AgreeOn (fun tid => o.thread tid = tgid) s.pendingTls t.pendingTls
  pendingTlsEx : AgreeOn (fun tid => o.thread tid = tgid) s.pendingTlsEx t.pendingTlsEx
  pendingEnter : AgreeOn (fun tid => o.thread tid = tgid) s.pendingEnter t.pendingEnter
  pendingIo : AgreeOn (fun tid => o.thread tid = tgid) s.pendingIo t.pendingIo
  pendingHs : AgreeOn (fun tid => o.thread tid = tgid) s.pendingHs t.pendingHs

/-- The pointers in the maps belong to the process of their entry. -/
structure Owned (o : Owners) (s : ProbeMaps) : Prop where
  fdSsl : All (fun key ssl => DescriptorOf (o.object ssl) key) s.fdSsl
  pendingTls : All (fun tid p => o.object p.sslPtr = o.thread tid) s.pendingTls
  pendingTlsEx : All (fun tid p => o.object p.sslPtr = o.thread tid) s.pendingTlsEx
  pendingHs : All (fun tid ssl => o.object ssl = o.thread tid) s.pendingHs

/-- The `SSL*` that a probe is given. -/
def ProbeKind.object : ProbeKind → Option UInt64
  | .enterSslSetFd ssl _ | .enterSslFree ssl | .enterSslIo ssl _ _ | .enterSslIoEx ssl _ _ _
  | .enterSslDoHandshake ssl => some ssl
  | _ => none

/-- The thread that a probe runs in and the pointer it is given belong to the process. -/
def KernelStep.Respects (o : Owners) : KernelStep → Prop
  | .fire c _ probe => o.thread c.pid = c.tgid ∧ ∀ ssl ∈ probe.object, o.object ssl = c.tgid
  | .clearInflight _ _ => True

def KernelStep.tgid : KernelStep → UInt32
  | .fire c _ _ => c.tgid
  | .clearInflight tgid _ => tgid

def RingEvent.tgid : RingEvent → UInt32
  | .latency ev => ev.tgid
  | .io ev => ev.tgid
  | .times ev => ev.tgid
  | .handshake ev => ev.tgid

theorem Alike.refl (o : Owners) (tgid : UInt32) (s : ProbeMaps) : Alike o tgid s s :=
  ⟨.refl _,.refl _,.refl _,.refl _,.refl _,.refl _,.refl _,.refl _,.refl _,.refl _,.refl _,.refl _⟩

theorem Alike.trans {o : Owners} {tgid : UInt32} {s t u : ProbeMaps} (h : Alike o tgid s t)
    (h' : Alike o tgid t u) : Alike o tgid s u :=
  ⟨h.sockMeta.trans h'.sockMeta,h.inflight.trans h'.inflight,h.fdSsl.trans h'.fdSsl,
    h.tlsFds.trans h'.tlsFds,h.sslFd.trans h'.sslFd,h.unmappedSeen.trans h'.unmappedSeen,
    h.handshakeStart.trans h'.handshakeStart,h.pendingTls.trans h'.pendingTls,
    h.pendingTlsEx.trans h'.pendingTlsEx,h.pendingEnter.trans h'.pendingEnter,
    h.pendingIo.trans h'.pendingIo,h.pendingHs.trans h'.pendingHs⟩

section Place

variable {K V : Type} [DecidableEq K] {P : K → Prop} {m m' : FiniteMap K V} {k : K}

theorem agreeOn_place (h : AgreeOn P m m') (fits : Bool) (k : K) (v : V) :
    AgreeOn P (place fits m k v) (place fits m' k v) := by
  unfold place
  split
  · exact h.put k v
  · exact h

theorem agreeOn_place_left (h : AgreeOn P m m') (fits : Bool) (hk : ¬P k) (v : V) :
    AgreeOn P (place fits m k v) m' := by
  unfold place
  split
  · exact h.put_left hk v
  · exact h

theorem all_place {Q : K → V → Prop} (h : All Q m) (fits : Bool) {v : V} (hv : Q k v) :
    All Q (place fits m k v) := by
  unfold place
  split
  · exact h.put hv
  · exact h

end Place

theorem existingFdKeepIo_alike {a b : SockMetaMap} (probe : Probe)
    (h : AgreeOn (DescriptorOf probe.tgid) a b) (fd : UInt32) :
    (existingFdKeepIo a probe fd).2 = (existingFdKeepIo b probe fd).2 ∧
      AgreeOn (DescriptorOf probe.tgid) (existingFdKeepIo a probe fd).1
        (existingFdKeepIo b probe fd).1 := by
  unfold existingFdKeepIo
  split
  · exact ⟨rfl,h⟩
  · dsimp only
    rw [h _ (descriptorOf_key probe.tgid fd)]
    split
    · exact ⟨rfl,h⟩
    · split
      · exact ⟨rfl,h⟩
      · exact ⟨rfl,h⟩
      · exact ⟨rfl,h.put _ _⟩

theorem existingFdKeepIo_confined (a : SockMetaMap) (probe : Probe) {tgid : UInt32}
    (hne : probe.tgid ≠ tgid) (fd : UInt32) :
    AgreeOn (DescriptorOf tgid) (existingFdKeepIo a probe fd).1 a := by
  unfold existingFdKeepIo
  split
  · exact .refl a
  · dsimp only
    split
    · exact .refl a
    · split
      · exact .refl a
      · exact .refl a
      · exact (AgreeOn.refl a).put_left (not_descriptorOf_key hne fd) _

theorem markSockMeta_alike {a b : SockMetaMap} (probe : Probe)
    (h : AgreeOn (DescriptorOf probe.tgid) a b) (fd : ℤ) (peer : SockMeta) :
    AgreeOn (DescriptorOf probe.tgid) (markSockMeta a probe fd peer)
      (markSockMeta b probe fd peer) := by
  unfold markSockMeta
  split
  · exact h
  · split
    · exact h
    · dsimp only
      rw [h _ (descriptorOf_key probe.tgid _)]
      exact h.put _ _

theorem markSockMeta_confined (a : SockMetaMap) (probe : Probe) {tgid : UInt32}
    (hne : probe.tgid ≠ tgid) (fd : ℤ) (peer : SockMeta) :
    AgreeOn (DescriptorOf tgid) (markSockMeta a probe fd peer) a := by
  unfold markSockMeta
  split
  · exact .refl a
  · split
    · exact .refl a
    · exact (AgreeOn.refl a).put_left (not_descriptorOf_key hne _) _

/-- The maps of an I/O exit, seen by a process. -/
structure IoAlike (tgid : UInt32) (a b : IoMaps) : Prop where
  sockMeta : AgreeOn (DescriptorOf tgid) a.sockMeta b.sockMeta
  inflight : AgreeOn (DescriptorOf tgid) a.inflight b.inflight

theorem markInflight_alike {a b : InflightMap} {tgid : UInt32} (h : AgreeOn (DescriptorOf tgid) a b)
    (fd : Int32) : AgreeOn (DescriptorOf tgid) (markInflight a tgid fd) (markInflight b tgid fd) := by
  unfold markInflight
  split
  · exact h
  · exact h.put _ _

theorem markInflight_confined (a : InflightMap) {tgid tgid' : UInt32} (hne : tgid' ≠ tgid)
    (fd : Int32) : AgreeOn (DescriptorOf tgid) (markInflight a tgid' fd) a := by
  unfold markInflight
  split
  · exact .refl a
  · exact (AgreeOn.refl a).put_left (not_descriptorOf_key hne _) _

theorem emitIoKind_alike {a b : IoMaps} {c : Caller} (h : IoAlike c.tgid a b) (kind : EventKind)
    (pending : PendingIo) (ret : ℤ) :
    (emitIoKind a c kind pending ret).2 = (emitIoKind b c kind pending ret).2 ∧
      IoAlike c.tgid (emitIoKind a c kind pending ret).1 (emitIoKind b c kind pending ret).1 := by
  obtain ⟨hkeep,hsock⟩ := existingFdKeepIo_alike c.toProbe h.sockMeta pending.fd.toUInt32
  have hin : isInflight a.inflight c.tgid pending.fd.toUInt32 =
      isInflight b.inflight c.tgid pending.fd.toUInt32 := h.inflight.contains (descriptorOf_key _ _)
  cases hread : c.mem.readPrefixBuf pending.bufPtr with
  | none =>
    simp only [emitIoKind,hkeep,hread]
    split_ifs
    · exact ⟨rfl,h⟩
    all_goals exact ⟨rfl,hsock,h.inflight⟩
  | some raw =>
    simp only [emitIoKind,hkeep,hin,hread]
    split_ifs
    · exact ⟨rfl,h⟩
    all_goals first
      | exact ⟨rfl,hsock,h.inflight⟩
      | exact ⟨rfl,hsock,markInflight_alike h.inflight pending.fd⟩

theorem emitIoKind_confined (a : IoMaps) {c : Caller} {tgid : UInt32} (hne : c.tgid ≠ tgid)
    (kind : EventKind) (pending : PendingIo) (ret : ℤ) :
    IoAlike tgid (emitIoKind a c kind pending ret).1 a := by
  have hsock := existingFdKeepIo_confined a.sockMeta c.toProbe hne pending.fd.toUInt32
  have hin := markInflight_confined a.inflight hne pending.fd
  cases hread : c.mem.readPrefixBuf pending.bufPtr with
  | none =>
    simp only [emitIoKind,hread]
    split_ifs
    · exact ⟨.refl _,.refl _⟩
    all_goals exact ⟨hsock,.refl _⟩
  | some raw =>
    simp only [emitIoKind,hread]
    split_ifs
    · exact ⟨.refl _,.refl _⟩
    all_goals first
      | exact ⟨hsock,.refl _⟩
      | exact ⟨hsock,hin⟩

theorem Owned.object_of_key {o : Owners} {s : ProbeMaps} (h : Owned o s) {tgid fd : UInt32}
    {ssl : UInt64} (hget : s.fdSsl.get (sockFdKey tgid fd) = some ssl) : o.object ssl = tgid := by
  obtain ⟨fd',hkey⟩ := h.fdSsl _ _ hget
  exact (sockFdKey_inj.mp hkey).1.symm

theorem Owned.object_of_pending {o : Owners} {s : ProbeMaps} (h : Owned o s) {isEx : Bool}
    {tid : UInt32} {p : PendingTls} (hget : s.toMaps.pending isEx tid = some p) :
    o.object p.sslPtr = o.thread tid := by
  cases isEx with
  | true => exact h.pendingTlsEx tid p hget
  | false => exact h.pendingTls tid p hget

namespace Alike

variable {o : Owners} {s t : ProbeMaps} {c : Caller}

structure Same (o : Owners) (tgid : UInt32) (q r : ProbeMaps × List RingEvent) : Prop where
  alike : Alike o tgid q.1 r.1
  records : q.2 = r.2

theorem withSockMeta {tgid : UInt32} (h : Alike o tgid s t) {a b : SockMetaMap}
    (hab : AgreeOn (DescriptorOf tgid) a b) :
    Alike o tgid {s with sockMeta := a} {t with sockMeta := b} := {h with sockMeta := hab}

theorem withPendingEnter {tgid : UInt32} (h : Alike o tgid s t) {a b : FiniteMap UInt32 PendingEnter}
    (hab : AgreeOn (fun tid => o.thread tid = tgid) a b) :
    Alike o tgid {s with pendingEnter := a} {t with pendingEnter := b} := {h with pendingEnter := hab}

theorem withPendingIo {tgid : UInt32} (h : Alike o tgid s t) {a b : FiniteMap UInt32 StashedIo}
    (hab : AgreeOn (fun tid => o.thread tid = tgid) a b) :
    Alike o tgid {s with pendingIo := a} {t with pendingIo := b} := {h with pendingIo := hab}

theorem withIo {tgid : UInt32} (h : Alike o tgid s t) {a b : IoMaps} (hab : IoAlike tgid a b) :
    Alike o tgid {s with toIoMaps := a} {t with toIoMaps := b} :=
  {h with sockMeta := hab.sockMeta, inflight := hab.inflight}

theorem submit (h : Alike o c.tgid s t) (ev : RingEvent) :
    Same o c.tgid (s.submit c ev) (t.submit c ev) := by
  unfold ProbeMaps.submit
  split
  · exact ⟨h,rfl⟩
  · exact ⟨{h with},rfl⟩

theorem markSockMeta (h : Alike o c.tgid s t) (room : Room) (fd : ℤ) (peer : SockMeta) :
    Alike o c.tgid (s.markSockMeta c room fd peer) (t.markSockMeta c room fd peer) := by
  unfold ProbeMaps.markSockMeta
  split
  · exact h.withSockMeta (markSockMeta_alike c.toProbe h.sockMeta fd peer)
  · exact h

theorem emit (h : Alike o c.tgid s t) (kind : EventKind) (ret : ℤ) (latencyNs : ℕ)
    (daddrBe : UInt32) (dportBe : UInt16) :
    Same o c.tgid (s.emit c kind ret latencyNs daddrBe dportBe)
      (t.emit c kind ret latencyNs daddrBe dportBe) := by
  unfold ProbeMaps.emit
  split
  · exact ⟨h,rfl⟩
  · exact h.submit _

theorem tryEnterConnect (h : Alike o c.tgid s t) (room : Room) (fd sockaddr : UInt64) :
    Alike o c.tgid (s.tryEnterConnect c room fd sockaddr) (t.tryEnterConnect c room fd sockaddr) := by
  unfold ProbeMaps.tryEnterConnect
  split
  · exact h
  · split
    · exact h
    · next peer _ =>
      have hmark := h.markSockMeta room fd.toInt64.toInt peer
      exact hmark.withPendingEnter (agreeOn_place hmark.pendingEnter _ _ _)

theorem tryEnterAccept4 (h : Alike o c.tgid s t) (room : Room) (sockaddr : UInt64) :
    Alike o c.tgid (s.tryEnterAccept4 c room sockaddr) (t.tryEnterAccept4 c room sockaddr) := by
  unfold ProbeMaps.tryEnterAccept4
  split
  · exact h
  · exact h.withPendingEnter (agreeOn_place h.pendingEnter _ _ _)

theorem tryExitKind (h : Alike o c.tgid s t) (hthread : o.thread c.pid = c.tgid) (kind : EventKind)
    (ret : ℤ) : Same o c.tgid (s.tryExitKind c kind ret) (t.tryExitKind c kind ret) := by
  unfold ProbeMaps.tryExitKind
  rw [h.pendingEnter _ hthread]
  split
  · exact ⟨h,rfl⟩
  · exact (h.withPendingEnter (h.pendingEnter.remove _)).emit _ _ _ _ _

theorem tryExitAccept4 (h : Alike o c.tgid s t) (hthread : o.thread c.pid = c.tgid) (room : Room)
    (ret : ℤ) : Same o c.tgid (s.tryExitAccept4 c room ret) (t.tryExitAccept4 c room ret) := by
  unfold ProbeMaps.tryExitAccept4
  rw [h.pendingEnter _ hthread]
  split
  · exact ⟨h,rfl⟩
  · exact ((h.withPendingEnter (h.pendingEnter.remove _)).markSockMeta _ _ _).emit _ _ _ _ _

theorem stashPendingIo (h : Alike o c.tgid s t) (room : Room) (fd : UInt32) (bufPtr : UInt64)
    (bufLen : ℕ) (dir : IoDir) : Alike o c.tgid (s.stashPendingIo c room fd bufPtr bufLen dir)
      (t.stashPendingIo c room fd bufPtr bufLen dir) := by
  obtain ⟨hkeep,hsock⟩ := existingFdKeepIo_alike c.toProbe h.sockMeta fd
  have htls : s.isTlsFd c.tgid fd = t.isTlsFd c.tgid fd := h.tlsFds.contains (descriptorOf_key _ _)
  have hmarked : s.isMarkedSockFd c.tgid fd = t.isMarkedSockFd c.tgid fd :=
    h.sockMeta.contains (descriptorOf_key _ _)
  simp only [ProbeMaps.stashPendingIo,hkeep,htls,hmarked]
  split_ifs
  · exact h
  · exact h.withSockMeta hsock
  · exact (h.withSockMeta hsock).withPendingIo (agreeOn_place h.pendingIo _ _ _)
  · exact h
  · exact h.withSockMeta hsock
  · exact (h.withSockMeta hsock).withPendingIo (agreeOn_place h.pendingIo _ _ _)

theorem tryEnterIo (h : Alike o c.tgid s t) (room : Room) (fd : UInt64) (args : ProbeMaps.IoArgs)
    (dir : IoDir) :
    Alike o c.tgid (s.tryEnterIo c room fd args dir) (t.tryEnterIo c room fd args dir) := by
  unfold ProbeMaps.tryEnterIo
  split
  · exact h
  · exact h.stashPendingIo room _ _ _ dir

theorem emitTimes (h : Alike o c.tgid s t) (pending : PendingIo) (ret : ℤ) :
    Same o c.tgid (s.emitTimes c pending ret) (t.emitTimes c pending ret) := by
  obtain ⟨hkeep,hsock⟩ := existingFdKeepIo_alike c.toProbe h.sockMeta pending.fd.toUInt32
  simp only [ProbeMaps.emitTimes,hkeep]
  split_ifs
  · exact ⟨h,rfl⟩
  · exact ⟨h,rfl⟩
  · exact ⟨h.withSockMeta hsock,rfl⟩
  · exact submit (h.withSockMeta hsock) _

theorem withInflight {tgid : UInt32} {s' t' : ProbeMaps} (h' : Alike o tgid s' t')
    (h : Alike o tgid s t) (room : Room) :
    Alike o tgid (ProbeMaps.withInflight room s.inflight s')
      (ProbeMaps.withInflight room t.inflight t') := by
  unfold ProbeMaps.withInflight
  split
  · exact h'
  · exact {h' with inflight := h.inflight}

theorem emitIo (h : Alike o c.tgid s t) (room : Room) (pending : PendingIo) (ret : ℤ) :
    Same o c.tgid (s.emitIo c room pending ret) (t.emitIo c room pending ret) := by
  obtain ⟨hout,hio⟩ := emitIoKind_alike ⟨h.sockMeta,h.inflight⟩ .sockIo pending ret
  exact ⟨(h.withIo hio).withInflight h room,by rw [ProbeMaps.emitIo,ProbeMaps.emitIo,hout]⟩

theorem tryExitIo (h : Alike o c.tgid s t) (hthread : o.thread c.pid = c.tgid) (room : Room)
    (ret : ℤ) : Same o c.tgid (s.tryExitIo c room ret) (t.tryExitIo c room ret) := by
  unfold ProbeMaps.tryExitIo
  rw [h.pendingIo _ hthread]
  split
  · exact ⟨h,rfl⟩
  · dsimp only
    split
    · exact (h.withPendingIo (h.pendingIo.remove _)).emitTimes _ _
    · exact (h.withPendingIo (h.pendingIo.remove _)).emitIo _ _ _

theorem dropReverse {tgid : UInt32} (h : Alike o tgid s t) (fd : UInt32) (ssl : UInt64) :
    Alike o tgid (s.dropReverse (sockFdKey tgid fd) ssl) (t.dropReverse (sockFdKey tgid fd) ssl) := by
  unfold ProbeMaps.dropReverse Maps.dropReverse
  rw [h.fdSsl _ (descriptorOf_key tgid fd)]
  split
  · exact {h with fdSsl := h.fdSsl.remove _, tlsFds := h.tlsFds.remove _}
  · exact h

theorem markTlsFd {tgid : UInt32} (h : Alike o tgid s t) (room : Room) (fd : Int32) :
    Alike o tgid (s.markTlsFd room tgid fd) (t.markTlsFd room tgid fd) := by
  unfold ProbeMaps.markTlsFd
  split
  · exact h
  · exact {h with tlsFds := agreeOn_place h.tlsFds _ _ _}

theorem dropStale {tgid : UInt32} (h : Alike o tgid s t) {ssl : UInt64} (hssl : o.object ssl = tgid)
    (fd : Int32) : Alike o tgid (s.dropStale tgid ssl fd) (t.dropStale tgid ssl fd) := by
  unfold ProbeMaps.dropStale
  rw [h.sslFd ssl hssl]
  split
  · split
    · exact h.dropReverse _ ssl
    · exact h
  · exact h

theorem tryEnterSslSetFd (h : Alike o c.tgid s t) (room : Room) {ssl : UInt64}
    (hssl : o.object ssl = c.tgid) (fd : Int32) :
    Alike o c.tgid (s.tryEnterSslSetFd c room ssl fd) (t.tryEnterSslSetFd c room ssl fd) := by
  unfold ProbeMaps.tryEnterSslSetFd
  split
  · exact h
  · have hdrop := h.dropStale hssl fd
    apply markTlsFd
    exact {hdrop with
      sslFd := agreeOn_place hdrop.sslFd _ _ _
      fdSsl := agreeOn_place hdrop.fdSsl _ _ _}

theorem tryEnterSslFree (h : Alike o c.tgid s t) {ssl : UInt64} (hssl : o.object ssl = c.tgid) :
    Alike o c.tgid (s.tryEnterSslFree c ssl) (t.tryEnterSslFree c ssl) := by
  unfold ProbeMaps.tryEnterSslFree Maps.clearSslPtr
  split
  · exact h
  · dsimp only
    rw [h.sslFd ssl hssl]
    have hforget : Alike o c.tgid
        {s with
          unmappedSeen := s.unmappedSeen.remove ssl
          handshakeStart := s.handshakeStart.remove ssl
          sslFd := s.sslFd.remove ssl}
        {t with
          unmappedSeen := t.unmappedSeen.remove ssl
          handshakeStart := t.handshakeStart.remove ssl
          sslFd := t.sslFd.remove ssl} :=
      {h with
        unmappedSeen := h.unmappedSeen.remove _
        handshakeStart := h.handshakeStart.remove _
        sslFd := h.sslFd.remove _}
    split
    · exact {hforget with sslFd := h.sslFd}
    · split
      · exact hforget
      · exact hforget.dropReverse _ ssl

theorem tryEnterClose (h : Alike o c.tgid s t) (hs : Owned o s) (fd : UInt64) :
    Alike o c.tgid (s.tryEnterClose c fd) (t.tryEnterClose c fd) := by
  have hkey := descriptorOf_key c.tgid fd.toUInt32
  unfold ProbeMaps.tryEnterClose Maps.unmarkSockFd Maps.clearSslForFdKey
  dsimp only
  cases hget : s.fdSsl.get (sockFdKey c.tgid fd.toUInt32) with
  | none =>
    rw [← h.fdSsl _ hkey,hget]
    exact {h with
      sockMeta := h.sockMeta.remove _
      tlsFds := h.tlsFds.remove _
      inflight := h.inflight.remove _}
  | some ssl =>
    rw [← h.fdSsl _ hkey,hget]
    dsimp only
    rw [h.sslFd ssl (hs.object_of_key hget)]
    split
    · exact {h with
        sockMeta := h.sockMeta.remove _
        tlsFds := h.tlsFds.remove _
        inflight := h.inflight.remove _
        fdSsl := h.fdSsl.remove _
        unmappedSeen := h.unmappedSeen.remove _
        handshakeStart := h.handshakeStart.remove _
        sslFd := h.sslFd.remove _}
    · exact {h with
        sockMeta := h.sockMeta.remove _
        tlsFds := h.tlsFds.remove _
        inflight := h.inflight.remove _
        fdSsl := h.fdSsl.remove _
        unmappedSeen := h.unmappedSeen.remove _
        handshakeStart := h.handshakeStart.remove _}

theorem bumpUnmappedSsl {tgid : UInt32} (h : Alike o tgid s t) (room : Room) {ssl : UInt64}
    (hssl : o.object ssl = tgid) :
    Alike o tgid (s.bumpUnmappedSsl room ssl) (t.bumpUnmappedSsl room ssl) := by
  unfold ProbeMaps.bumpUnmappedSsl Maps.bumpUnmappedSsl
  rw [h.unmappedSeen.contains hssl]
  split
  · split
    · exact h
    · split
      · exact h
      · exact {h with unmappedSeen := h.unmappedSeen.put _ _}
  · exact h

theorem admitTls (h : Alike o c.tgid s t) (room : Room) {ssl : UInt64}
    (hssl : o.object ssl = c.tgid) : (s.admitTls c room ssl).2 = (t.admitTls c room ssl).2 ∧
      Alike o c.tgid (s.admitTls c room ssl).1 (t.admitTls c room ssl).1 := by
  unfold ProbeMaps.admitTls
  rw [h.sslFd ssl hssl]
  split
  · split
    · next fd _ _ =>
      obtain ⟨hkeep,hsock⟩ := existingFdKeepIo_alike c.toProbe h.sockMeta fd.toUInt32
      exact ⟨hkeep,h.withSockMeta hsock⟩
    · exact ⟨rfl,h.bumpUnmappedSsl room hssl⟩
  · exact ⟨rfl,h.bumpUnmappedSsl room hssl⟩

theorem tryEnterSslIo (h : Alike o c.tgid s t) (room : Room) {ssl : UInt64}
    (hssl : o.object ssl = c.tgid) (buf : UInt64) (dir : IoDir) :
    Alike o c.tgid (s.tryEnterSslIo c room ssl buf dir) (t.tryEnterSslIo c room ssl buf dir) := by
  obtain ⟨hkeep,htls⟩ := h.admitTls room hssl
  unfold ProbeMaps.tryEnterSslIo
  split
  · exact h
  · dsimp only
    rw [hkeep]
    split
    · exact {htls with pendingTls := agreeOn_place htls.pendingTls _ _ _}
    · exact htls

theorem tryEnterSslIoEx (h : Alike o c.tgid s t) (room : Room) {ssl : UInt64}
    (hssl : o.object ssl = c.tgid) (buf outlen : UInt64) (dir : IoDir) :
    Alike o c.tgid (s.tryEnterSslIoEx c room ssl buf outlen dir)
      (t.tryEnterSslIoEx c room ssl buf outlen dir) := by
  obtain ⟨hkeep,htls⟩ := h.admitTls room hssl
  unfold ProbeMaps.tryEnterSslIoEx
  split
  · exact h
  · dsimp only
    rw [hkeep]
    split
    · exact {htls with pendingTlsEx := agreeOn_place htls.pendingTlsEx _ _ _}
    · exact htls

theorem pending {tgid tid : UInt32} (h : Alike o tgid s t) (hthread : o.thread tid = tgid)
    (isEx : Bool) : s.toMaps.pending isEx tid = t.toMaps.pending isEx tid := by
  unfold Maps.pending
  rw [h.pendingTls _ hthread,h.pendingTlsEx _ hthread]

theorem dropPending {tgid : UInt32} (h : Alike o tgid s t) (isEx : Bool) (tid : UInt32) :
    Alike o tgid {s with toMaps := s.toMaps.dropPending isEx tid}
      {t with toMaps := t.toMaps.dropPending isEx tid} := by
  cases isEx with
  | true => exact {h with pendingTlsEx := h.pendingTlsEx.remove _}
  | false => exact {h with pendingTls := h.pendingTls.remove _}

theorem tryExitSslPending (h : Alike o c.tgid s t) (hs : Owned o s)
    (hthread : o.thread c.pid = c.tgid) (room : Room) (isEx : Bool) (rax : UInt64) :
    Same o c.tgid (s.tryExitSslPending c room isEx rax) (t.tryExitSslPending c room isEx rax) := by
  have hdrop := h.dropPending isEx c.pid
  unfold ProbeMaps.tryExitSslPending Maps.tryExitSslPending
  cases hget : s.toMaps.pending isEx c.pid with
  | none =>
    rw [← h.pending hthread,hget]
    exact ⟨h.withInflight h room,rfl⟩
  | some p =>
    have hssl : o.object p.sslPtr = c.tgid := (hs.object_of_pending hget).trans hthread
    have hbound : (s.toMaps.dropPending isEx c.pid).sslFd.get p.sslPtr =
        (t.toMaps.dropPending isEx c.pid).sslFd.get p.sslPtr := hdrop.sslFd p.sslPtr hssl
    rw [← h.pending hthread,hget]
    dsimp only
    cases hfd : (t.toMaps.dropPending isEx c.pid).sslFd.get p.sslPtr with
    | none =>
      rw [hbound,hfd]
      exact ⟨hdrop.withInflight h room,rfl⟩
    | some fd =>
      obtain ⟨hout,hio⟩ := emitIoKind_alike ⟨hdrop.sockMeta,hdrop.inflight⟩ .tlsIo
        ⟨p.bufPtr,ioBufLenUnbounded,fd,p.dir⟩ (Maps.movedOctets c p rax)
      rw [hbound,hfd]
      exact ⟨(hdrop.withIo hio).withInflight h room,congrArg (fun e => e.toList.map RingEvent.io) hout⟩

theorem tryEnterSslDoHandshake (h : Alike o c.tgid s t) (room : Room) {ssl : UInt64}
    (hssl : o.object ssl = c.tgid) : Alike o c.tgid (s.tryEnterSslDoHandshake c room ssl)
      (t.tryEnterSslDoHandshake c room ssl) := by
  unfold ProbeMaps.tryEnterSslDoHandshake
  split
  · exact h
  · split
    · exact h
    · dsimp only
      rw [h.handshakeStart.contains hssl]
      split
      · exact {h with pendingHs := agreeOn_place h.pendingHs _ _ _}
      · exact {h with
          pendingHs := agreeOn_place h.pendingHs _ _ _
          handshakeStart := agreeOn_place h.handshakeStart _ _ _}

theorem tryExitSslDoHandshake (h : Alike o c.tgid s t) (hs : Owned o s)
    (hthread : o.thread c.pid = c.tgid) (room : Room) (ret : Int32) :
    Same o c.tgid (s.tryExitSslDoHandshake c room ret) (t.tryExitSslDoHandshake c room ret) := by
  unfold ProbeMaps.tryExitSslDoHandshake
  cases hget : s.pendingHs.get c.pid with
  | none =>
    rw [← h.pendingHs _ hthread,hget]
    exact ⟨h,rfl⟩
  | some ssl =>
    have hssl : o.object ssl = c.tgid := (hs.pendingHs _ _ hget).trans hthread
    rw [← h.pendingHs _ hthread,hget]
    dsimp only
    rw [h.handshakeStart ssl hssl,h.sslFd ssl hssl]
    have htaken : Alike o c.tgid {s with pendingHs := s.pendingHs.remove c.pid}
        {t with pendingHs := t.pendingHs.remove c.pid} := {h with pendingHs := h.pendingHs.remove _}
    have hended : Alike o c.tgid
        {s with pendingHs := s.pendingHs.remove c.pid,handshakeStart := s.handshakeStart.remove ssl}
        {t with pendingHs := t.pendingHs.remove c.pid,handshakeStart := t.handshakeStart.remove ssl} :=
      {htaken with handshakeStart := h.handshakeStart.remove _}
    split
    · exact ⟨htaken,rfl⟩
    · split
      · exact ⟨htaken,rfl⟩
      · split
        · exact ⟨hended.bumpUnmappedSsl room hssl,rfl⟩
        · split
          · exact ⟨hended,rfl⟩
          · exact hended.submit _

theorem fire (h : Alike o c.tgid s t) (hs : Owned o s) {room : Room} {probe : ProbeKind}
    (he : (KernelStep.fire c room probe).Respects o) :
    Same o c.tgid (s.fire c room probe) (t.fire c room probe) := by
  obtain ⟨hthread,hobject⟩ := he
  cases probe with
  | enterConnect fd sockaddr => exact ⟨h.tryEnterConnect room fd sockaddr,rfl⟩
  | exitConnect ret => exact h.tryExitKind hthread .connect ret
  | enterAccept4 sockaddr => exact ⟨h.tryEnterAccept4 room sockaddr,rfl⟩
  | exitAccept4 ret => exact h.tryExitAccept4 hthread room ret
  | enterClose fd => exact ⟨h.tryEnterClose hs fd,rfl⟩
  | enterIo fd args dir => exact ⟨h.tryEnterIo room fd args dir,rfl⟩
  | exitIo ret => exact h.tryExitIo hthread room ret
  | enterSslSetFd ssl fd => exact ⟨h.tryEnterSslSetFd room (hobject ssl rfl) fd,rfl⟩
  | enterSslFree ssl => exact ⟨h.tryEnterSslFree (hobject ssl rfl),rfl⟩
  | enterSslIo ssl buf dir => exact ⟨h.tryEnterSslIo room (hobject ssl rfl) buf dir,rfl⟩
  | enterSslIoEx ssl buf outlen dir =>
    exact ⟨h.tryEnterSslIoEx room (hobject ssl rfl) buf outlen dir,rfl⟩
  | exitSslIo isEx rax => exact h.tryExitSslPending hs hthread room isEx rax
  | enterSslDoHandshake ssl => exact ⟨h.tryEnterSslDoHandshake room (hobject ssl rfl),rfl⟩
  | exitSslDoHandshake ret => exact h.tryExitSslDoHandshake hs hthread room ret

end Alike

section Confined

open ProbeMaps

variable {o : Owners} {tgid : UInt32} {c : Caller}

theorem submit_confined (s : ProbeMaps) (c : Caller) (ev : RingEvent) :
    Alike o tgid (s.submit c ev).1 s := by
  have h := Alike.refl o tgid s
  unfold submit
  split
  · exact h
  · exact {h with}

theorem ProbeMaps.markSockMeta_confined (s : ProbeMaps) (hne : c.tgid ≠ tgid) (room : Room) (fd : ℤ)
    (peer : SockMeta) : Alike o tgid (s.markSockMeta c room fd peer) s := by
  have h := Alike.refl o tgid s
  unfold ProbeMaps.markSockMeta
  split
  · exact {h with sockMeta := Kernel.markSockMeta_confined s.sockMeta c.toProbe hne fd peer}
  · exact h

theorem emit_confined (s : ProbeMaps) (c : Caller) (kind : EventKind) (ret : ℤ) (latencyNs : ℕ)
    (daddrBe : UInt32) (dportBe : UInt16) :
    Alike o tgid (s.emit c kind ret latencyNs daddrBe dportBe).1 s := by
  unfold emit
  split
  · exact .refl o tgid s
  · exact submit_confined s c _

theorem tryEnterConnect_confined (s : ProbeMaps) (hne : c.tgid ≠ tgid) (hthread : o.thread c.pid ≠ tgid)
    (room : Room) (fd sockaddr : UInt64) :
    Alike o tgid (s.tryEnterConnect c room fd sockaddr) s := by
  unfold tryEnterConnect
  split
  · exact .refl o tgid s
  · split
    · exact .refl o tgid s
    · next peer _ =>
      have hmark := s.markSockMeta_confined (o := o) hne room fd.toInt64.toInt peer
      exact {hmark with pendingEnter := agreeOn_place_left hmark.pendingEnter _ hthread _}

theorem tryEnterAccept4_confined (s : ProbeMaps) (hthread : o.thread c.pid ≠ tgid) (room : Room)
    (sockaddr : UInt64) : Alike o tgid (s.tryEnterAccept4 c room sockaddr) s := by
  have h := Alike.refl o tgid s
  unfold tryEnterAccept4
  split
  · exact h
  · exact {h with pendingEnter := agreeOn_place_left h.pendingEnter _ hthread _}

theorem take_pendingEnter_confined (s : ProbeMaps) (hthread : o.thread c.pid ≠ tgid) :
    Alike o tgid {s with pendingEnter := s.pendingEnter.remove c.pid} s :=
  have h := Alike.refl o tgid s
  {h with pendingEnter := h.pendingEnter.remove_left hthread}

theorem tryExitKind_confined (s : ProbeMaps) (hthread : o.thread c.pid ≠ tgid) (kind : EventKind)
    (ret : ℤ) : Alike o tgid (s.tryExitKind c kind ret).1 s := by
  unfold tryExitKind
  split
  · exact .refl o tgid s
  · exact (emit_confined _ c kind ret _ _ _).trans (take_pendingEnter_confined s hthread)

theorem tryExitAccept4_confined (s : ProbeMaps) (hne : c.tgid ≠ tgid) (hthread : o.thread c.pid ≠ tgid)
    (room : Room) (ret : ℤ) : Alike o tgid (s.tryExitAccept4 c room ret).1 s := by
  unfold tryExitAccept4
  split
  · exact .refl o tgid s
  · exact ((emit_confined _ c .accept ret _ _ _).trans
      (ProbeMaps.markSockMeta_confined _ hne room ret _)).trans (take_pendingEnter_confined s hthread)

theorem keep_confined (s : ProbeMaps) (hne : c.tgid ≠ tgid) (fd : UInt32) :
    Alike o tgid {s with sockMeta := (existingFdKeepIo s.sockMeta c.toProbe fd).1} s :=
  have h := Alike.refl o tgid s
  {h with sockMeta := existingFdKeepIo_confined s.sockMeta c.toProbe hne fd}

theorem tryEnterIo_confined (s : ProbeMaps) (hne : c.tgid ≠ tgid) (hthread : o.thread c.pid ≠ tgid)
    (room : Room) (fd : UInt64) (args : IoArgs) (dir : IoDir) :
    Alike o tgid (s.tryEnterIo c room fd args dir) s := by
  have hkept := keep_confined (o := o) s hne fd.toUInt32
  unfold tryEnterIo stashPendingIo
  split
  · exact .refl o tgid s
  · dsimp only
    split_ifs
    · exact .refl o tgid s
    · exact hkept
    · exact {hkept with pendingIo := agreeOn_place_left hkept.pendingIo _ hthread _}
    · exact .refl o tgid s
    · exact hkept
    · exact {hkept with pendingIo := agreeOn_place_left hkept.pendingIo _ hthread _}

theorem emitTimes_confined (s : ProbeMaps) (hne : c.tgid ≠ tgid) (pending : PendingIo) (ret : ℤ) :
    Alike o tgid (s.emitTimes c pending ret).1 s := by
  have hkept := keep_confined (o := o) s hne pending.fd.toUInt32
  unfold emitTimes
  dsimp only
  split_ifs
  · exact .refl o tgid s
  · exact .refl o tgid s
  · exact hkept
  · exact (submit_confined _ c _).trans hkept

theorem withInflight_confined {s s' : ProbeMaps} (h : Alike o tgid s' s) (room : Room) :
    Alike o tgid (withInflight room s.inflight s') s := by
  unfold withInflight
  split
  · exact h
  · exact {h with inflight := .refl _}

theorem emitIo_confined (s : ProbeMaps) (hne : c.tgid ≠ tgid) (room : Room) (pending : PendingIo)
    (ret : ℤ) : Alike o tgid (s.emitIo c room pending ret).1 s := by
  have h := Alike.refl o tgid s
  have hio := emitIoKind_confined s.toIoMaps hne .sockIo pending ret
  have hemit : Alike o tgid {s with toIoMaps := (emitIoKind s.toIoMaps c .sockIo pending ret).1} s :=
    {h with sockMeta := hio.sockMeta, inflight := hio.inflight}
  exact withInflight_confined hemit room

theorem tryExitIo_confined (s : ProbeMaps) (hne : c.tgid ≠ tgid) (hthread : o.thread c.pid ≠ tgid)
    (room : Room) (ret : ℤ) : Alike o tgid (s.tryExitIo c room ret).1 s := by
  have h := Alike.refl o tgid s
  have htaken : Alike o tgid {s with pendingIo := s.pendingIo.remove c.pid} s :=
    {h with pendingIo := h.pendingIo.remove_left hthread}
  unfold tryExitIo
  split
  · exact h
  · dsimp only
    split
    · exact (emitTimes_confined _ hne _ ret).trans htaken
    · exact (emitIo_confined _ hne room _ ret).trans htaken

theorem dropReverse_confined (s : ProbeMaps) (hne : c.tgid ≠ tgid) (fd : UInt32) (ssl : UInt64) :
    Alike o tgid (s.dropReverse (sockFdKey c.tgid fd) ssl) s := by
  have h := Alike.refl o tgid s
  have hkey := not_descriptorOf_key hne fd
  unfold ProbeMaps.dropReverse Maps.dropReverse
  split
  · exact {h with fdSsl := h.fdSsl.remove_left hkey, tlsFds := h.tlsFds.remove_left hkey}
  · exact h

theorem tryEnterSslSetFd_confined (s : ProbeMaps) (hne : c.tgid ≠ tgid) (room : Room) {ssl : UInt64}
    (hssl : o.object ssl ≠ tgid) (fd : Int32) :
    Alike o tgid (s.tryEnterSslSetFd c room ssl fd) s := by
  have hdrop : Alike o tgid (s.dropStale c.tgid ssl fd) s := by
    unfold dropStale
    split
    · split
      · exact dropReverse_confined s hne _ ssl
      · exact .refl o tgid s
    · exact .refl o tgid s
  have hkey := not_descriptorOf_key hne fd.toUInt32
  unfold tryEnterSslSetFd markTlsFd
  dsimp only
  split_ifs
  · exact .refl o tgid s
  · exact {hdrop with
      sslFd := agreeOn_place_left hdrop.sslFd _ hssl _
      fdSsl := agreeOn_place_left hdrop.fdSsl _ hkey _}
  · exact {hdrop with
      sslFd := agreeOn_place_left hdrop.sslFd _ hssl _
      fdSsl := agreeOn_place_left hdrop.fdSsl _ hkey _
      tlsFds := agreeOn_place_left hdrop.tlsFds _ hkey _}

theorem tryEnterSslFree_confined (s : ProbeMaps) (hne : c.tgid ≠ tgid) {ssl : UInt64}
    (hssl : o.object ssl ≠ tgid) : Alike o tgid (s.tryEnterSslFree c ssl) s := by
  have h := Alike.refl o tgid s
  have hforget : Alike o tgid {s with
      unmappedSeen := s.unmappedSeen.remove ssl
      handshakeStart := s.handshakeStart.remove ssl
      sslFd := s.sslFd.remove ssl} s :=
    {h with
      unmappedSeen := h.unmappedSeen.remove_left hssl
      handshakeStart := h.handshakeStart.remove_left hssl
      sslFd := h.sslFd.remove_left hssl}
  unfold tryEnterSslFree Maps.clearSslPtr
  split
  · exact h
  · dsimp only
    split
    · exact {hforget with sslFd := .refl _}
    · split
      · exact hforget
      · exact (dropReverse_confined _ hne _ ssl).trans hforget

theorem tryEnterClose_confined {s : ProbeMaps} (hs : Owned o s) (hne : c.tgid ≠ tgid) (fd : UInt64) :
    Alike o tgid (s.tryEnterClose c fd) s := by
  have h := Alike.refl o tgid s
  have hkey := not_descriptorOf_key hne fd.toUInt32
  unfold tryEnterClose Maps.unmarkSockFd Maps.clearSslForFdKey
  dsimp only
  cases hget : s.fdSsl.get (sockFdKey c.tgid fd.toUInt32) with
  | none =>
    exact {h with
      sockMeta := h.sockMeta.remove_left hkey
      tlsFds := h.tlsFds.remove_left hkey
      inflight := h.inflight.remove_left hkey}
  | some ssl =>
    have hssl : o.object ssl ≠ tgid := by rwa [hs.object_of_key hget]
    have hclosed : Alike o tgid {s with
        sockMeta := s.sockMeta.remove (sockFdKey c.tgid fd.toUInt32)
        tlsFds := s.tlsFds.remove (sockFdKey c.tgid fd.toUInt32)
        inflight := s.inflight.remove (sockFdKey c.tgid fd.toUInt32)
        fdSsl := s.fdSsl.remove (sockFdKey c.tgid fd.toUInt32)
        unmappedSeen := s.unmappedSeen.remove ssl
        handshakeStart := s.handshakeStart.remove ssl} s :=
      {h with
        sockMeta := h.sockMeta.remove_left hkey
        tlsFds := h.tlsFds.remove_left hkey
        inflight := h.inflight.remove_left hkey
        fdSsl := h.fdSsl.remove_left hkey
        unmappedSeen := h.unmappedSeen.remove_left hssl
        handshakeStart := h.handshakeStart.remove_left hssl}
    dsimp only
    split
    · exact {hclosed with sslFd := h.sslFd.remove_left hssl}
    · exact hclosed

theorem bumpUnmappedSsl_confined (s : ProbeMaps) (room : Room) {ssl : UInt64}
    (hssl : o.object ssl ≠ tgid) : Alike o tgid (s.bumpUnmappedSsl room ssl) s := by
  have h := Alike.refl o tgid s
  unfold ProbeMaps.bumpUnmappedSsl Maps.bumpUnmappedSsl
  split_ifs
  · exact h
  · exact h
  · exact {h with unmappedSeen := h.unmappedSeen.put_left hssl _}
  · exact h

theorem admitTls_confined (s : ProbeMaps) (hne : c.tgid ≠ tgid) (room : Room) {ssl : UInt64}
    (hssl : o.object ssl ≠ tgid) : Alike o tgid (s.admitTls c room ssl).1 s := by
  unfold ProbeMaps.admitTls
  split
  · split
    · exact keep_confined s hne _
    · exact bumpUnmappedSsl_confined s room hssl
  · exact bumpUnmappedSsl_confined s room hssl

theorem tryEnterSslIo_confined (s : ProbeMaps) (hne : c.tgid ≠ tgid) (hthread : o.thread c.pid ≠ tgid)
    (room : Room) {ssl : UInt64} (hssl : o.object ssl ≠ tgid) (buf : UInt64) (dir : IoDir) :
    Alike o tgid (s.tryEnterSslIo c room ssl buf dir) s := by
  have htls := admitTls_confined s hne room hssl
  unfold tryEnterSslIo
  dsimp only
  split_ifs
  · exact .refl o tgid s
  · exact {htls with pendingTls := agreeOn_place_left htls.pendingTls _ hthread _}
  · exact htls

theorem tryEnterSslIoEx_confined (s : ProbeMaps) (hne : c.tgid ≠ tgid)
    (hthread : o.thread c.pid ≠ tgid) (room : Room) {ssl : UInt64} (hssl : o.object ssl ≠ tgid)
    (buf outlen : UInt64) (dir : IoDir) :
    Alike o tgid (s.tryEnterSslIoEx c room ssl buf outlen dir) s := by
  have htls := admitTls_confined s hne room hssl
  unfold tryEnterSslIoEx
  dsimp only
  split_ifs
  · exact .refl o tgid s
  · exact {htls with pendingTlsEx := agreeOn_place_left htls.pendingTlsEx _ hthread _}
  · exact htls

theorem tryExitSslPending_confined (s : ProbeMaps) (hne : c.tgid ≠ tgid)
    (hthread : o.thread c.pid ≠ tgid) (room : Room) (isEx : Bool) (rax : UInt64) :
    Alike o tgid (s.tryExitSslPending c room isEx rax).1 s := by
  have h := Alike.refl o tgid s
  have hdrop : Alike o tgid {s with toMaps := s.toMaps.dropPending isEx c.pid} s := by
    cases isEx with
    | true => exact {h with pendingTlsEx := h.pendingTlsEx.remove_left hthread}
    | false => exact {h with pendingTls := h.pendingTls.remove_left hthread}
  refine withInflight_confined ?_ room
  unfold Maps.tryExitSslPending
  split
  · exact h
  · dsimp only
    split
    · exact hdrop
    · have hio := emitIoKind_confined (s.toMaps.dropPending isEx c.pid).toIoMaps hne .tlsIo
      exact {hdrop with
        sockMeta := (hio _ _).sockMeta.trans hdrop.sockMeta
        inflight := (hio _ _).inflight.trans hdrop.inflight}

theorem tryEnterSslDoHandshake_confined (s : ProbeMaps) (hthread : o.thread c.pid ≠ tgid)
    (room : Room) {ssl : UInt64} (hssl : o.object ssl ≠ tgid) :
    Alike o tgid (s.tryEnterSslDoHandshake c room ssl) s := by
  have h := Alike.refl o tgid s
  unfold tryEnterSslDoHandshake
  dsimp only
  split_ifs
  · exact h
  · exact h
  · exact {h with pendingHs := agreeOn_place_left h.pendingHs _ hthread _}
  · exact {h with
      pendingHs := agreeOn_place_left h.pendingHs _ hthread _
      handshakeStart := agreeOn_place_left h.handshakeStart _ hssl _}

theorem tryExitSslDoHandshake_confined {s : ProbeMaps} (hs : Owned o s)
    (hthread : o.thread c.pid ≠ tgid) (room : Room) (ret : Int32) :
    Alike o tgid (s.tryExitSslDoHandshake c room ret).1 s := by
  have h := Alike.refl o tgid s
  have htaken : Alike o tgid {s with pendingHs := s.pendingHs.remove c.pid} s :=
    {h with pendingHs := h.pendingHs.remove_left hthread}
  unfold tryExitSslDoHandshake
  split
  · exact h
  · next ssl hget =>
    have hssl : o.object ssl ≠ tgid := by rwa [hs.pendingHs _ _ hget]
    have hended : Alike o tgid {s with
        pendingHs := s.pendingHs.remove c.pid
        handshakeStart := s.handshakeStart.remove ssl} s :=
      {htaken with handshakeStart := h.handshakeStart.remove_left hssl}
    dsimp only
    split
    · exact htaken
    · split
      · exact htaken
      · split
        · exact (bumpUnmappedSsl_confined _ room hssl).trans hended
        · split
          · exact hended
          · exact (submit_confined _ c _).trans hended

theorem fire_confined {s : ProbeMaps} (hs : Owned o s) {room : Room} {probe : ProbeKind}
    (hne : c.tgid ≠ tgid) (he : (KernelStep.fire c room probe).Respects o) :
    Alike o tgid (s.fire c room probe).1 s := by
  have hthread : o.thread c.pid ≠ tgid := by rwa [he.1]
  have hobject : ∀ ssl ∈ probe.object, o.object ssl ≠ tgid := fun ssl hssl => by rwa [he.2 ssl hssl]
  cases probe with
  | enterConnect fd sockaddr => exact tryEnterConnect_confined s hne hthread room fd sockaddr
  | exitConnect ret => exact tryExitKind_confined s hthread .connect ret
  | enterAccept4 sockaddr => exact tryEnterAccept4_confined s hthread room sockaddr
  | exitAccept4 ret => exact tryExitAccept4_confined s hne hthread room ret
  | enterClose fd => exact tryEnterClose_confined hs hne fd
  | enterIo fd args dir => exact tryEnterIo_confined s hne hthread room fd args dir
  | exitIo ret => exact tryExitIo_confined s hne hthread room ret
  | enterSslSetFd ssl fd => exact tryEnterSslSetFd_confined s hne room (hobject ssl rfl) fd
  | enterSslFree ssl => exact tryEnterSslFree_confined s hne (hobject ssl rfl)
  | enterSslIo ssl buf dir =>
    exact tryEnterSslIo_confined s hne hthread room (hobject ssl rfl) buf dir
  | enterSslIoEx ssl buf outlen dir =>
    exact tryEnterSslIoEx_confined s hne hthread room (hobject ssl rfl) buf outlen dir
  | exitSslIo isEx rax => exact tryExitSslPending_confined s hne hthread room isEx rax
  | enterSslDoHandshake ssl => exact tryEnterSslDoHandshake_confined s hthread room (hobject ssl rfl)
  | exitSslDoHandshake ret => exact tryExitSslDoHandshake_confined hs hthread room ret

end Confined

namespace Owned

variable {o : Owners} {s : ProbeMaps} {c : Caller}

theorem start : Owned o .start := ⟨.empty,.empty,.empty,.empty⟩

theorem submit (h : Owned o s) (ev : RingEvent) : Owned o (s.submit c ev).1 := by
  unfold ProbeMaps.submit
  split
  · exact h
  · exact {h with}

theorem markSockMeta (h : Owned o s) (room : Room) (fd : ℤ) (peer : SockMeta) :
    Owned o (s.markSockMeta c room fd peer) := by
  unfold ProbeMaps.markSockMeta
  split
  · exact {h with}
  · exact h

theorem emit (h : Owned o s) (kind : EventKind) (ret : ℤ) (latencyNs : ℕ) (daddrBe : UInt32)
    (dportBe : UInt16) : Owned o (s.emit c kind ret latencyNs daddrBe dportBe).1 := by
  unfold ProbeMaps.emit
  split
  · exact h
  · exact h.submit _

theorem tryEnterConnect (h : Owned o s) (room : Room) (fd sockaddr : UInt64) :
    Owned o (s.tryEnterConnect c room fd sockaddr) := by
  unfold ProbeMaps.tryEnterConnect
  split
  · exact h
  · split
    · exact h
    · next peer _ =>
      have hmark := h.markSockMeta (c := c) room fd.toInt64.toInt peer
      exact {hmark with}

theorem tryEnterAccept4 (h : Owned o s) (room : Room) (sockaddr : UInt64) :
    Owned o (s.tryEnterAccept4 c room sockaddr) := by
  unfold ProbeMaps.tryEnterAccept4
  split
  · exact h
  · exact {h with}

theorem withPendingEnter (h : Owned o s) (p : FiniteMap UInt32 PendingEnter) :
    Owned o {s with pendingEnter := p} := {h with}

theorem tryExitKind (h : Owned o s) (kind : EventKind) (ret : ℤ) :
    Owned o (s.tryExitKind c kind ret).1 := by
  unfold ProbeMaps.tryExitKind
  split
  · exact h
  · exact (h.withPendingEnter _).emit _ _ _ _ _

theorem tryExitAccept4 (h : Owned o s) (room : Room) (ret : ℤ) :
    Owned o (s.tryExitAccept4 c room ret).1 := by
  unfold ProbeMaps.tryExitAccept4
  split
  · exact h
  · exact ((h.withPendingEnter _).markSockMeta _ _ _).emit _ _ _ _ _

theorem tryEnterIo (h : Owned o s) (room : Room) (fd : UInt64) (args : ProbeMaps.IoArgs)
    (dir : IoDir) : Owned o (s.tryEnterIo c room fd args dir) := by
  unfold ProbeMaps.tryEnterIo ProbeMaps.stashPendingIo
  split
  · exact h
  · dsimp only
    split_ifs <;> exact {h with}

theorem withSockMeta (h : Owned o s) (a : SockMetaMap) : Owned o {s with sockMeta := a} := {h with}

theorem withIo (h : Owned o s) (a : IoMaps) : Owned o {s with toIoMaps := a} := {h with}

theorem withInflight (h : Owned o s) (room : Room) (old : InflightMap) :
    Owned o (ProbeMaps.withInflight room old s) := by
  unfold ProbeMaps.withInflight
  split
  · exact h
  · exact {h with}

theorem emitTimes (h : Owned o s) (pending : PendingIo) (ret : ℤ) :
    Owned o (s.emitTimes c pending ret).1 := by
  unfold ProbeMaps.emitTimes
  dsimp only
  split_ifs
  · exact h
  · exact h
  · exact h.withSockMeta _
  · exact (h.withSockMeta _).submit _

theorem withPendingIo (h : Owned o s) (p : FiniteMap UInt32 StashedIo) :
    Owned o {s with pendingIo := p} := {h with}

theorem tryExitIo (h : Owned o s) (room : Room) (ret : ℤ) : Owned o (s.tryExitIo c room ret).1 := by
  unfold ProbeMaps.tryExitIo
  split
  · exact h
  · dsimp only
    split
    · exact (h.withPendingIo _).emitTimes _ ret
    · exact ((h.withPendingIo _).withIo _).withInflight room _

theorem dropReverse (h : Owned o s) (key ssl : UInt64) : Owned o (s.dropReverse key ssl) := by
  unfold ProbeMaps.dropReverse Maps.dropReverse
  split
  · exact {h with fdSsl := h.fdSsl.remove _}
  · exact h

theorem tryEnterSslSetFd (h : Owned o s) (room : Room) {ssl : UInt64} (hssl : o.object ssl = c.tgid)
    (fd : Int32) : Owned o (s.tryEnterSslSetFd c room ssl fd) := by
  have hdrop : Owned o (s.dropStale c.tgid ssl fd) := by
    unfold ProbeMaps.dropStale
    split
    · split
      · exact h.dropReverse _ ssl
      · exact h
    · exact h
  have hkey : DescriptorOf (o.object ssl) (sockFdKey c.tgid fd.toUInt32) := ⟨_,by rw [hssl]⟩
  unfold ProbeMaps.tryEnterSslSetFd ProbeMaps.markTlsFd
  dsimp only
  split_ifs
  · exact h
  · exact {hdrop with fdSsl := all_place hdrop.fdSsl _ hkey}
  · exact {hdrop with fdSsl := all_place hdrop.fdSsl _ hkey}

theorem tryEnterSslFree (h : Owned o s) (ssl : UInt64) : Owned o (s.tryEnterSslFree c ssl) := by
  have hforget : Owned o {s with
      unmappedSeen := s.unmappedSeen.remove ssl
      handshakeStart := s.handshakeStart.remove ssl
      sslFd := s.sslFd.remove ssl} := {h with}
  unfold ProbeMaps.tryEnterSslFree Maps.clearSslPtr
  split
  · exact h
  · dsimp only
    split
    · exact {hforget with}
    · split
      · exact hforget
      · exact hforget.dropReverse _ ssl

theorem tryEnterClose (h : Owned o s) (fd : UInt64) : Owned o (s.tryEnterClose c fd) := by
  unfold ProbeMaps.tryEnterClose Maps.unmarkSockFd Maps.clearSslForFdKey
  dsimp only
  split
  · exact {h with}
  · split
    · exact {h with fdSsl := h.fdSsl.remove _}
    · exact {h with fdSsl := h.fdSsl.remove _}

theorem bumpUnmappedSsl (h : Owned o s) (room : Room) (ssl : UInt64) :
    Owned o (s.bumpUnmappedSsl room ssl) := by
  unfold ProbeMaps.bumpUnmappedSsl Maps.bumpUnmappedSsl
  split_ifs <;> exact {h with}

theorem admitTls (h : Owned o s) (room : Room) (ssl : UInt64) : Owned o (s.admitTls c room ssl).1 := by
  unfold ProbeMaps.admitTls
  split
  · split
    · exact h.withSockMeta _
    · exact h.bumpUnmappedSsl room ssl
  · exact h.bumpUnmappedSsl room ssl

theorem tryEnterSslIo (h : Owned o s) (room : Room) {ssl : UInt64}
    (hssl : o.object ssl = o.thread c.pid) (buf : UInt64) (dir : IoDir) :
    Owned o (s.tryEnterSslIo c room ssl buf dir) := by
  have htls := h.admitTls (c := c) room ssl
  unfold ProbeMaps.tryEnterSslIo
  dsimp only
  split_ifs
  · exact h
  · exact {htls with pendingTls := all_place htls.pendingTls _ hssl}
  · exact htls

theorem tryEnterSslIoEx (h : Owned o s) (room : Room) {ssl : UInt64}
    (hssl : o.object ssl = o.thread c.pid) (buf outlen : UInt64) (dir : IoDir) :
    Owned o (s.tryEnterSslIoEx c room ssl buf outlen dir) := by
  have htls := h.admitTls (c := c) room ssl
  unfold ProbeMaps.tryEnterSslIoEx
  dsimp only
  split_ifs
  · exact h
  · exact {htls with pendingTlsEx := all_place htls.pendingTlsEx _ hssl}
  · exact htls

theorem tryExitSslPending (h : Owned o s) (room : Room) (isEx : Bool) (rax : UInt64) :
    Owned o (s.tryExitSslPending c room isEx rax).1 := by
  have hdrop : Owned o {s with toMaps := s.toMaps.dropPending isEx c.pid} := by
    cases isEx with
    | true => exact {h with pendingTlsEx := h.pendingTlsEx.remove _}
    | false => exact {h with pendingTls := h.pendingTls.remove _}
  refine withInflight ?_ room s.inflight
  unfold Maps.tryExitSslPending
  split
  · exact h
  · dsimp only
    split
    · exact hdrop
    · exact hdrop.withIo _

theorem tryEnterSslDoHandshake (h : Owned o s) (room : Room) {ssl : UInt64}
    (hssl : o.object ssl = o.thread c.pid) : Owned o (s.tryEnterSslDoHandshake c room ssl) := by
  unfold ProbeMaps.tryEnterSslDoHandshake
  dsimp only
  split_ifs
  · exact h
  · exact h
  · exact {h with pendingHs := all_place h.pendingHs _ hssl}
  · exact {h with pendingHs := all_place h.pendingHs _ hssl}

theorem tryExitSslDoHandshake (h : Owned o s) (room : Room) (ret : Int32) :
    Owned o (s.tryExitSslDoHandshake c room ret).1 := by
  have htaken : ∀ start, Owned o {s with
      pendingHs := s.pendingHs.remove c.pid
      handshakeStart := start} := fun start => {h with pendingHs := h.pendingHs.remove _}
  unfold ProbeMaps.tryExitSslDoHandshake
  split
  · exact h
  · dsimp only
    split
    · exact htaken _
    · split
      · exact htaken _
      · split
        · exact (htaken _).bumpUnmappedSsl room _
        · split
          · exact htaken _
          · exact (htaken _).submit _

theorem fire (h : Owned o s) {room : Room} {probe : ProbeKind}
    (he : (KernelStep.fire c room probe).Respects o) : Owned o (s.fire c room probe).1 := by
  have hobject : ∀ ssl ∈ probe.object, o.object ssl = o.thread c.pid := fun ssl hssl => by
    rw [he.2 ssl hssl,he.1]
  cases probe with
  | enterConnect fd sockaddr => exact h.tryEnterConnect room fd sockaddr
  | exitConnect ret => exact h.tryExitKind .connect ret
  | enterAccept4 sockaddr => exact h.tryEnterAccept4 room sockaddr
  | exitAccept4 ret => exact h.tryExitAccept4 room ret
  | enterClose fd => exact h.tryEnterClose fd
  | enterIo fd args dir => exact h.tryEnterIo room fd args dir
  | exitIo ret => exact h.tryExitIo room ret
  | enterSslSetFd ssl fd => exact h.tryEnterSslSetFd room (he.2 ssl rfl) fd
  | enterSslFree ssl => exact h.tryEnterSslFree ssl
  | enterSslIo ssl buf dir => exact h.tryEnterSslIo room (hobject ssl rfl) buf dir
  | enterSslIoEx ssl buf outlen dir => exact h.tryEnterSslIoEx room (hobject ssl rfl) buf outlen dir
  | exitSslIo isEx rax => exact h.tryExitSslPending room isEx rax
  | enterSslDoHandshake ssl => exact h.tryEnterSslDoHandshake room (hobject ssl rfl)
  | exitSslDoHandshake ret => exact h.tryExitSslDoHandshake room ret

theorem step (h : Owned o s) {e : KernelStep} (he : e.Respects o) : Owned o (s.step e).1 := by
  cases e with
  | fire c room probe => exact h.fire he
  | clearInflight tgid fd =>
    unfold ProbeMaps.step ProbeMaps.clearInflight
    dsimp only
    split_ifs <;> exact {h with}

end Owned

theorem ProbeMaps.submit_tgid {m : ProbeMaps} {c : Caller} {ev r : RingEvent} (hev : ev.tgid = c.tgid)
    (hr : r ∈ (m.submit c ev).2) : r.tgid = c.tgid := by
  unfold submit at hr
  split at hr
  · rw [List.mem_singleton.mp hr,hev]
  · cases hr

theorem ProbeMaps.emit_tgid {m : ProbeMaps} {c : Caller} {kind : EventKind} {ret : ℤ}
    {latencyNs : ℕ} {daddrBe : UInt32} {dportBe : UInt16} {r : RingEvent}
    (hr : r ∈ (m.emit c kind ret latencyNs daddrBe dportBe).2) : r.tgid = c.tgid := by
  unfold emit at hr
  split at hr
  · cases hr
  · exact submit_tgid rfl hr

theorem ProbeMaps.fire_tgid {m : ProbeMaps} {c : Caller} {room : Room} {probe : ProbeKind}
    {r : RingEvent} (hr : r ∈ (m.fire c room probe).2) : r.tgid = c.tgid := by
  cases probe with
  | exitConnect ret =>
    simp only [fire,tryExitKind] at hr
    split at hr
    · cases hr
    · exact emit_tgid hr
  | exitAccept4 ret =>
    simp only [fire,tryExitAccept4] at hr
    split at hr
    · cases hr
    · exact emit_tgid hr
  | exitIo ret =>
    obtain ⟨p,m',-,hrecord⟩ := tryExitIo_record hr
    split_ifs at hrecord
    · rw [(emitTimes_record hrecord).2.2]
      rfl
    · obtain ⟨-,-,raw,-,rfl⟩ := emitIo_record hrecord
      rfl
  | exitSslIo isEx rax =>
    obtain ⟨ev,hev,rfl⟩ := List.mem_map.mp hr
    have hexit := Option.mem_toList.mp hev
    unfold Maps.tryExitSslPending at hexit
    split at hexit
    · cases hexit
    · dsimp only at hexit
      split at hexit
      · cases hexit
      · exact (emitIoKind_event hexit).2.1
  | exitSslDoHandshake ret =>
    simp only [fire,tryExitSslDoHandshake] at hr
    split at hr
    · cases hr
    · split at hr
      · cases hr
      · split at hr
        · cases hr
        · split at hr
          · cases hr
          · split at hr
            · cases hr
            · exact submit_tgid rfl hr
  | _ => cases hr

theorem ProbeMaps.step_tgid {m : ProbeMaps} {e : KernelStep} {r : RingEvent}
    (hr : r ∈ (m.step e).2) : r.tgid = e.tgid := by
  cases e with
  | fire c room probe => exact fire_tgid hr
  | clearInflight tgid fd => cases hr

theorem step_confined {o : Owners} {tgid : UInt32} {s : ProbeMaps} (hs : Owned o s) {e : KernelStep}
    (he : e.Respects o) (hne : e.tgid ≠ tgid) : Alike o tgid (s.step e).1 s := by
  cases e with
  | fire c room probe => exact fire_confined hs hne he
  | clearInflight tgid' fd =>
    have h := Alike.refl o tgid s
    unfold ProbeMaps.step ProbeMaps.clearInflight
    dsimp only
    split_ifs
    · exact h
    · exact {h with inflight := h.inflight.remove_left (not_descriptorOf_key hne _)}

theorem Alike.step {o : Owners} {s t : ProbeMaps} {e : KernelStep} (h : Alike o e.tgid s t)
    (hs : Owned o s) (he : e.Respects o) : Same o e.tgid (s.step e) (t.step e) := by
  cases e with
  | fire c room probe => exact h.fire hs he
  | clearInflight tgid fd =>
    unfold ProbeMaps.step ProbeMaps.clearInflight
    dsimp only
    split_ifs
    · exact ⟨h,rfl⟩
    · exact ⟨{h with inflight := h.inflight.remove _},rfl⟩

/-- The records of a process are those of a run in which only its own probes fire: the calls, the
descriptors and the TLS objects of all others leave no trace in them. -/
theorem process_records_isolated (o : Owners) (tgid : UInt32) (es : List KernelStep)
    (hes : ∀ e ∈ es, e.Respects o) :
    (Machine.outputs ProbeMaps.step .start es).filter (fun r => r.tgid = tgid) =
      Machine.outputs ProbeMaps.step .start (es.filter fun e => e.tgid = tgid) := by
  -- the full run and the run of the process stay alike for it
  refine Machine.outputs_filter ProbeMaps.step
    (R := fun es s t => Owned o s ∧ Alike o tgid s t ∧ ∀ e ∈ es, e.Respects o) ?_ ?_
    ⟨.start,.refl o tgid .start,hes⟩
  · rintro e es s t ⟨hs,hst,hes⟩ hskip
    have he := hes e List.mem_cons_self
    have hne : e.tgid ≠ tgid := by simpa using hskip
    refine ⟨⟨hs.step he,(step_confined hs he hne).trans hst,fun a ha => hes a (.tail e ha)⟩,?_⟩
    refine List.filter_eq_nil_iff.mpr fun r hr => ?_
    simpa [ProbeMaps.step_tgid hr] using hne
  · rintro e es s t ⟨hs,hst,hes⟩ hboth
    have he := hes e List.mem_cons_self
    have htgid : e.tgid = tgid := by simpa using hboth
    subst htgid
    obtain ⟨halike,hrecords⟩ := hst.step hs he
    refine ⟨⟨hs.step he,halike,fun a ha => hes a (.tail e ha)⟩,?_⟩
    rw [← hrecords]
    refine List.filter_eq_self.mpr fun r hr => ?_
    simp [ProbeMaps.step_tgid hr]

/-- Threads from 20 on belong to process 8, and so do the pointers from 4096 on. -/
def twoProcesses : Owners := ⟨fun tid => if tid < 20 then 7 else 8,fun ssl => if ssl < 4096 then 7 else 8⟩

/-- A handshake on pointer `ssl` of process 7, and process 8 frees pointer `freed` during it. -/
def handshakeWithFree (ssl freed : UInt64) : List KernelStep :=
  let mem : UserMemory := ⟨fun _ => 0,fun _ => true⟩
  [.fire (plainCaller 7 11 100 mem) .all (.enterSslSetFd ssl 3),
    .fire (plainCaller 7 11 200 mem) .all (.enterSslDoHandshake ssl),
    .fire (plainCaller 8 21 300 mem) .all (.enterSslFree freed),
    .fire (plainCaller 7 11 400 mem) .all (.exitSslDoHandshake 1)]

theorem process_records_isolated_handshake :
    let es := handshakeWithFree 64 4096
    (Machine.outputs ProbeMaps.step .start es).length = 1 ∧
      (Machine.outputs ProbeMaps.step .start es).filter (fun r => r.tgid = 7) =
        Machine.outputs ProbeMaps.step .start (es.filter fun e => e.tgid = 7) := by
  refine ⟨by decide +kernel,process_records_isolated twoProcesses 7 _ ?_⟩
  simp [handshakeWithFree,KernelStep.Respects,ProbeKind.object,twoProcesses,plainCaller]

/-- The maps of TLS objects have the pointer alone as their key: processes that share a pointer value
do interfere. -/
example :
    let es := handshakeWithFree 64 64
    (Machine.outputs ProbeMaps.step .start es).length = 0 ∧
      (Machine.outputs ProbeMaps.step .start (es.filter fun e => e.tgid = 7)).length = 1 := by
  decide +kernel

end Kernel
end ObsAgent
