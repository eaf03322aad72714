import ObsAgent.Probes
import ObsAgent.TlsConsistency

/-! The whole kernel program against the model of its TLS probes alone.  While every map has room, the
runs of the program are runs of that model: the probes of sockets are its world. -/
namespace ObsAgent
namespace Kernel

/-- The TLS maps without those that they share with the sockets. -/
def Maps.tls (m : Maps) : Maps := {m with toIoMaps := ⟨∅,∅,0⟩}

theorem Maps.eq_world {m m' : Maps} (h : m'.tls = m.tls) :
    m' = {m with toIoMaps := m'.toIoMaps} := by
  cases m
  cases m'
  simp only [Maps.tls,Maps.mk.injEq,true_and] at h
  simp [h]

def RingEvent.tlsIo : RingEvent → Option SockIoEvent
  | .io ev => if ev.kind = EventKind.tlsIo.toU8 then some ev else none
  | _ => none

namespace ProbeMaps

section Sockets

variable (m : ProbeMaps) (c : Caller) (room : Room)

theorem submit_tls (ev : RingEvent) : (m.submit c ev).1.tls = m.tls := by
  unfold submit
  split <;> rfl

theorem markSockMeta_tls (fd : ℤ) (peer : SockMeta) : (m.markSockMeta c room fd peer).tls = m.tls := by
  unfold markSockMeta
  split <;> rfl

theorem emit_tls (kind : EventKind) (ret : ℤ) (latencyNs : ℕ) (daddrBe : UInt32) (dportBe : UInt16) :
    (m.emit c kind ret latencyNs daddrBe dportBe).1.tls = m.tls := by
  unfold emit
  split
  · rfl
  · exact submit_tls m c _

theorem tryEnterConnect_tls (fd sockaddr : UInt64) :
    (m.tryEnterConnect c room fd sockaddr).tls = m.tls := by
  unfold tryEnterConnect
  split
  · rfl
  · split
    · rfl
    · exact markSockMeta_tls m c room _ _

theorem tryEnterAccept4_tls (sockaddr : UInt64) : (m.tryEnterAccept4 c room sockaddr).tls = m.tls := by
  unfold tryEnterAccept4
  split <;> rfl

theorem tryExitKind_tls (kind : EventKind) (ret : ℤ) : (m.tryExitKind c kind ret).1.tls = m.tls := by
  unfold tryExitKind
  split
  · rfl
  · exact emit_tls _ c kind ret _ _ _

theorem tryExitAccept4_tls (ret : ℤ) : (m.tryExitAccept4 c room ret).1.tls = m.tls := by
  unfold tryExitAccept4
  split
  · rfl
  · exact (emit_tls _ c .accept ret _ _ _).trans (markSockMeta_tls _ c room ret _)

theorem tryEnterIo_tls (fd : UInt64) (args : IoArgs) (dir : IoDir) :
    (m.tryEnterIo c room fd args dir).tls = m.tls := by
  unfold tryEnterIo
  split
  · rfl
  · unfold stashPendingIo
    dsimp only
    split_ifs <;> rfl

theorem tryExitIo_tls (ret : ℤ) : (m.tryExitIo c room ret).1.tls = m.tls := by
  unfold tryExitIo
  split
  · rfl
  · dsimp only
    split
    · unfold emitTimes
      split_ifs
      · rfl
      · rfl
      · dsimp only
        split
        · rfl
        · exact submit_tls _ c _
    · unfold emitIo withInflight
      split <;> rfl

theorem tryEnterSslDoHandshake_tls (ssl : UInt64) :
    (m.tryEnterSslDoHandshake c room ssl).tls = m.tls := by
  unfold tryEnterSslDoHandshake
  dsimp only
  split_ifs <;> rfl

theorem clearInflight_tls (tgid : UInt32) (fd : Int32) : (m.clearInflight tgid fd).tls = m.tls := by
  unfold clearInflight
  split <;> rfl

end Sockets

section Tls

variable (m : ProbeMaps) (c : Caller)

theorem tryEnterSslSetFd_toMaps (ssl : UInt64) (fd : Int32) :
    (m.tryEnterSslSetFd c .all ssl fd).toMaps = m.toMaps.tryEnterSslSetFd c.tgid ssl fd := by
  unfold tryEnterSslSetFd Maps.tryEnterSslSetFd dropStale
  split
  · rfl
  · next hok =>
    have hfd : ¬fd < 0 := fun h => hok (.inr h)
    simp only [markTlsFd,Maps.markTlsFd,if_neg hfd]
    cases m.sslFd.get ssl with
    | none => rfl
    | some oldFd =>
      dsimp only
      split <;> rfl

theorem tryEnterSslFree_toMaps (ssl : UInt64) :
    (m.tryEnterSslFree c ssl).toMaps = m.toMaps.tryEnterSslFree c.tgid ssl := by
  unfold tryEnterSslFree Maps.tryEnterSslFree
  split
  · next hzero =>
    rw [Maps.clearSslPtr,if_pos hzero]
  · rfl

theorem admitTls_toMaps (ssl : UInt64) :
    ((m.admitTls c .all ssl).1.toMaps,(m.admitTls c .all ssl).2) = m.toMaps.admitTls c ssl := by
  unfold admitTls Maps.admitTls
  cases m.sslFd.get ssl with
  | none => rfl
  | some fd =>
    dsimp only
    split <;> rfl

theorem tryEnterSslIo_toMaps (ssl buf : UInt64) (dir : IoDir) :
    (m.tryEnterSslIo c .all ssl buf dir).toMaps = m.toMaps.tryEnterSslIo c ssl buf dir := by
  unfold tryEnterSslIo Maps.tryEnterSslIo
  rw [← admitTls_toMaps]
  split
  · rfl
  · dsimp only
    split <;> rfl

theorem tryEnterSslIoEx_toMaps (ssl buf outlen : UInt64) (dir : IoDir) :
    (m.tryEnterSslIoEx c .all ssl buf outlen dir).toMaps =
      m.toMaps.tryEnterSslIoEx c ssl buf outlen dir := by
  unfold tryEnterSslIoEx Maps.tryEnterSslIoEx
  rw [← admitTls_toMaps]
  split
  · rfl
  · dsimp only
    split <;> rfl

/-- The object of a handshake that ends well while the object has no descriptor. -/
def endsUnmapped (ret : Int32) : Option UInt64 :=
  (m.pendingHs.get c.pid).filter fun ssl =>
    ret = 1 && m.handshakeStart.contains ssl && !m.sslFd.contains ssl

theorem tryExitSslDoHandshake_toMaps {ret : Int32} {ssl : UInt64}
    (h : m.endsUnmapped c ret = some ssl) :
    (m.tryExitSslDoHandshake c .all ret).1.toMaps = m.toMaps.bumpUnmappedSsl ssl := by
  obtain ⟨hpending,hends⟩ := Option.filter_eq_some_iff.mp h
  simp only [Bool.and_eq_true,decide_eq_true_eq,Bool.not_eq_true',FiniteMap.contains,
    Option.isSome_iff_exists,Option.isSome_eq_false_iff,Option.isNone_iff_eq_none] at hends
  obtain ⟨⟨hret,start,hstart⟩,hfd⟩ := hends
  simp only [tryExitSslDoHandshake,hpending,hret,ne_eq,not_true_eq_false,if_false,hstart,hfd]
  rfl

theorem tryExitSslDoHandshake_tls {ret : Int32} (room : Room) (h : m.endsUnmapped c ret = none) :
    (m.tryExitSslDoHandshake c room ret).1.tls = m.tls := by
  unfold tryExitSslDoHandshake
  cases hpending : m.pendingHs.get c.pid with
  | none => rfl
  | some ssl =>
    dsimp only
    split
    · rfl
    · next hret =>
      cases hstart : m.handshakeStart.get ssl with
      | none => rfl
      | some start =>
        dsimp only
        cases hfd : m.sslFd.get ssl with
        | none =>
          simp [endsUnmapped,hpending,not_not.mp hret,FiniteMap.contains,hstart,hfd] at h
        | some fd =>
          dsimp only
          split
          · rfl
          · exact submit_tls _ c _

end Tls

/-- What a step of the program is to the TLS maps. -/
def tlsStep (m : ProbeMaps) : KernelStep → TlsStep
  | .fire c _ (.enterSslSetFd ssl fd) => .setFd c ssl fd
  | .fire c _ (.enterSslFree ssl) => .free c ssl
  | .fire c _ (.enterClose fd) => .close c fd.toUInt32
  | .fire c _ (.enterSslIo ssl buf dir) => .enter c ssl buf dir
  | .fire c _ (.enterSslIoEx ssl buf outlen dir) => .enterEx c ssl buf outlen dir
  | .fire c _ (.exitSslIo isEx rax) => .exit c isEx rax
  | .fire c room (.exitSslDoHandshake ret) =>
    match m.endsUnmapped c ret with
    | some ssl => .unmapped ssl
    | none => .world (m.tryExitSslDoHandshake c room ret).1.toIoMaps
  | e => .world (m.step e).1.toIoMaps

end ProbeMaps

/-- Every insertion of the step takes effect. -/
def KernelStep.HasRoom : KernelStep → Prop
  | .fire _ room _ => room = .all
  | .clearInflight _ _ => True

namespace ProbeMaps

theorem step_toMaps (m : ProbeMaps) {e : KernelStep} (h : e.HasRoom) :
    (m.step e).1.toMaps = ((m.tlsStep e).apply m.toMaps).1 := by
  cases e with
  | clearInflight tgid fd => exact Maps.eq_world (clearInflight_tls m tgid fd)
  | fire c room probe =>
    obtain rfl : room = .all := h
    cases probe with
    | enterConnect fd sockaddr => exact Maps.eq_world (tryEnterConnect_tls m c .all fd sockaddr)
    | exitConnect ret => exact Maps.eq_world (tryExitKind_tls m c .connect ret)
    | enterAccept4 sockaddr => exact Maps.eq_world (tryEnterAccept4_tls m c .all sockaddr)
    | exitAccept4 ret => exact Maps.eq_world (tryExitAccept4_tls m c .all ret)
    | enterClose fd => rfl
    | enterIo fd args dir => exact Maps.eq_world (tryEnterIo_tls m c .all fd args dir)
    | exitIo ret => exact Maps.eq_world (tryExitIo_tls m c .all ret)
    | enterSslSetFd ssl fd => exact tryEnterSslSetFd_toMaps m c ssl fd
    | enterSslFree ssl => exact tryEnterSslFree_toMaps m c ssl
    | enterSslIo ssl buf dir => exact tryEnterSslIo_toMaps m c ssl buf dir
    | enterSslIoEx ssl buf outlen dir => exact tryEnterSslIoEx_toMaps m c ssl buf outlen dir
    | exitSslIo isEx rax => rfl
    | enterSslDoHandshake ssl => exact Maps.eq_world (tryEnterSslDoHandshake_tls m c .all ssl)
    | exitSslDoHandshake ret =>
      cases hends : m.endsUnmapped c ret with
      | some ssl =>
        simp only [tlsStep,hends]
        exact tryExitSslDoHandshake_toMaps m c hends
      | none =>
        simp only [tlsStep,hends]
        exact Maps.eq_world (tryExitSslDoHandshake_tls m c .all hends)

theorem submit_tlsIo (m : ProbeMaps) (c : Caller) {ev : RingEvent} (h : ev.tlsIo = none) :
    (m.submit c ev).2.filterMap RingEvent.tlsIo = [] := by
  unfold submit
  split <;> simp [h]

theorem tlsIo_of_kind {evs : Option SockIoEvent} {kind : EventKind}
    (h : ∀ ev, evs = some ev → ev.kind = kind.toU8) :
    (evs.toList.map RingEvent.io).filterMap RingEvent.tlsIo =
      if kind = .tlsIo then evs.toList else [] := by
  cases evs with
  | none => simp
  | some ev => cases kind <;> simp [RingEvent.tlsIo,h ev rfl,EventKind.toU8]

section Records

variable (m : ProbeMaps) (c : Caller) (room : Room)

theorem emit_tlsIo (kind : EventKind) (ret : ℤ) (latencyNs : ℕ) (daddrBe : UInt32)
    (dportBe : UInt16) :
    (m.emit c kind ret latencyNs daddrBe dportBe).2.filterMap RingEvent.tlsIo = [] := by
  unfold emit
  split
  · rfl
  · exact submit_tlsIo m c rfl

theorem tryExitKind_tlsIo (kind : EventKind) (ret : ℤ) :
    (m.tryExitKind c kind ret).2.filterMap RingEvent.tlsIo = [] := by
  unfold tryExitKind
  split
  · rfl
  · exact emit_tlsIo _ c kind ret _ _ _

theorem tryExitAccept4_tlsIo (ret : ℤ) :
    (m.tryExitAccept4 c room ret).2.filterMap RingEvent.tlsIo = [] := by
  unfold tryExitAccept4
  split
  · rfl
  · exact emit_tlsIo _ c .accept ret _ _ _

theorem tryExitIo_tlsIo (ret : ℤ) : (m.tryExitIo c room ret).2.filterMap RingEvent.tlsIo = [] := by
  unfold tryExitIo
  split
  · rfl
  · dsimp only
    split
    · unfold emitTimes
      split_ifs
      · rfl
      · rfl
      · dsimp only
        split
        · rfl
        · exact submit_tlsIo _ c rfl
    · exact tlsIo_of_kind fun ev hev => (emitIoKind_event hev).2.2

theorem tryExitSslPending_tlsIo (isEx : Bool) (rax : UInt64) :
    (m.tryExitSslPending c room isEx rax).2.filterMap RingEvent.tlsIo =
      (m.toMaps.tryExitSslPending c isEx rax).2.toList := by
  refine (tlsIo_of_kind fun ev hev => ?_).trans (if_pos rfl)
  unfold Maps.tryExitSslPending at hev
  split at hev
  · cases hev
  · dsimp only at hev
    split at hev
    · cases hev
    · exact (emitIoKind_event hev).2.2

theorem tryExitSslDoHandshake_tlsIo (ret : Int32) :
    (m.tryExitSslDoHandshake c room ret).2.filterMap RingEvent.tlsIo = [] := by
  unfold tryExitSslDoHandshake
  split
  · rfl
  · dsimp only
    split
    · rfl
    · split
      · rfl
      · split
        · rfl
        · split
          · rfl
          · exact submit_tlsIo _ c rfl

end Records

theorem step_tlsIo (m : ProbeMaps) (e : KernelStep) :
    (m.step e).2.filterMap RingEvent.tlsIo = ((m.tlsStep e).apply m.toMaps).2.toList := by
  cases e with
  | clearInflight tgid fd => rfl
  | fire c room probe =>
    cases probe with
    | exitConnect ret => exact tryExitKind_tlsIo m c .connect ret
    | exitAccept4 ret => exact tryExitAccept4_tlsIo m c room ret
    | exitIo ret => exact tryExitIo_tlsIo m c room ret
    | exitSslIo isEx rax => exact tryExitSslPending_tlsIo m c room isEx rax
    | exitSslDoHandshake ret =>
      refine (tryExitSslDoHandshake_tlsIo m c room ret).trans ?_
      simp only [tlsStep]
      cases m.endsUnmapped c ret <;> rfl
    | _ => rfl

end ProbeMaps

/-- A step of the TLS model with its record. -/
def TlsStep.step (m : Maps) (s : TlsStep) : Maps × List SockIoEvent :=
  ((s.apply m).1,(s.apply m).2.toList)

/-- While its maps have room, the program keeps the TLS maps and submits the TLS records of a run of
the TLS model. -/
theorem probes_refine_tls {es : List KernelStep} (hroom : ∀ e ∈ es, e.HasRoom) :
    let steps := Machine.seen ProbeMaps.step (fun m e => some (m.tlsStep e)) .start es
    (Machine.final ProbeMaps.step .start es).toMaps = TlsStep.run steps ∧
      (Machine.outputs ProbeMaps.step .start es).filterMap RingEvent.tlsIo =
        Machine.outputs TlsStep.step .start steps :=
  Machine.refines ProbeMaps.step TlsStep.step ProbeMaps.toMaps ProbeMaps.tlsStep RingEvent.tlsIo
    (fun m e he => ⟨m.step_toMaps he,m.step_tlsIo e⟩) .start hroom

def KernelStep.OwnedBy (own : UInt64 → UInt32) : KernelStep → Prop
  | .fire c _ (.enterSslSetFd ssl _) | .fire c _ (.enterSslFree ssl) => c.tgid = own ssl
  | _ => True

theorem KernelStep.OwnedBy.tlsStep {own : UInt64 → UInt32} {e : KernelStep} (h : e.OwnedBy own)
    (m : ProbeMaps) : (m.tlsStep e).OwnedBy own := by
  cases e with
  | clearInflight tgid fd => trivial
  | fire c room probe =>
    cases probe with
    | enterSslSetFd ssl fd => exact h
    | enterSslFree ssl => exact h
    | exitSslDoHandshake ret =>
      simp only [ProbeMaps.tlsStep]
      cases m.endsUnmapped c ret <;> trivial
    | _ => trivial

/-- So the TLS maps of the whole program agree where each object belongs to one process. -/
theorem probes_consistent {own : UInt64 → UInt32} {es : List KernelStep}
    (hroom : ∀ e ∈ es, e.HasRoom) (hown : ∀ e ∈ es, e.OwnedBy own) :
    Consistent own (Machine.final ProbeMaps.step .start es).toMaps := by
  rw [(probes_refine_tls hroom).1]
  refine run_consistent fun s hs => ?_
  obtain ⟨m,e,he,hread⟩ := Machine.mem_seen ProbeMaps.step hs
  obtain rfl := Option.some_inj.mp hread
  exact (hown e he).tlsStep m

end Kernel
end ObsAgent
