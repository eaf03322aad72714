import ObsAgent.HandshakeTiming

/-! Everything that the kernel program submits is read by the agent as what it is: the records of
every kind go through the octets of the ring and the demux unchanged. -/
namespace ObsAgent

open LittleEndian
open Kernel (EventKind zeroTail RingEvent ProbeMaps KernelStep ProbeKind Caller)

def SockLatencyEvent.record (ev : SockLatencyEvent) : List UInt8 :=
  toBytes 1 ev.kind.toNat ++ (toBytes 7 0 ++ (toBytes 4 ev.pid.toNat ++ (toBytes 4 ev.tgid.toNat ++
    (toBytes 8 (ev.ret % 2^64).toNat ++ (toBytes 8 ev.latencyNs ++ (toBytes 8 ev.tsNs ++
      (toBytes 4 ev.daddrBe.toNat ++ (toBytes 2 ev.dportBe.toNat ++ toBytes 2 0))))))))

def SockIoTimesEvent.record (ev : SockIoTimesEvent) : List UInt8 :=
  toBytes 1 ev.kind.toNat ++ (toBytes 1 ev.dir.toNat ++ (toBytes 2 0 ++
    (toBytes 4 ev.fd.toUInt32.toNat ++ (toBytes 4 ev.pid.toNat ++ (toBytes 4 ev.tgid.toNat ++
      (toBytes 8 (ev.ret % 2^64).toNat ++ toBytes 8 ev.tsNs))))))

def TlsHandshakeEvent.record (ev : TlsHandshakeEvent) : List UInt8 :=
  toBytes 1 ev.kind.toNat ++ (toBytes 7 0 ++ (toBytes 4 ev.pid.toNat ++ (toBytes 4 ev.tgid.toNat ++
    (toBytes 4 ev.fd.toUInt32.toNat ++ (toBytes 4 0 ++ (toBytes 8 (ev.ret % 2^64).toNat ++
      (toBytes 8 ev.latencyNs ++ toBytes 8 ev.tsNs)))))))

/-- What the kernel copies into the ring. -/
def Kernel.RingEvent.record : RingEvent → List UInt8
  | .latency ev => ev.record
  | .io ev => ev.record
  | .times ev => ev.record
  | .handshake ev => ev.record

/-- What the agent should make of it. -/
def Kernel.RingEvent.decoded : RingEvent → DecodedEvent
  | .latency ev => .latency ev
  | .io ev => if ev.kind = EventKind.tlsIo.toU8 then .tlsIo ev else .io ev
  | .times ev => .sockIoTimes ev
  | .handshake ev => .tlsHandshake ev

/-- A record of a known kind whose numbers fit their fields. -/
def Kernel.RingEvent.Proper : RingEvent → Prop
  | .latency ev => (ev.kind = EventKind.connect.toU8 ∨ ev.kind = EventKind.accept.toU8) ∧
      (-2^63 ≤ ev.ret ∧ ev.ret < 2^63) ∧ ev.latencyNs < 2^64 ∧ ev.tsNs < 2^64
  | .io ev => (ev.kind = EventKind.sockIo.toU8 ∨ ev.kind = EventKind.tlsIo.toU8) ∧ ev.Fits ∧
      zeroTail ev.prefixBuf ev.prefixLen = ev.prefixBuf
  | .times ev => ev.kind = EventKind.sockIoTimes.toU8 ∧ (-2^63 ≤ ev.ret ∧ ev.ret < 2^63) ∧
      ev.tsNs < 2^64
  | .handshake ev => ev.kind = EventKind.tlsHandshake.toU8 ∧ (-2^63 ≤ ev.ret ∧ ev.ret < 2^63) ∧
      ev.latencyNs < 2^64 ∧ ev.tsNs < 2^64

theorem SockLatencyEvent.read_record {ev : SockLatencyEvent} (hret : -2^63 ≤ ev.ret ∧ ev.ret < 2^63)
    (hlatency : ev.latencyNs < 2^64) (hts : ev.tsNs < 2^64) : read ev.record = ev := by
  have hr : (ev.ret % 2^64).toNat < 256^8 := by omega
  have hfields : field ev.record 0 1 = ev.kind.toNat ∧ field ev.record 8 4 = ev.pid.toNat ∧
      field ev.record 12 4 = ev.tgid.toNat ∧ field ev.record 16 8 = (ev.ret % 2^64).toNat ∧
      field ev.record 24 8 = ev.latencyNs ∧ field ev.record 32 8 = ev.tsNs ∧
      field ev.record 40 4 = ev.daddrBe.toNat ∧ field ev.record 44 2 = ev.dportBe.toNat := by
    simp only [record]
    refine ⟨?_,?_,?_,?_,?_,?_,?_,?_⟩
    all_goals repeat rw [field_skip _ _ _ (by omega)]
    · exact field_here _ ev.kind.toNat_lt
    · exact field_here _ ev.pid.toNat_lt
    · exact field_here _ ev.tgid.toNat_lt
    · exact field_here _ hr
    · exact field_here _ hlatency
    · exact field_here _ hts
    · exact field_here _ ev.daddrBe.toNat_lt
    · exact field_here _ ev.dportBe.toNat_lt
  obtain ⟨hkind,hpid,htgid,hret',hlat,ht,haddr,hport⟩ := hfields
  rw [read,hkind,hpid,htgid,hret',hlat,ht,haddr,hport,i64_emod hret]
  simp

theorem SockIoTimesEvent.read_record {ev : SockIoTimesEvent} (hret : -2^63 ≤ ev.ret ∧ ev.ret < 2^63)
    (hts : ev.tsNs < 2^64) : read ev.record = ev := by
  have hr : (ev.ret % 2^64).toNat < 256^8 := by omega
  have hfields : field ev.record 0 1 = ev.kind.toNat ∧ field ev.record 1 1 = ev.dir.toNat ∧
      field ev.record 4 4 = ev.fd.toUInt32.toNat ∧ field ev.record 8 4 = ev.pid.toNat ∧
      field ev.record 12 4 = ev.tgid.toNat ∧ field ev.record 16 8 = (ev.ret % 2^64).toNat ∧
      field ev.record 24 8 = ev.tsNs := by
    simp only [record]
    refine ⟨?_,?_,?_,?_,?_,?_,?_⟩
    all_goals repeat rw [field_skip _ _ _ (by omega)]
    · exact field_here _ ev.kind.toNat_lt
    · exact field_here _ ev.dir.toNat_lt
    · exact field_here _ ev.fd.toUInt32.toNat_lt
    · exact field_here _ ev.pid.toNat_lt
    · exact field_here _ ev.tgid.toNat_lt
    · exact field_here _ hr
    · simpa only [List.append_nil] using field_here [] hts
  obtain ⟨hkind,hdir,hfd,hpid,htgid,hret',ht⟩ := hfields
  rw [read,hkind,hdir,hfd,hpid,htgid,hret',ht,i64_emod hret]
  simp

theorem TlsHandshakeEvent.read_record {ev : TlsHandshakeEvent}
    (hret : -2^63 ≤ ev.ret ∧ ev.ret < 2^63) (hlatency : ev.latencyNs < 2^64) (hts : ev.tsNs < 2^64) :
    read ev.record = ev := by
  have hr : (ev.ret % 2^64).toNat < 256^8 := by omega
  have hfields : field ev.record 0 1 = ev.kind.toNat ∧ field ev.record 8 4 = ev.pid.toNat ∧
      field ev.record 12 4 = ev.tgid.toNat ∧ field ev.record 16 4 = ev.fd.toUInt32.toNat ∧
      field ev.record 24 8 = (ev.ret % 2^64).toNat ∧ field ev.record 32 8 = ev.latencyNs ∧
      field ev.record 40 8 = ev.tsNs := by
    simp only [record]
    refine ⟨?_,?_,?_,?_,?_,?_,?_⟩
    all_goals repeat rw [field_skip _ _ _ (by omega)]
    · exact field_here _ ev.kind.toNat_lt
    · exact field_here _ ev.pid.toNat_lt
    · exact field_here _ ev.tgid.toNat_lt
    · exact field_here _ ev.fd.toUInt32.toNat_lt
    · exact field_here _ hr
    · exact field_here _ hlatency
    · simpa only [List.append_nil] using field_here [] hts
  obtain ⟨hkind,hpid,htgid,hfd,hret',hlat,ht⟩ := hfields
  rw [read,hkind,hpid,htgid,hfd,hret',hlat,ht,i64_emod hret]
  simp

theorem SockLatencyEvent.record_head (ev : SockLatencyEvent) : ev.record.head? = some ev.kind := by
  simp [record,toBytes]

theorem SockIoTimesEvent.record_head (ev : SockIoTimesEvent) : ev.record.head? = some ev.kind := by
  simp [record,toBytes]

theorem TlsHandshakeEvent.record_head (ev : TlsHandshakeEvent) : ev.record.head? = some ev.kind := by
  simp [record,toBytes]

theorem SockLatencyEvent.record_length (ev : SockLatencyEvent) :
    ev.record.length = sockLatencyEventSize := by
  simp [record,sockLatencyEventSize]

theorem SockIoTimesEvent.record_length (ev : SockIoTimesEvent) :
    ev.record.length = sockIoTimesEventSize := by
  simp [record,sockIoTimesEventSize]

theorem TlsHandshakeEvent.record_length (ev : TlsHandshakeEvent) :
    ev.record.length = tlsHandshakeEventSize := by
  simp [record,tlsHandshakeEventSize]

theorem decodeEvent_latency {ev : SockLatencyEvent} {kind : EventKind}
    (hkind : kind = .connect ∨ kind = .accept) (heq : ev.kind = kind.toU8)
    (hret : -2^63 ≤ ev.ret ∧ ev.ret < 2^63) (hlatency : ev.latencyNs < 2^64) (hts : ev.tsNs < 2^64) :
    decodeEvent ev.record = some (.latency ev) := by
  have hlen := ev.record_length
  unfold decodeEvent
  rw [ev.record_head,heq]
  rcases hkind with rfl | rfl
  · simp [SockLatencyEvent.read_record hret hlatency hts,hlen,heq]
  · simp [SockLatencyEvent.read_record hret hlatency hts,hlen,heq]

/-- A record of a known kind passes the demux as what it is. -/
theorem decodeEvent_record {r : RingEvent} (h : r.Proper) :
    decodeEvent r.record = some r.decoded := by
  cases r with
  | latency ev =>
    obtain ⟨hkind | hkind,hret,hlatency,hts⟩ := h
    · exact decodeEvent_latency (.inl rfl) hkind hret hlatency hts
    · exact decodeEvent_latency (.inr rfl) hkind hret hlatency hts
  | io ev =>
    obtain ⟨hkind,hfits,htail⟩ := h
    change decodeEvent ev.record = _
    have hhead : ev.record.head? = some ev.kind := by simpa using ev.record_head []
    unfold decodeEvent
    rw [hhead]
    rcases hkind with hkind | hkind
    · have hio : decodeIo ev.record .sockIo = some ev := by
        simpa using decodeIo_record hfits hkind htail []
      have hne : ev.kind ≠ EventKind.tlsIo.toU8 := by rw [hkind]; decide
      rw [RingEvent.decoded,if_neg hne]
      simp [hkind,hio]
    · have hio : decodeIo ev.record .tlsIo = some ev := by
        simpa using decodeIo_record hfits hkind htail []
      simp [hkind,hio,RingEvent.decoded]
  | times ev =>
    obtain ⟨hkind,hret,hts⟩ := h
    have hlen := ev.record_length
    change decodeEvent ev.record = some (.sockIoTimes ev)
    unfold decodeEvent
    rw [ev.record_head,hkind]
    simp [SockIoTimesEvent.read_record hret hts,hlen,hkind]
  | handshake ev =>
    obtain ⟨hkind,hret,hlatency,hts⟩ := h
    have hlen := ev.record_length
    change decodeEvent ev.record = some (.tlsHandshake ev)
    unfold decodeEvent
    rw [ev.record_head,hkind]
    simp [TlsHandshakeEvent.read_record hret hlatency hts,hlen,hkind]

def Kernel.ProbeKind.ret : ProbeKind → ℤ
  | .exitConnect ret | .exitAccept4 ret | .exitIo ret => ret
  | _ => 0

/-- The clock, the id of the control group and the result of a call have 64 bits. -/
def Kernel.KernelStep.InRange : KernelStep → Prop
  | .fire c _ probe => c.tsNs < 2^64 ∧ c.cgroupId < 2^64 ∧ -2^63 ≤ probe.ret ∧ probe.ret < 2^63
  | .clearInflight _ _ => True

namespace Kernel

theorem ProbeMaps.emit_proper {m : ProbeMaps} {c : Caller} {kind : EventKind} {ret : ℤ}
    {latencyNs : ℕ} {daddrBe : UInt32} {dportBe : UInt16} {r : RingEvent}
    (hr : r ∈ (m.emit c kind ret latencyNs daddrBe dportBe).2)
    (hkind : kind = .connect ∨ kind = .accept) (hret : -2^63 ≤ ret ∧ ret < 2^63)
    (hlatency : latencyNs ≤ c.tsNs) (hts : c.tsNs < 2^64) : r.Proper := by
  rw [(m.emit_submits c kind ret latencyNs daddrBe dportBe).records] at hr
  split_ifs at hr
  · rw [List.mem_singleton.mp hr]
    refine ⟨?_,hret,lt_of_le_of_lt hlatency hts,hts⟩
    rcases hkind with rfl | rfl
    · exact .inl rfl
    · exact .inr rfl
  · cases hr
  · cases hr

theorem emitIoKind_proper {maps : IoMaps} {c : Caller} {kind : EventKind} {pending : PendingIo}
    {ret : ℤ} {ev : SockIoEvent} (h : (emitIoKind maps c kind pending ret).2 = some ev)
    (hkind : kind = .sockIo ∨ kind = .tlsIo) (hret : -2^63 ≤ ret ∧ ret < 2^63)
    (hts : c.tsNs < 2^64) (hcgroup : c.cgroupId < 2^64) : (RingEvent.io ev).Proper := by
  obtain ⟨-,raw,-,rfl⟩ := emitIoKind_some h
  refine ⟨?_,⟨ioCopyLen_le ret _,hret,hts,hcgroup⟩,zeroTail_zeroTail raw _⟩
  rcases hkind with rfl | rfl
  · exact .inl rfl
  · exact .inr rfl

theorem int64_range (x : Int64) : -2^63 ≤ x.toInt ∧ x.toInt < 2^63 :=
  ⟨x.le_toInt,x.toInt_lt⟩

theorem movedOctets_range (c : Caller) (p : PendingTls) (rax : UInt64) :
    -2^63 ≤ Maps.movedOctets c p rax ∧ Maps.movedOctets c p rax < 2^63 := by
  unfold Maps.movedOctets
  split
  · exact int64_range _
  · split
    · norm_num
    · split
      · exact int64_range _
      · norm_num

theorem ProbeMaps.fire_proper {m : ProbeMaps} {c : Caller} {room : Room} {probe : ProbeKind}
    {r : RingEvent} (hr : r ∈ (m.fire c room probe).2)
    (he : (KernelStep.fire c room probe).InRange) : r.Proper := by
  obtain ⟨hts,hcgroup,hret⟩ := he
  cases probe with
  | exitConnect ret =>
    simp only [fire,tryExitKind] at hr
    split at hr
    · cases hr
    · exact emit_proper hr (.inl rfl) hret (Nat.sub_le _ _) hts
  | exitAccept4 ret =>
    simp only [fire,tryExitAccept4] at hr
    split at hr
    · cases hr
    · exact emit_proper hr (.inr rfl) hret (Nat.sub_le _ _) hts
  | exitIo ret =>
    obtain ⟨p,m',-,hrecord⟩ := tryExitIo_record hr
    split_ifs at hrecord
    · rw [(emitTimes_record hrecord).2.2]
      exact ⟨rfl,hret,hts⟩
    · obtain ⟨ev,hev,rfl⟩ := List.mem_map.mp hrecord
      exact emitIoKind_proper (Option.mem_toList.mp hev) (.inl rfl) hret hts hcgroup
  | exitSslIo isEx rax =>
    obtain ⟨ev,hev,rfl⟩ := List.mem_map.mp hr
    have hexit := Option.mem_toList.mp hev
    unfold Maps.tryExitSslPending at hexit
    split at hexit
    · cases hexit
    · dsimp only at hexit
      split at hexit
      · cases hexit
      · exact emitIoKind_proper hexit (.inr rfl) (movedOctets_range c _ rax) hts hcgroup
  | exitSslDoHandshake ret =>
    obtain ⟨ssl,start,fd,-,-,-,-,-,rfl⟩ := tryExitSslDoHandshake_record hr
    exact ⟨rfl,by norm_num,by dsimp only; omega,hts⟩
  | _ => cases hr

end Kernel

/-- Every record that a run of the kernel program submits is decoded by the agent, as the event that
was submitted and in this order. -/
theorem ring_records_decode (es : List KernelStep) (hes : ∀ e ∈ es, e.InRange) :
    (Machine.outputs ProbeMaps.step .start es).map (fun r => decodeEvent r.record) =
      (Machine.outputs ProbeMaps.step .start es).map fun r => some r.decoded := by
  have hproper : ∀ r ∈ Machine.outputs ProbeMaps.step .start es, r.Proper := by
    refine Machine.outputs_along ProbeMaps.step (I := fun _ => True)
      (P := fun _ e => e.InRange) (fun {s e} _ he => ⟨trivial,fun r hr => ?_⟩) trivial
      (Machine.along_of_forall ProbeMaps.step hes _)
    cases e with
    | fire c room probe => exact ProbeMaps.fire_proper hr he
    | clearInflight tgid fd => cases hr
  exact List.map_congr_left fun r hr => decodeEvent_record (hproper r hr)

/-- A connect and a request on it. -/
theorem ring_records_decode_request :
    let c := Kernel.plainCaller 7 11 300 Kernel.requestMemory
    let es := [.fire c .all (.enterConnect 3 64),.fire c .all (.exitConnect 0),
      .fire c .all (.enterIo 3 (.scalar 128) .write),.fire c .all (.exitIo 18)]
    (Machine.outputs ProbeMaps.step .start es).length = 2 ∧
      (Machine.outputs ProbeMaps.step .start es).map (fun r => decodeEvent r.record) =
        (Machine.outputs ProbeMaps.step .start es).map fun r => some r.decoded := by
  refine ⟨by decide +kernel,ring_records_decode _ ?_⟩
  simp [KernelStep.InRange,ProbeKind.ret,Kernel.plainCaller]

end ObsAgent
