import ObsAgent.Capture
import ObsAgent.LittleEndian

/-! The octets of a ring record: the layout that the kernel writes and the demux that the agent
reads it with. -/
namespace ObsAgent

open LittleEndian
open Kernel (EventKind zeroTail zeroTail_toList)

def Kernel.EventKind.fromU8 (v : UInt8) : Option EventKind :=
  if v = 1 then some .connect else if v = 2 then some .accept else if v = 3 then some .sockIo
  else if v = 4 then some .tlsIo else if v = 5 then some .sockIoTimes
  else if v = 6 then some .tlsHandshake else if v = 7 then some .stackSample else none

@[simp] theorem Kernel.EventKind.fromU8_toU8 (kind : EventKind) :
    EventKind.fromU8 kind.toU8 = some kind := by
  cases kind <;> rfl

def i64 (n : ℕ) : ℤ := Int.bmod n (2^64)

structure SockLatencyEvent where
  kind : UInt8
  pid : UInt32
  tgid : UInt32
  ret : ℤ
  latencyNs : ℕ
  tsNs : ℕ
  daddrBe : UInt32
  dportBe : UInt16
  deriving DecidableEq

structure SockIoTimesEvent where
  kind : UInt8
  dir : UInt8
  fd : Int32
  pid : UInt32
  tgid : UInt32
  ret : ℤ
  tsNs : ℕ
  deriving DecidableEq

structure TlsHandshakeEvent where
  kind : UInt8
  pid : UInt32
  tgid : UInt32
  fd : Int32
  ret : ℤ
  latencyNs : ℕ
  tsNs : ℕ
  deriving DecidableEq

def sockLatencyEventSize : ℕ := 48
def sockIoEventSize : ℕ := 296
def sockIoTimesEventSize : ℕ := 32
def tlsHandshakeEventSize : ℕ := 48

def sockIoPrefixOff : ℕ := 40

def SockLatencyEvent.read (bytes : List UInt8) : SockLatencyEvent where
  kind := (field bytes 0 1).toUInt8
  pid := (field bytes 8 4).toUInt32
  tgid := (field bytes 12 4).toUInt32
  ret := i64 (field bytes 16 8)
  latencyNs := field bytes 24 8
  tsNs := field bytes 32 8
  daddrBe := (field bytes 40 4).toUInt32
  dportBe := (field bytes 44 2).toUInt16

/-- `read_unaligned` of the record. Its callers have checked the length. -/
def SockIoEvent.read (bytes : List UInt8) : SockIoEvent where
  kind := (field bytes 0 1).toUInt8
  dir := (field bytes 1 1).toUInt8
  prefixLen := field bytes 2 2
  fd := (field bytes 4 4).toUInt32.toInt32
  pid := (field bytes 8 4).toUInt32
  tgid := (field bytes 12 4).toUInt32
  ret := i64 (field bytes 16 8)
  tsNs := field bytes 24 8
  cgroupId := field bytes 32 8
  prefixBuf := fillPrefix (bytes.drop sockIoPrefixOff)

def SockIoTimesEvent.read (bytes : List UInt8) : SockIoTimesEvent where
  kind := (field bytes 0 1).toUInt8
  dir := (field bytes 1 1).toUInt8
  fd := (field bytes 4 4).toUInt32.toInt32
  pid := (field bytes 8 4).toUInt32
  tgid := (field bytes 12 4).toUInt32
  ret := i64 (field bytes 16 8)
  tsNs := field bytes 24 8

def TlsHandshakeEvent.read (bytes : List UInt8) : TlsHandshakeEvent where
  kind := (field bytes 0 1).toUInt8
  pid := (field bytes 8 4).toUInt32
  tgid := (field bytes 12 4).toUInt32
  fd := (field bytes 16 4).toUInt32.toInt32
  ret := i64 (field bytes 24 8)
  latencyNs := field bytes 32 8
  tsNs := field bytes 40 8

inductive DecodedEvent
  | latency (ev : SockLatencyEvent)
  | io (ev : SockIoEvent)
  | tlsIo (ev : SockIoEvent)
  | sockIoTimes (ev : SockIoTimesEvent)
  | tlsHandshake (ev : TlsHandshakeEvent)

def decodeIo (bytes : List UInt8) (expect : EventKind) : Option SockIoEvent :=
  if bytes.length < sockIoEventSize then none
  else
    let ev := SockIoEvent.read bytes
    if ev.kind ≠ expect.toU8 then none
    else
      let n := if ev.prefixLen > sockIoPrefixLen then sockIoPrefixLen else ev.prefixLen
      some {ev with prefixLen := n, prefixBuf := zeroTail ev.prefixBuf n}

def decodeEvent (bytes : List UInt8) : Option DecodedEvent := do
  let kind ← EventKind.fromU8 (← bytes.head?)
  match kind with
  | .connect | .accept =>
    if bytes.length < sockLatencyEventSize then none
    else
      let ev := SockLatencyEvent.read bytes
      if ev.kind ≠ kind.toU8 then none else some (.latency ev)
  | .sockIo => (decodeIo bytes .sockIo).map .io
  | .tlsIo => (decodeIo bytes .tlsIo).map .tlsIo
  | .sockIoTimes =>
    if bytes.length < sockIoTimesEventSize then none
    else
      let ev := SockIoTimesEvent.read bytes
      if ev.kind ≠ kind.toU8 then none else some (.sockIoTimes ev)
  | .tlsHandshake =>
    if bytes.length < tlsHandshakeEventSize then none
    else
      let ev := TlsHandshakeEvent.read bytes
      if ev.kind ≠ kind.toU8 then none else some (.tlsHandshake ev)
  | .stackSample => none

/-- The payload of an event that carries one. -/
def DecodedEvent.io? : DecodedEvent → Option SockIoEvent
  | .io ev | .tlsIo ev => some ev
  | _ => none

/-- The 296 octets that the kernel submits for an event. -/
def SockIoEvent.record (ev : SockIoEvent) : List UInt8 :=
  toBytes 1 ev.kind.toNat ++ (toBytes 1 ev.dir.toNat ++ (toBytes 2 ev.prefixLen ++
    (toBytes 4 ev.fd.toUInt32.toNat ++ (toBytes 4 ev.pid.toNat ++ (toBytes 4 ev.tgid.toNat ++
      (toBytes 8 (ev.ret % 2^64).toNat ++ (toBytes 8 ev.tsNs ++ (toBytes 8 ev.cgroupId ++
        ev.prefixBuf.toList))))))))

/-- An event whose numbers fit the fields of its record. -/
structure SockIoEvent.Fits (ev : SockIoEvent) : Prop where
  prefixLen : ev.prefixLen ≤ sockIoPrefixLen
  ret : -2^63 ≤ ev.ret ∧ ev.ret < 2^63
  tsNs : ev.tsNs < 2^64
  cgroupId : ev.cgroupId < 2^64

theorem i64_emod {r : ℤ} (h : -2^63 ≤ r ∧ r < 2^63) : i64 (r % 2^64).toNat = r := by
  have hnonneg : 0 ≤ r % 2^64 := Int.emod_nonneg r (by norm_num)
  have hcast : ((2^64 : ℕ) : ℤ) = 2^64 := by norm_num
  unfold i64
  rw [Int.toNat_of_nonneg hnonneg,← hcast,Int.emod_bmod]
  apply Int.bmod_eq_of_le
  · rw [hcast]
    omega
  · rw [hcast]
    omega

theorem SockIoEvent.record_length (ev : SockIoEvent) : ev.record.length = sockIoEventSize := by
  have hbuf : ev.prefixBuf.toList.length = 256 := ev.prefixBuf.toList_length
  simp only [record,List.length_append,toBytes_length,hbuf,sockIoEventSize]

theorem SockIoEvent.record_drop (ev : SockIoEvent) (rest : List UInt8) :
    (ev.record ++ rest).drop sockIoPrefixOff = ev.prefixBuf.toList ++ rest := by
  simp only [record,List.append_assoc,sockIoPrefixOff]
  repeat rw [drop_skip _ _ _ (by omega)]
  rfl

theorem SockIoEvent.record_head (ev : SockIoEvent) (rest : List UInt8) :
    (ev.record ++ rest).head? = some ev.kind := by
  simp [record,toBytes]

theorem fillPrefix_toList_append (buf : PrefixBuf) (rest : List UInt8) :
    fillPrefix (buf.toList ++ rest) = buf := by
  have hlen : buf.toList.length = sockIoPrefixLen := buf.toList_length
  apply List.Vector.toList_injective
  have hzero : sockIoPrefixLen - (buf.toList ++ rest).length = 0 := by
    rw [List.length_append,hlen]
    omega
  change (buf.toList ++ rest).take sockIoPrefixLen ++ List.replicate _ 0 = buf.toList
  rw [hzero,List.replicate_zero,List.append_nil,List.take_append_of_le_length hlen.ge,
    List.take_of_length_le hlen.le]

theorem SockIoEvent.read_record {ev : SockIoEvent} (h : ev.Fits) (rest : List UInt8) :
    SockIoEvent.read (ev.record ++ rest) = ev := by
  have hlen : ev.prefixLen < 256^2 := lt_of_le_of_lt h.prefixLen (by decide)
  have hret : (ev.ret % 2^64).toNat < 256^8 := by omega
  have hts : ev.tsNs < 256^8 := h.tsNs
  have hcgroup : ev.cgroupId < 256^8 := h.cgroupId
  have hbuf : fillPrefix ((ev.record ++ rest).drop sockIoPrefixOff) = ev.prefixBuf := by
    rw [record_drop,fillPrefix_toList_append]
  have hfields : field (ev.record ++ rest) 0 1 = ev.kind.toNat ∧
      field (ev.record ++ rest) 1 1 = ev.dir.toNat ∧
      field (ev.record ++ rest) 2 2 = ev.prefixLen ∧
      field (ev.record ++ rest) 4 4 = ev.fd.toUInt32.toNat ∧
      field (ev.record ++ rest) 8 4 = ev.pid.toNat ∧
      field (ev.record ++ rest) 12 4 = ev.tgid.toNat ∧
      field (ev.record ++ rest) 16 8 = (ev.ret % 2^64).toNat ∧
      field (ev.record ++ rest) 24 8 = ev.tsNs ∧ field (ev.record ++ rest) 32 8 = ev.cgroupId := by
    simp only [record,List.append_assoc]
    refine ⟨?_,?_,?_,?_,?_,?_,?_,?_,?_⟩
    all_goals repeat rw [field_skip _ _ _ (by omega)]
    · exact field_here _ ev.kind.toNat_lt
    · exact field_here _ ev.dir.toNat_lt
    · exact field_here _ hlen
    · exact field_here _ ev.fd.toUInt32.toNat_lt
    · exact field_here _ ev.pid.toNat_lt
    · exact field_here _ ev.tgid.toNat_lt
    · exact field_here _ hret
    · exact field_here _ hts
    · exact field_here _ hcgroup
  obtain ⟨hkind,hdir,hplen,hfd,hpid,htgid,hr,ht,hc⟩ := hfields
  rw [read,hbuf,hkind,hdir,hplen,hfd,hpid,htgid,hr,ht,hc,i64_emod h.ret]
  simp

/-- An event of the kernel, with its tail cleared, passes the demux as it is. -/
theorem decodeIo_record {ev : SockIoEvent} {expect : EventKind} (h : ev.Fits)
    (hkind : ev.kind = expect.toU8) (htail : zeroTail ev.prefixBuf ev.prefixLen = ev.prefixBuf)
    (rest : List UInt8) : decodeIo (ev.record ++ rest) expect = some ev := by
  have hsize : ¬ (ev.record ++ rest).length < sockIoEventSize := by
    rw [List.length_append,ev.record_length]
    omega
  have hlen : ¬ ev.prefixLen > sockIoPrefixLen := Nat.not_lt.mpr h.prefixLen
  rw [decodeIo,if_neg hsize,SockIoEvent.read_record h rest]
  simp only [hkind,ne_eq,not_true_eq_false,if_false,if_neg hlen,htail]
  rw [← hkind]

theorem clamp_eq_min (n : ℕ) :
    (if n > sockIoPrefixLen then sockIoPrefixLen else n) = min n sockIoPrefixLen := by
  rw [Nat.min_def]
  split_ifs <;> omega

theorem sockIoPrefixLen_le_drop {bytes : List UInt8} (h : sockIoEventSize ≤ bytes.length) :
    sockIoPrefixLen ≤ (bytes.drop sockIoPrefixOff).length := by
  rw [List.length_drop]
  simp only [sockIoEventSize,sockIoPrefixOff,sockIoPrefixLen] at *
  omega

/-- What is decoded of a payload record: the octets behind the valid ones do not get through. -/
theorem decodeIo_some {bytes : List UInt8} {expect : EventKind} {ev : SockIoEvent}
    (h : decodeIo bytes expect = some ev) : ev.prefixLen = min (field bytes 2 2) sockIoPrefixLen ∧
      ev.prefixBuf.toList = (bytes.drop sockIoPrefixOff).take ev.prefixLen ++
        List.replicate (sockIoPrefixLen - ev.prefixLen) 0 := by
  have hplen : (SockIoEvent.read bytes).prefixLen = field bytes 2 2 := rfl
  simp only [decodeIo,hplen,clamp_eq_min] at h
  split_ifs at h with hshort
  simp only [Option.some.injEq] at h
  subst h
  have hlen := sockIoPrefixLen_le_drop (Nat.le_of_not_lt hshort)
  refine ⟨rfl,?_⟩
  rw [zeroTail_toList,SockIoEvent.read,
    take_fillPrefix _ (le_trans (Nat.min_le_right _ _) hlen) (Nat.min_le_right _ _)]

end ObsAgent
