import ObsAgent.RingRecord

/-! What a ring record discloses of the caller's memory: the octets that the call moved, on the
kernel's side of the ring and on the agent's. -/
namespace ObsAgent

open LittleEndian
open Kernel

theorem zeroTail_prefixBuf_congr {mem mem' : UserMemory} {ptr : UInt64} {n : ℕ}
    (hn : n ≤ sockIoPrefixLen) (h : mem.bytes ptr n = mem'.bytes ptr n) :
    zeroTail (mem.prefixBuf ptr) n = zeroTail (mem'.prefixBuf ptr) n := by
  apply zeroTail_congr
  change (mem.bytes ptr sockIoPrefixLen).take n = (mem'.bytes ptr sockIoPrefixLen).take n
  rw [mem.bytes_take ptr hn,mem'.bytes_take ptr hn,h]

theorem emitIoKind_congr (maps : IoMaps) (c : Caller) (mem : UserMemory) (kind : EventKind)
    (pending : PendingIo) (ret : ℤ) (hread : c.mem.readable pending.bufPtr sockIoPrefixLen = true)
    (hread' : mem.readable pending.bufPtr sockIoPrefixLen = true)
    (hagree : c.mem.bytes pending.bufPtr (ioCopyLen ret pending.bufLen) =
      mem.bytes pending.bufPtr (ioCopyLen ret pending.bufLen)) :
    emitIoKind maps {c with mem := mem} kind pending ret = emitIoKind maps c kind pending ret := by
  have hbuf := zeroTail_prefixBuf_congr (ioCopyLen_le ret pending.bufLen) hagree
  simp only [emitIoKind,UserMemory.readPrefixBuf,hread,hread',if_true,hbuf]

theorem emitIoKind_tail {maps : IoMaps} {c : Caller} {kind : EventKind} {pending : PendingIo}
    {ret : ℤ} {ev : SockIoEvent} (h : (emitIoKind maps c kind pending ret).2 = some ev) :
    (ev.prefixLen : ℤ) ≤ min (min ret pending.bufLen) sockIoPrefixLen ∧
    ev.prefixBuf.toList.drop ev.prefixLen = List.replicate (sockIoPrefixLen - ev.prefixLen) 0 := by
  obtain ⟨hlen,raw,-,rfl⟩ := emitIoKind_some h
  have hle := ioCopyLen_le ret pending.bufLen
  refine ⟨ioCopyLen_le_min hlen,?_⟩
  have hraw : raw.toList.length = sockIoPrefixLen := raw.toList_length
  have hcut : (raw.toList.take (ioCopyLen ret pending.bufLen)).length =
      ioCopyLen ret pending.bufLen := by
    rw [List.length_take,hraw,Nat.min_eq_left hle]
  rw [zeroTail_toList]
  exact List.drop_left' hcut

theorem decodeEvent_io {bytes : List UInt8} {event : DecodedEvent} {ev : SockIoEvent}
    (h : decodeEvent bytes = some event) (hio : event.io? = some ev) :
    ∃ expect, decodeIo bytes expect = some ev := by
  simp only [decodeEvent,Option.bind_eq_bind,Option.bind_eq_some_iff] at h
  obtain ⟨b,-,kind,-,h⟩ := h
  cases kind with
  | sockIo =>
    obtain ⟨ev',hev,rfl⟩ := Option.map_eq_some_iff.mp h
    exact ⟨.sockIo,hev.trans hio⟩
  | tlsIo =>
    obtain ⟨ev',hev,rfl⟩ := Option.map_eq_some_iff.mp h
    exact ⟨.tlsIo,hev.trans hio⟩
  | connect | accept | sockIoTimes | tlsHandshake =>
    dsimp only at h
    split_ifs at h
    cases h
    cases hio
  | stackSample => cases h

def validOctets (record : List UInt8) : ℕ := min (field record 2 2) sockIoPrefixLen

theorem decodeEvent_octets {record : List UInt8} {event : DecodedEvent} {ev : SockIoEvent}
    (h : decodeEvent record = some event) (hio : event.io? = some ev) :
    ev.prefixBuf.toList = (record.drop sockIoPrefixOff).take (validOctets record) ++
      List.replicate (sockIoPrefixLen - validOctets record) 0 := by
  obtain ⟨expect,hdecode⟩ := decodeEvent_io h hio
  obtain ⟨hlen,hbuf⟩ := decodeIo_some hdecode
  rwa [hlen] at hbuf

/-- No octet behind those that a call moved leaves the kernel or survives the demux: two memories
with the same moved octets give the same maps and the same record, and two records with the same
valid octets give the same buffer. -/
theorem io_octets_confined :
    (∀ (maps : IoMaps) (c : Caller) (mem : UserMemory) (kind : EventKind) (pending : PendingIo)
        (ret : ℤ), c.mem.readable pending.bufPtr sockIoPrefixLen = true →
        mem.readable pending.bufPtr sockIoPrefixLen = true →
        c.mem.bytes pending.bufPtr (ioCopyLen ret pending.bufLen) =
          mem.bytes pending.bufPtr (ioCopyLen ret pending.bufLen) →
      emitIoKind maps {c with mem := mem} kind pending ret = emitIoKind maps c kind pending ret ∧
      ∀ ev, (emitIoKind maps c kind pending ret).2 = some ev →
        (ev.prefixLen : ℤ) ≤ min (min ret pending.bufLen) sockIoPrefixLen ∧
        ev.prefixBuf.toList.drop ev.prefixLen =
          List.replicate (sockIoPrefixLen - ev.prefixLen) 0) ∧
    ∀ (record record' : List UInt8) (event event' : DecodedEvent) (ev ev' : SockIoEvent),
      decodeEvent record = some event → event.io? = some ev →
      decodeEvent record' = some event' → event'.io? = some ev' →
      validOctets record = validOctets record' →
      (record.drop sockIoPrefixOff).take (validOctets record) =
        (record'.drop sockIoPrefixOff).take (validOctets record) →
      ev.prefixBuf = ev'.prefixBuf := by
  constructor
  · intro maps c mem kind pending ret hread hread' hagree
    exact ⟨emitIoKind_congr maps c mem kind pending ret hread hread' hagree,
      fun ev => emitIoKind_tail⟩
  · intro record record' event event' ev ev' h hio h' hio' hvalid hoctets
    apply List.Vector.toList_injective
    rw [decodeEvent_octets h hio,decodeEvent_octets h' hio',← hvalid,hoctets]

/-- A request line with something else behind it in the caller's memory. -/
def requestBefore (behind : UInt8) : UserMemory :=
  ⟨fun a => (octets "GET / HTTP/1.1").getD a.toNat behind,fun _ => true⟩

def requestWriter : Caller where
  tgid := 7
  filter := ⟨none,∅,∅⟩
  sampleN := none
  prandom := 0
  pid := 7
  tsNs := 1
  cgroupId := 0
  ringFree := true
  mem := requestBefore 0x53

def connectedSocket : IoMaps where
  sockMeta := markSockMeta ∅ requestWriter.toProbe 3 (SockMeta.withPeerV4 1 80)
  inflight := ∅
  drops := 0

/-- The same record whatever follows the request line, and a record there is. -/
theorem io_octets_confined_request :
    (requestBefore 0x53).byte 14 ≠ (requestBefore 0x54).byte 14 ∧
    (emitIoKind connectedSocket requestWriter .sockIo ⟨0,ioBufLenUnbounded,3,2⟩ 14).2.isSome ∧
    emitIoKind connectedSocket {requestWriter with mem := requestBefore 0x54} .sockIo
        ⟨0,ioBufLenUnbounded,3,2⟩ 14 =
      emitIoKind connectedSocket requestWriter .sockIo ⟨0,ioBufLenUnbounded,3,2⟩ 14 := by
  refine ⟨by decide +kernel,by decide +kernel,?_⟩
  exact (io_octets_confined.1 connectedSocket requestWriter (requestBefore 0x54) .sockIo
    ⟨0,ioBufLenUnbounded,3,2⟩ 14 (by decide +kernel) (by decide +kernel) (by decide +kernel)).1

end ObsAgent
