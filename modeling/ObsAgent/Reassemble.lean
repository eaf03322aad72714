import ObsAgent.Common
import ObsAgent.FiniteMap

/-! Reassembly of split HTTP/1.1 headers, per socket and direction. -/
namespace ObsAgent
namespace Http1

def cap : ℕ := 8*1024

structure BufKey where
  tgid : UInt32
  fd : Int32
  dir : UInt8
  deriving DecidableEq

structure Buf where
  bytes : List UInt8
  firstTs : ℕ
  lastTs : ℕ
  atTime : Instant
  pid : UInt32
  kind : UInt8

structure Reassembler where
  bufs : FiniteMap BufKey Buf
  unmark : List (UInt32 × Int32)

def isHttpStart (b : List UInt8) : Bool := httpMagic b (min b.length (2^16 - 1))

def crlfcrlf : List UInt8 := octets "\r\n\r\n"

/-- Some window of four octets is the end of a header. -/
def headersDone (buf : List UInt8) : Bool := buf.tails.any fun w => startsWith w crlfcrlf

def synthetic (ev : SockIoEvent) (bytes : List UInt8) (tsNs : ℕ) : SockIoEvent :=
  let n := min bytes.length sockIoPrefixLen
  {ev with prefixLen := n, ret := n, tsNs := tsNs, prefixBuf := fillPrefix bytes}

def flush (ev : SockIoEvent) (buf : Buf) : SockIoEvent :=
  let ts := if startsWith buf.bytes (octets "HTTP/") then buf.lastTs else buf.firstTs
  synthetic {ev with kind := buf.kind, pid := buf.pid} buf.bytes ts

namespace Buf

def start (ev : SockIoEvent) (now : Instant) : Buf :=
  ⟨ev.chunk,ev.tsNs,ev.tsNs,now,ev.pid,ev.kind⟩

def extend (buf : Buf) (ev : SockIoEvent) (now : Instant) : Buf :=
  let room := cap - buf.bytes.length
  {buf with
    bytes := buf.bytes ++ ev.chunk.take (min ev.chunk.length room)
    lastTs := ev.tsNs
    atTime := now}

@[simp] theorem start_bytes (ev : SockIoEvent) (now : Instant) : (start ev now).bytes = ev.chunk := rfl

@[simp] theorem start_firstTs (ev : SockIoEvent) (now : Instant) :
    (start ev now).firstTs = ev.tsNs := rfl

@[simp] theorem start_lastTs (ev : SockIoEvent) (now : Instant) :
    (start ev now).lastTs = ev.tsNs := rfl

@[simp] theorem extend_lastTs (buf : Buf) (ev : SockIoEvent) (now : Instant) :
    (buf.extend ev now).lastTs = ev.tsNs := rfl

def complete (buf : Buf) : Bool := headersDone buf.bytes || cap ≤ buf.bytes.length

end Buf

namespace Reassembler

def default : Reassembler := ⟨∅,[]⟩

def evictStale (r : Reassembler) (now : Instant) : Reassembler :=
  let keep := fun (_ : BufKey) (b : Buf) => decide (durationSince now b.atTime ≤ timeout)
  { bufs := r.bufs.retain keep
    unmark := r.unmark ++ (r.bufs.rejected keep).map fun k => (k.tgid,k.fd) }

def takeUnmark (r : Reassembler) : Reassembler × List (UInt32 × Int32) :=
  ({r with unmark := []},r.unmark)

def push (r : Reassembler) (ev : SockIoEvent) (now : Instant) :
    Reassembler × Option SockIoEvent :=
  let r := r.evictStale now
  match IoDir.fromU8 ev.dir with
  | none => (r,none)
  | some dir =>
    if ev.ret < 0 ∨ ev.plen = 0 then (r,none)
    else
      let key : BufKey := ⟨ev.tgid,ev.fd,dir.toU8⟩
      let rest := r.bufs.remove key
      match r.bufs.get key with
      | none =>
        if ¬ isHttpStart ev.chunk then ({r with bufs := rest},none)
        else if (Buf.start ev now).complete then
          ({r with bufs := rest},some (synthetic ev ev.chunk ev.tsNs))
        else ({r with bufs := rest.put key (Buf.start ev now)},none)
      | some buf =>
        let buf := buf.extend ev now
        if buf.complete then ({r with bufs := rest},some (flush ev buf))
        else ({r with bufs := rest.put key buf},none)

end Reassembler

theorem headersDone_iff {buf : List UInt8} : headersDone buf = true ↔ crlfcrlf <:+: buf := by
  simp only [headersDone,List.any_eq_true,List.mem_tails,startsWith_iff]
  constructor
  · rintro ⟨w,hs,hp⟩
    exact hp.isInfix.trans hs.isInfix
  · rintro ⟨front,back,rfl⟩
    refine ⟨crlfcrlf ++ back,⟨front,by simp⟩,List.prefix_append _ _⟩

theorem headersDone_leads {buf longer : List UInt8} (h : headersDone buf = true)
    (hl : buf <+: longer) : headersDone longer = true :=
  headersDone_iff.mpr ((headersDone_iff.mp h).trans hl.isInfix)

theorem bytes_extend {buf : Buf} {sofar : List UInt8} (h : buf.bytes = sofar.take cap)
    (ev : SockIoEvent) (now : Instant) :
    (buf.extend ev now).bytes = (sofar ++ ev.chunk).take cap := by
  have hroom : ev.chunk.take (min ev.chunk.length (cap - buf.bytes.length)) =
      ev.chunk.take (cap - buf.bytes.length) := by
    rw [Nat.min_comm,← List.take_take,List.take_length]
  simp only [Buf.extend]
  rw [hroom,h,List.take_append,List.length_take,
    show cap - min cap sofar.length = cap - sofar.length by omega]

theorem flush_start (ev : SockIoEvent) (now : Instant) :
    flush ev (Buf.start ev now) = synthetic ev ev.chunk ev.tsNs := by
  simp only [flush,Buf.start_firstTs,Buf.start_lastTs,ite_self]
  rfl

theorem synthetic_chunk (ev : SockIoEvent) (bytes : List UInt8) (ts : ℕ) :
    (synthetic ev bytes ts).chunk = bytes.take sockIoPrefixLen := by
  have hplen : (synthetic ev bytes ts).plen = min bytes.length sockIoPrefixLen := by
    simp [SockIoEvent.plen,synthetic]
  rw [SockIoEvent.chunk,hplen]
  simp only [synthetic]
  rw [take_fillPrefix _ (Nat.min_le_left _ _) (Nat.min_le_right _ _),Nat.min_comm,← List.take_take,
    List.take_length]

/-- The buffer behind a chunk, and what is handed on. -/
def absorb (ev : SockIoEvent) (now : Instant) : Option Buf → Option Buf × Option SockIoEvent
  | none =>
    if ¬ isHttpStart ev.chunk then (none,none)
    else if (Buf.start ev now).complete then (none,some (flush ev (Buf.start ev now)))
    else (some (Buf.start ev now),none)
  | some buf =>
    if (buf.extend ev now).complete then (none,some (flush ev (buf.extend ev now)))
    else (some (buf.extend ev now),none)

namespace Reassembler

/-- The buffer of a socket and direction at an instant, stale ones left out. -/
def buffered (r : Reassembler) (k : BufKey) (now : Instant) : Option Buf :=
  (r.bufs.get k).filter fun b => durationSince now b.atTime ≤ timeout

@[simp] theorem get_evictStale (r : Reassembler) (now : Instant) (k : BufKey) :
    (r.evictStale now).bufs.get k = r.buffered k now := by
  simp only [evictStale,buffered,FiniteMap.get_retain]

section

variable (r : Reassembler) {ev : SockIoEvent} (now : Instant) {dir : IoDir}

theorem push_self (hdir : IoDir.fromU8 ev.dir = some dir) (hret : 0 ≤ ev.ret)
    (hlen : ev.plen ≠ 0) :
    ((r.push ev now).1.bufs.get ⟨ev.tgid,ev.fd,dir.toU8⟩,(r.push ev now).2) =
      absorb ev now (r.buffered ⟨ev.tgid,ev.fd,dir.toU8⟩ now) := by
  have hgo : ¬ (ev.ret < 0 ∨ ev.plen = 0) := by omega
  simp only [push,hdir,if_neg hgo,get_evictStale]
  cases r.buffered ⟨ev.tgid,ev.fd,dir.toU8⟩ now with
  | none =>
    simp only [absorb,flush_start]
    split_ifs <;> simp
  | some buf =>
    simp only [absorb]
    split_ifs <;> simp

theorem push_other (hdir : IoDir.fromU8 ev.dir = some dir) {k : BufKey}
    (hk : k ≠ ⟨ev.tgid,ev.fd,dir.toU8⟩) :
    (r.push ev now).1.bufs.get k = r.buffered k now := by
  simp only [push,hdir]
  by_cases hgo : ev.ret < 0 ∨ ev.plen = 0
  · simp [hgo]
  · simp only [if_neg hgo]
    split <;> split_ifs <;> simp [FiniteMap.get_put,FiniteMap.get_remove,hk]

end

end Reassembler

end Http1
end ObsAgent
