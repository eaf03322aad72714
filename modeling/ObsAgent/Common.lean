import Mathlib.Data.Vector.Basic
import Mathlib.Tactic

/-! The kernel/userspace event record and the capture bound shared by every
consumer of socket I/O. -/
namespace ObsAgent

def octets (s : String) : List UInt8 := s.toUTF8.data.toList

def startsWith (s token : List UInt8) : Bool := token.isPrefixOf s

theorem startsWith_iff {s token : List UInt8} : startsWith s token = true ↔ token <+: s :=
  List.isPrefixOf_iff_prefix

theorem startsWith_self (token rest : List UInt8) : startsWith (token ++ rest) token = true :=
  startsWith_iff.mpr ⟨rest,rfl⟩

theorem startsWith_append {s token : List UInt8} (h : startsWith s token = true)
    (rest : List UInt8) : startsWith (s ++ rest) token = true :=
  startsWith_iff.mpr ((startsWith_iff.mp h).trans (List.prefix_append s rest))

theorem startsWith_take {s token : List UInt8} (h : startsWith s token = true) {n : ℕ}
    (hn : token.length ≤ n) : startsWith (s.take n) token = true := by
  rw [startsWith_iff] at h ⊢
  exact List.prefix_take_iff.mpr ⟨h,hn⟩

theorem take_eq_of_startsWith {s t u : List UInt8} (ht : startsWith s t = true)
    (hu : startsWith s u = true) (n : ℕ) (hnt : n ≤ t.length) (hnu : n ≤ u.length) :
    t.take n = u.take n := by
  rw [startsWith_iff,List.prefix_iff_eq_take] at ht hu
  rw [ht,hu,List.take_take,List.take_take,Nat.min_eq_left hnt,Nat.min_eq_left hnu]

inductive IoDir
  | read | write
  deriving DecidableEq, Repr

def IoDir.fromU8 (v : UInt8) : Option IoDir :=
  if v = 1 then some .read else if v = 2 then some .write else none

def IoDir.toU8 : IoDir → UInt8
  | .read => 1
  | .write => 2

def IoDir.flip : IoDir → IoDir
  | .read => .write
  | .write => .read

@[simp] theorem IoDir.fromU8_toU8 (d : IoDir) : IoDir.fromU8 d.toU8 = some d := by
  cases d <;> rfl

def sockIoPrefixLen : ℕ := 256

/-- Scalar writes have no first-buffer length of their own: `u32::MAX`. -/
def ioBufLenUnbounded : ℕ := 2^32 - 1

def ioCopyLen (ret : ℤ) (bufLen : ℕ) : ℕ :=
  if ret ≤ 0 ∨ bufLen = 0 then 0
  else
    let n := ret.toNat
    let n := if bufLen < n then bufLen else n
    if sockIoPrefixLen < n then sockIoPrefixLen else n

theorem ioCopyLen_unbounded (n : ℕ) : ioCopyLen n ioBufLenUnbounded = min n sockIoPrefixLen := by
  simp only [ioCopyLen,ioBufLenUnbounded,sockIoPrefixLen,Int.toNat_natCast,Nat.min_def]
  norm_num
  split_ifs <;> omega

/-- Method and space, response version, or the first octets of the HTTP/2 preface. -/
def httpMagic (src : List UInt8) (len : ℕ) : Bool :=
  let s := src.take (min len src.length)
  startsWith s (octets "GET ") || startsWith s (octets "POST ") || startsWith s (octets "PUT ") ||
    startsWith s (octets "HEAD ") || startsWith s (octets "DELETE ") ||
    startsWith s (octets "OPTIONS ") || startsWith s (octets "PATCH ") ||
    startsWith s (octets "HTTP/") || startsWith s (octets "PRI ")

/-- The fixed capture buffer of an event. -/
abbrev PrefixBuf := List.Vector UInt8 sockIoPrefixLen

/-- Copy at most 256 octets to the front of a zeroed buffer. -/
def fillPrefix (bytes : List UInt8) : PrefixBuf :=
  ⟨bytes.take sockIoPrefixLen ++ List.replicate (sockIoPrefixLen - bytes.length) 0,by
    simp only [List.length_append,List.length_take,List.length_replicate]; omega⟩

structure SockIoEvent where
  kind : UInt8
  dir : UInt8
  prefixLen : ℕ
  fd : Int32
  pid : UInt32
  tgid : UInt32
  ret : ℤ
  tsNs : ℕ
  cgroupId : ℕ
  prefixBuf : PrefixBuf
  deriving DecidableEq

/-- A socket for tests: descriptor 3 of process 42. -/
def someSocket : SockIoEvent := ⟨3,0,0,3,1,42,0,0,0,fillPrefix []⟩

namespace SockIoEvent

/-- Valid octets of the capture buffer, the `plen` of every consumer. -/
def plen (ev : SockIoEvent) : ℕ := min ev.prefixLen ev.prefixBuf.toList.length

def chunk (ev : SockIoEvent) : List UInt8 := ev.prefixBuf.toList.take ev.plen

@[simp] theorem chunk_length (ev : SockIoEvent) : ev.chunk.length = ev.plen := by
  simp [chunk,plen]

end SockIoEvent

theorem take_fillPrefix (bytes : List UInt8) {n : ℕ} (hn : n ≤ bytes.length)
    (hcap : n ≤ sockIoPrefixLen) : (fillPrefix bytes).toList.take n = bytes.take n := by
  simp only [fillPrefix,List.Vector.toList]
  rw [List.take_append_of_le_length (by simp; omega),List.take_take,Nat.min_eq_left hcap]

def SockIoEvent.moved (sock : SockIoEvent) (dir : IoDir) (bytes : List UInt8) (tsNs : ℕ) :
    SockIoEvent :=
  {sock with
    dir := dir.toU8
    ret := bytes.length
    prefixLen := ioCopyLen bytes.length ioBufLenUnbounded
    tsNs := tsNs
    prefixBuf := fillPrefix bytes}

theorem SockIoEvent.moved_chunk (sock : SockIoEvent) (dir : IoDir) (bytes : List UInt8) (ts : ℕ) :
    (sock.moved dir bytes ts).chunk = bytes.take sockIoPrefixLen := by
  have hplen : (sock.moved dir bytes ts).plen = min bytes.length sockIoPrefixLen := by
    simp [plen,moved,ioCopyLen_unbounded]
  rw [chunk,hplen]
  simp only [moved]
  rw [take_fillPrefix _ (Nat.min_le_left _ _) (Nat.min_le_right _ _),Nat.min_comm,← List.take_take,
    List.take_length]

/-- Nanoseconds on the monotonic clock. -/
abbrev Instant := ℕ

/-- `Instant::duration_since`, zero for a later start. -/
def durationSince (now earlier : Instant) : ℕ := now - earlier

def timeout : ℕ := 60 * 10^9

theorem filter_later {α : Type} {stamp : α → Instant} {now later : Instant} (hle : now ≤ later)
    (o : Option α) :
    (o.filter fun a => durationSince now (stamp a) ≤ timeout).filter
        (fun a => durationSince later (stamp a) ≤ timeout) =
      o.filter fun a => durationSince later (stamp a) ≤ timeout := by
  ext a
  simp only [Option.filter_eq_some_iff]
  constructor
  · rintro ⟨⟨ha,-⟩,hl⟩
    exact ⟨ha,hl⟩
  · rintro ⟨ha,hl⟩
    have hlate := of_decide_eq_true hl
    simp only [durationSince] at hlate
    exact ⟨⟨ha,decide_eq_true ((Nat.sub_le_sub_right hle _).trans hlate)⟩,hl⟩

end ObsAgent
