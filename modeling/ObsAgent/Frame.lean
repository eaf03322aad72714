import ObsAgent.Common

/-! HTTP/2 frame headers and the first-byte tests that decide whether a socket
carries HTTP/2. -/
namespace ObsAgent
namespace H2

def headerLen : ℕ := 9

def clientPreface : List UInt8 := octets "PRI * HTTP/2.0\r\n\r\nSM\r\n\r\n"

def typeData : UInt8 := 0x0
def typeHeaders : UInt8 := 0x1
def typeRstStream : UInt8 := 0x3
def typeSettings : UInt8 := 0x4
def typePing : UInt8 := 0x6
def typeGoaway : UInt8 := 0x7
def typeWindowUpdate : UInt8 := 0x8
def typeContinuation : UInt8 := 0x9

def flagEndHeaders : UInt8 := 0x4
def flagPadded : UInt8 := 0x8
def flagPriority : UInt8 := 0x20

structure FrameHeader where
  length : ℕ
  ty : UInt8
  flags : UInt8
  streamId : ℕ
  deriving DecidableEq, Repr

namespace FrameHeader

/-- Nine octets: 24-bit length, type, flags, 31-bit stream. -/
def parse (src : List UInt8) : Option FrameHeader :=
  if src.length < headerLen then none
  else
    let octet := fun i => (src.getD i 0).toNat
    some {
      length := octet 0*2^16 + octet 1*2^8 + octet 2
      ty := src.getD 3 0
      flags := src.getD 4 0
      streamId := (octet 5*2^24 + octet 6*2^16 + octet 7*2^8 + octet 8) % 2^31 }

def totalLen (h : FrameHeader) : ℕ := headerLen + h.length

theorem headerLen_le_totalLen (h : FrameHeader) : headerLen ≤ h.totalLen :=
  Nat.le_add_right _ _

theorem parse_eq_none {src : List UInt8} : parse src = none ↔ src.length < headerLen := by
  simp only [parse]
  split_ifs with h <;> simp [h]

theorem length_of_parse {src : List UInt8} {h : FrameHeader} (hp : parse src = some h) :
    headerLen ≤ src.length := by
  by_contra hlt
  rw [parse_eq_none.mpr (by omega)] at hp
  simp at hp

theorem parse_leads {src longer : List UInt8} (hl : src <+: longer)
    (hlen : headerLen ≤ src.length) : parse longer = parse src := by
  have hle := hl.length_le
  obtain ⟨rest,rfl⟩ := hl
  have hget : ∀ i < 9, (src ++ rest)[i]? = src[i]? := fun i hi =>
    List.getElem?_append_left (by simp only [headerLen] at hlen; omega)
  simp only [parse]
  rw [if_neg (by omega),if_neg (by omega)]
  simp [hget]

end FrameHeader

def looksLikePreface (b : List UInt8) : Bool :=
  if b = [] then false
  else if b.length ≥ clientPreface.length then startsWith b clientPreface
  else startsWith clientPreface b && startsWith b (octets "PRI")

def looksLikeFrame (b : List UInt8) : Bool :=
  match FrameHeader.parse b with
  | none => false
  | some h =>
    if h.length > 16*1024 then false
    else if h.ty = typeSettings ∨ h.ty = typePing ∨ h.ty = typeGoaway then h.streamId = 0
    else if h.ty = typeWindowUpdate then true
    else if h.ty = typeHeaders ∨ h.ty = typeRstStream ∨ h.ty = typeContinuation then
      h.streamId ≠ 0
    else false

def looksLikeH2 (b : List UInt8) : Bool := looksLikePreface b || looksLikeFrame b

theorem looksLikeH2_of_preface {b : List UInt8} (h : startsWith b clientPreface = true) :
    looksLikeH2 b = true := by
  have hlen : clientPreface.length ≤ b.length := (startsWith_iff.mp h).length_le
  have hpos : 0 < clientPreface.length := by decide +kernel
  have hne : b ≠ [] := List.length_pos_iff.mp (by omega)
  simp [looksLikeH2,looksLikePreface,hne,hlen,h]

/-- Strip padding and priority from a HEADERS payload. -/
def headersFragment (flags : UInt8) (payload : List UInt8) : Option (List UInt8) :=
  let unpadded : Option (List UInt8) :=
    if flags &&& flagPadded ≠ 0 then
      match payload with
      | [] => none
      | pad :: p => if p.length < pad.toNat then none else some (p.take (p.length - pad.toNat))
    else some payload
  unpadded.bind fun p =>
    if flags &&& flagPriority ≠ 0 then
      if p.length < 5 then none else some (p.drop 5)
    else some p

/-- A whole frame on the wire. -/
structure Frame where
  bytes : List UInt8
  hdr : FrameHeader
  parsed : FrameHeader.parse bytes = some hdr
  whole : bytes.length = hdr.totalLen

namespace Frame

def payload (f : Frame) : List UInt8 := f.bytes.drop headerLen

theorem headerLen_le (f : Frame) : headerLen ≤ f.bytes.length := FrameHeader.length_of_parse f.parsed

def wire (fs : List Frame) : List UInt8 := fs.flatMap Frame.bytes

@[simp] theorem wire_nil : wire [] = [] := rfl

@[simp] theorem wire_cons (f : Frame) (fs : List Frame) : wire (f :: fs) = f.bytes ++ wire fs := rfl

end Frame

end H2
end ObsAgent
