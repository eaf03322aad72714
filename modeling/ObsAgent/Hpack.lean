import ObsAgent.Common
import ObsAgent.Huffman

/-! The HPACK decoder of one direction: static table, integers, string literals,
and the dynamic table with its byte limit and its ceiling of 32 entries. -/
namespace ObsAgent
namespace Hpack

def dynamicCap : ℕ := 32
def defaultTableSize : ℕ := 4096
def entryOverhead : ℕ := 32

abbrev Header := String × String

/-- RFC 7541 Appendix A, the entry with index 1 first. -/
def staticTable : List Header := [
  (":authority",""), (":method","GET"), (":method","POST"), (":path","/"),
  (":path","/index.html"), (":scheme","http"), (":scheme","https"), (":status","200"),
  (":status","204"), (":status","206"), (":status","304"), (":status","400"), (":status","404"),
  (":status","500"), ("accept-charset",""), ("accept-encoding","gzip, deflate"),
  ("accept-language",""), ("accept-ranges",""), ("accept",""),
  ("access-control-allow-origin",""), ("age",""), ("allow",""), ("authorization",""),
  ("cache-control",""), ("content-disposition",""), ("content-encoding",""),
  ("content-language",""), ("content-length",""), ("content-location",""), ("content-range",""),
  ("content-type",""), ("cookie",""), ("date",""), ("etag",""), ("expect",""), ("expires",""),
  ("from",""), ("host",""), ("if-match",""), ("if-modified-since",""), ("if-none-match",""),
  ("if-range",""), ("if-unmodified-since",""), ("last-modified",""), ("link",""),
  ("location",""), ("max-forwards",""), ("proxy-authenticate",""), ("proxy-authorization",""),
  ("range",""), ("referer",""), ("refresh",""), ("retry-after",""), ("server",""),
  ("set-cookie",""), ("strict-transport-security",""), ("transfer-encoding",""),
  ("user-agent",""), ("vary",""), ("via",""), ("www-authenticate","")]

structure Pseudo where
  method : Option String
  path : Option String
  status : Option ℕ
  authority : Option String
  deriving DecidableEq

def Pseudo.default : Pseudo := ⟨none,none,none,none⟩

/-- Newest entry first. -/
structure Decoder where
  dynamic : List Header
  maxSize : ℕ
  deriving DecidableEq

def Decoder.default : Decoder := ⟨[],defaultTableSize⟩

def fromUtf8 (bytes : List UInt8) : Option String := String.fromUTF8? ⟨bytes.toArray⟩

theorem fromUtf8_eq_some_iff {bytes : List UInt8} {s : String} :
    fromUtf8 bytes = some s ↔ octets s = bytes := by
  simp only [fromUtf8,String.fromUTF8?]
  constructor
  · intro h
    split_ifs at h with hv
    obtain rfl := Option.some.inj h
    rfl
  · rintro rfl
    have hb : (⟨(octets s).toArray⟩ : ByteArray) = s.toUTF8 := by simp [octets]
    rw [hb]
    exact dif_pos s.isValidUTF8

@[simp] theorem fromUtf8_octets (s : String) : fromUtf8 (octets s) = some s :=
  fromUtf8_eq_some_iff.mpr rfl

theorem octets_injective : Function.Injective octets := by
  intro s t h
  have hs := fromUtf8_octets s
  rw [h,fromUtf8_octets] at hs
  exact (Option.some.inj hs).symm

def parseDigits : List UInt8 → ℕ → Option ℕ
  | [], v => some v
  | b :: bs, v =>
    if 48 ≤ b ∧ b ≤ 57 then parseDigits bs (v*10 + (b.toNat - 48)) else none

/-- `str::parse::<u16>`: an optional plus sign, then digits, at most 65535. -/
def parseU16 (src : List UInt8) : Option ℕ :=
  let digits := match src with
    | 43 :: rest => rest
    | _ => src
  if digits = [] then none else (parseDigits digits 0).filter (fun v => decide (v ≤ 65535))

def apply (out : Pseudo) (name value : String) : Pseudo :=
  if name = ":method" then {out with method := some value}
  else if name = ":path" then {out with path := some value}
  else if name = ":authority" then {out with authority := some value}
  else if name = ":status" then {out with status := parseU16 (octets value)}
  else out

/-- The continuation loop of `decode_int`. -/
def decodeIntLoop : List UInt8 → ℕ → ℕ → Option (ℕ × List UInt8)
  | [], _, _ => none
  | b :: rest, v, shift =>
    let v := v + ((b &&& 0x7f).toNat <<< shift)
    if b &&& 0x80 = 0 then some (v,rest)
    else if shift + 7 > 28 then none
    else decodeIntLoop rest v (shift + 7)

def decodeInt (src : List UInt8) (prefixBits : ℕ) : Option (ℕ × List UInt8) :=
  match src with
  | [] => none
  | b :: rest =>
    let mask : UInt8 := (1 <<< prefixBits.toUInt8) - 1
    let v := (b &&& mask).toNat
    if v < mask.toNat then some (v,rest) else decodeIntLoop rest v 0

/-- The octets of a string literal, Huffman coded or raw. -/
def literalBytes (huffman : Bool) (raw : List UInt8) : Option (List UInt8) :=
  if huffman then decodeHuffman raw else some raw

def decodeString (src : List UInt8) : Option (String × List UInt8) :=
  match src with
  | [] => none
  | b :: _ =>
    match decodeInt src 7 with
    | none => none
    | some (n,rest) =>
      if rest.length < n then none
      else
        match literalBytes (b &&& 0x80 ≠ 0) (rest.take n) with
        | none => none
        | some bytes => (fromUtf8 bytes).map fun s => (s,rest.drop n)

theorem decodeIntLoop_consumes {src rest : List UInt8} {v w shift : ℕ}
    (h : decodeIntLoop src v shift = some (w,rest)) : rest <:+ src ∧ rest.length < src.length := by
  induction src generalizing v shift with
  | nil => simp [decodeIntLoop] at h
  | cons b bs ih =>
    simp only [decodeIntLoop] at h
    split_ifs at h
    · simp only [Option.some.injEq,Prod.mk.injEq] at h
      rw [← h.2]
      exact ⟨List.suffix_cons b bs,by simp⟩
    · obtain ⟨hsuffix,hlt⟩ := ih h
      refine ⟨hsuffix.trans (List.suffix_cons b bs),?_⟩
      rw [List.length_cons]
      omega

theorem decodeInt_consumes {src rest : List UInt8} {n v : ℕ}
    (h : decodeInt src n = some (v,rest)) : rest <:+ src ∧ rest.length < src.length := by
  cases src with
  | nil => simp [decodeInt] at h
  | cons b bs =>
    simp only [decodeInt] at h
    split_ifs at h
    · simp only [Option.some.injEq,Prod.mk.injEq] at h
      rw [← h.2]
      exact ⟨List.suffix_cons b bs,by simp⟩
    · obtain ⟨hsuffix,hlt⟩ := decodeIntLoop_consumes h
      refine ⟨hsuffix.trans (List.suffix_cons b bs),?_⟩
      rw [List.length_cons]
      omega

theorem decodeInt_rest {src rest : List UInt8} {n v : ℕ}
    (h : decodeInt src n = some (v,rest)) : rest.length < src.length := (decodeInt_consumes h).2

theorem decodeString_rest {src rest : List UInt8} {s : String}
    (h : decodeString src = some (s,rest)) : rest.length ≤ src.length := by
  cases src with
  | nil => simp [decodeString] at h
  | cons b bs =>
    simp only [decodeString] at h
    split at h
    · simp at h
    · rename_i n tail hint
      have hlt := decodeInt_rest hint
      split_ifs at h
      split at h
      · simp at h
      · simp only [Option.map_eq_some_iff,Prod.mk.injEq] at h
        obtain ⟨t,_,_,rfl⟩ := h
        simp only [List.length_drop]
        omega

namespace Decoder

def reset (_ : Decoder) : Decoder := ⟨[],defaultTableSize⟩

def entrySize (e : Header) : ℕ := entryOverhead + (octets e.1).length + (octets e.2).length

def tableOctets (dynamic : List Header) : ℕ := (dynamic.map entrySize).sum

/-- Pop oldest entries while the table is over either limit. -/
def evict (maxSize : ℕ) (dynamic : List Header) : List Header :=
  if dynamic.length > dynamicCap ∨ tableOctets dynamic > maxSize then
    if dynamic = [] then dynamic else evict maxSize dynamic.dropLast
  else dynamic
termination_by dynamic.length
decreasing_by
  rename_i hne
  have := List.length_pos_iff.mpr hne
  simp only [List.length_dropLast]
  omega

def setMaxSize (d : Decoder) (size : ℕ) : Option Decoder :=
  if size > defaultTableSize then none else some ⟨evict size d.dynamic,size⟩

def lookup (d : Decoder) (idx : ℕ) : Option Header :=
  if idx = 0 then none
  else if idx ≤ staticTable.length then staticTable[idx - 1]?
  else d.dynamic[idx - staticTable.length - 1]?

def push (d : Decoder) (name value : String) : Decoder :=
  {d with dynamic := evict d.maxSize ((name,value) :: d.dynamic)}

def decodeLiteral (d : Decoder) (src : List UInt8) (prefixBits : ℕ) :
    Option (String × String × List UInt8) :=
  match decodeInt src prefixBits with
  | none => none
  | some (idx,rest) =>
    match (if idx = 0 then decodeString rest else (d.lookup idx).map fun e => (e.1,rest)) with
    | none => none
    | some (name,rest) => (decodeString rest).map fun r => (name,r.1,r.2)

theorem decodeLiteral_rest {d : Decoder} {src rest : List UInt8} {n : ℕ} {name value : String}
    (h : d.decodeLiteral src n = some (name,value,rest)) : rest.length < src.length := by
  simp only [decodeLiteral] at h
  split at h
  · simp at h
  · rename_i idx tail hint
    have hlt := decodeInt_rest hint
    split at h
    · simp at h
    · rename_i name' mid hname
      have hmid : mid.length ≤ tail.length := by
        split_ifs at hname
        · exact decodeString_rest hname
        · simp only [Option.map_eq_some_iff,Prod.mk.injEq] at hname
          obtain ⟨_,_,_,rfl⟩ := hname
          exact le_rfl
      simp only [Option.map_eq_some_iff,Prod.mk.injEq] at h
      obtain ⟨⟨v,r⟩,hv,_,_,hr⟩ := h
      have hle := decodeString_rest hv
      simp only at hr
      subst hr
      omega

/-- The representation loop; a failure abandons the block. -/
def tryDecode (d : Decoder) (src : List UInt8) (out : Pseudo) : Option (Decoder × Pseudo) :=
  match src with
  | [] => some (d,out)
  | b0 :: tail =>
    if b0 &&& 0x80 ≠ 0 then
      match _h : decodeInt (b0 :: tail) 7 with
      | none => none
      | some (idx,rest) =>
        match d.lookup idx with
        | none => none
        | some (n,v) => tryDecode d rest (apply out n v)
    else if b0 &&& 0x40 ≠ 0 then
      match _h : d.decodeLiteral (b0 :: tail) 6 with
      | none => none
      | some (name,value,rest) => tryDecode (d.push name value) rest (apply out name value)
    else if b0 &&& 0x20 ≠ 0 then
      match _h : decodeInt (b0 :: tail) 5 with
      | none => none
      | some (size,rest) =>
        match d.setMaxSize size with
        | none => none
        | some d' => tryDecode d' rest out
    else
      match _h : d.decodeLiteral (b0 :: tail) 4 with
      | none => none
      | some (name,value,rest) => tryDecode d rest (apply out name value)
termination_by src.length
decreasing_by
  · exact decodeInt_rest _h
  · exact decodeLiteral_rest _h
  · exact decodeInt_rest _h
  · exact decodeLiteral_rest _h

def decodeBlock (d : Decoder) (src : List UInt8) : Decoder × Option Pseudo :=
  match d.tryDecode src Pseudo.default with
  | some (d',p) => (d',some p)
  | none => (d.reset,none)

end Decoder

end Hpack
end ObsAgent
