import ObsAgent.Hpack

/-! The header compression format itself: dynamic table, header field
representations with their meaning, and the octets that may carry them.  Nothing
here is bounded in the way the agent's decoder is; the two appendices are shared. -/
namespace ObsAgent
namespace Rfc7541

abbrev Entry := List UInt8 × List UInt8

def staticTable : List Entry := Hpack.staticTable.map fun e => (octets e.1,octets e.2)

/-- Section 4.1. -/
def entrySize (e : Entry) : ℕ := 32 + e.1.length + e.2.length

def tableSize (es : List Entry) : ℕ := (es.map entrySize).sum

/-- Drop oldest entries until the rest fits. -/
def evict (limit : ℕ) (es : List Entry) : List Entry :=
  if tableSize es ≤ limit then es
  else if es = [] then es
  else evict limit es.dropLast
termination_by es.length
decreasing_by
  rename_i hne
  have := List.length_pos_iff.mpr hne
  simp only [List.length_dropLast]
  omega

/-- The dynamic table, newest entry first, with its current maximum size. -/
structure Table where
  entries : List Entry
  maxSize : ℕ
  deriving DecidableEq

def Table.initial : Table := ⟨[],4096⟩

/-- An entry count on top of the format, or none. -/
def clip : Option ℕ → List Entry → List Entry
  | none, es => es
  | some n, es => es.take n

/-- Section 4.4: evict for the new entry, then add it if it fits at all. -/
def Table.add (ceiling : Option ℕ) (t : Table) (e : Entry) : Table :=
  if entrySize e ≤ t.maxSize then
    {t with entries := clip ceiling (e :: evict (t.maxSize - entrySize e) t.entries)}
  else {t with entries := []}

/-- Section 4.3. -/
def Table.resize (t : Table) (n : ℕ) : Table := ⟨evict n t.entries,n⟩

/-- Section 2.3.3: one index space, static entries first. -/
def Table.lookup (t : Table) (i : ℕ) : Option Entry :=
  if i = 0 then none
  else if i ≤ staticTable.length then staticTable[i - 1]?
  else t.entries[i - staticTable.length - 1]?

structure Literal where
  text : List UInt8
  huffman : Bool

inductive Indexing
  | incremental | without | never
  deriving DecidableEq

inductive Name
  | index (i : ℕ)
  | literal (s : Literal)

/-- Header field representations, section 6. -/
inductive Rep
  | indexed (i : ℕ)
  | literal (mode : Indexing) (name : Name) (value : Literal)
  | sizeUpdate (n : ℕ)

def Table.resolve (t : Table) : Name → Option (List UInt8)
  | .index i => (t.lookup i).map (·.1)
  | .literal s => some s.text

/-- The effect of one representation; `limit` is the negotiated maximum size. -/
def Table.step (ceiling : Option ℕ) (limit : ℕ) (t : Table) : Rep → Option (Table × List Entry)
  | .indexed i => (t.lookup i).map fun e => (t,[e])
  | .literal mode name value =>
    (t.resolve name).map fun n =>
      (if mode = .incremental then t.add ceiling (n,value.text) else t,[(n,value.text)])
  | .sizeUpdate n => if n ≤ limit then some (t.resize n,[]) else none

/-- A header block: the final table and the header list. -/
def Table.block (ceiling : Option ℕ) (limit : ℕ) (t : Table) :
    List Rep → Option (Table × List Entry)
  | [] => some (t,[])
  | r :: rs =>
    match t.step ceiling limit r with
    | none => none
    | some (t',hs) => (t'.block ceiling limit rs).map fun q => (q.1,hs ++ q.2)

/-- Continuation octets of section 5.1, least significant group first. -/
inductive Continuation : ℕ → List UInt8 → Prop
  | last {b : UInt8} : b.toNat < 128 → Continuation b.toNat [b]
  | more {b : UInt8} {w : ℕ} {bs : List UInt8} : 128 ≤ b.toNat → Continuation w bs →
      Continuation (b.toNat - 128 + 128*w) (b :: bs)

/-- The octets `b :: cont` carry `v` in an `n`-bit prefix. -/
inductive IntCode (n v : ℕ) (b : UInt8) : List UInt8 → Prop
  | short : b.toNat % 2^n = v → v < 2^n - 1 → IntCode n v b []
  | long {w : ℕ} {cont : List UInt8} : b.toNat % 2^n = 2^n - 1 → v = 2^n - 1 + w →
      Continuation w cont → IntCode n v b cont

/-- Section 5.2: flag and length, then the text, Huffman coded when the flag is set. -/
inductive StringCode (s : Literal) : List UInt8 → Prop
  | mk {b : UInt8} {cont data : List UInt8} : IntCode 7 data.length b cont →
      (128 ≤ b.toNat ↔ s.huffman = true) →
      (if s.huffman then Hpack.HuffmanCoded data s.text else data = s.text) →
      StringCode s (b :: (cont ++ data))

def Indexing.prefixBits : Indexing → ℕ
  | .incremental => 6
  | .without => 4
  | .never => 4

/-- The bits above the prefix in the first octet. -/
def Indexing.pattern : Indexing → ℕ
  | .incremental => 1
  | .without => 0
  | .never => 1

inductive RepCode : Rep → List UInt8 → Prop
  | indexed {i : ℕ} {b : UInt8} {cont : List UInt8} : 128 ≤ b.toNat → IntCode 7 i b cont →
      RepCode (.indexed i) (b :: cont)
  | literalIndex {mode : Indexing} {i : ℕ} {value : Literal} {b : UInt8} {cont s : List UInt8} :
      b.toNat / 2^mode.prefixBits = mode.pattern → i ≠ 0 → IntCode mode.prefixBits i b cont →
      StringCode value s → RepCode (.literal mode (.index i) value) (b :: (cont ++ s))
  | literalNew {mode : Indexing} {name value : Literal} {b : UInt8} {s s' : List UInt8} :
      b.toNat / 2^mode.prefixBits = mode.pattern → IntCode mode.prefixBits 0 b [] →
      StringCode name s → StringCode value s' →
      RepCode (.literal mode (.literal name) value) (b :: (s ++ s'))
  | sizeUpdate {n : ℕ} {b : UInt8} {cont : List UInt8} : b.toNat / 32 = 1 → IntCode 5 n b cont →
      RepCode (.sizeUpdate n) (b :: cont)

inductive BlockCode : List Rep → List UInt8 → Prop
  | nil : BlockCode [] []
  | cons {r : Rep} {rs : List Rep} {s s' : List UInt8} : RepCode r s → BlockCode rs s' →
      BlockCode (r :: rs) (s ++ s')

structure Pseudo where
  method : Option (List UInt8)
  path : Option (List UInt8)
  status : Option ℕ
  authority : Option (List UInt8)

def Pseudo.default : Pseudo := ⟨none,none,none,none⟩

/-- The value of the last field with this name. -/
def lastValue (name : String) (hs : List Entry) : Option (List UInt8) :=
  ((hs.filter fun h => h.1 = octets name).getLast?).map (·.2)

def pseudoOf (hs : List Entry) : Pseudo where
  method := lastValue ":method" hs
  path := lastValue ":path" hs
  status := (lastValue ":status" hs).bind Hpack.parseU16
  authority := lastValue ":authority" hs

/-- The effect of one field on the pseudo-headers read so far. -/
def applyEntry (p : Pseudo) (e : Entry) : Pseudo :=
  if e.1 = octets ":method" then {p with method := some e.2}
  else if e.1 = octets ":path" then {p with path := some e.2}
  else if e.1 = octets ":authority" then {p with authority := some e.2}
  else if e.1 = octets ":status" then {p with status := Hpack.parseU16 e.2}
  else p

theorem lastValue_concat (name : String) (hs : List Entry) (e : Entry) :
    lastValue name (hs ++ [e]) = if e.1 = octets name then some e.2 else lastValue name hs := by
  by_cases h : e.1 = octets name <;> simp [lastValue,List.filter_append,h]

theorem applyEntry_pseudoOf (hs : List Entry) (e : Entry) :
    applyEntry (pseudoOf hs) e = pseudoOf (hs ++ [e]) := by
  have hdiff : ∀ {s t : String}, s ≠ t → octets s ≠ octets t := fun h he =>
    h (Hpack.octets_injective he)
  have h1 := hdiff (s := ":path") (t := ":method") (by decide)
  have h2 := hdiff (s := ":authority") (t := ":method") (by decide)
  have h3 := hdiff (s := ":status") (t := ":method") (by decide)
  have h4 := hdiff (s := ":authority") (t := ":path") (by decide)
  have h5 := hdiff (s := ":status") (t := ":path") (by decide)
  have h6 := hdiff (s := ":status") (t := ":authority") (by decide)
  simp only [applyEntry,pseudoOf,lastValue_concat]
  split_ifs <;> simp_all

/-- Applying the fields from left to right leaves the last value of each. -/
theorem foldl_applyEntry (hs : List Entry) :
    hs.foldl applyEntry Pseudo.default = pseudoOf hs := by
  induction hs using List.reverseRecOn with
  | nil => rfl
  | append_singleton hs e ih =>
    rw [List.foldl_append,ih]
    exact applyEntry_pseudoOf hs e

def continuationOctets (w : ℕ) : List UInt8 :=
  if w < 128 then [w.toUInt8] else (w % 128 + 128).toUInt8 :: continuationOctets (w / 128)
termination_by w
decreasing_by omega

/-- `high` is the part of the first octet above the `n`-bit prefix. -/
def encodeInt (n high v : ℕ) : List UInt8 :=
  if v < 2^n - 1 then [(high * 2^n + v).toUInt8]
  else (high * 2^n + (2^n - 1)).toUInt8 :: continuationOctets (v - (2^n - 1))

def Literal.data (s : Literal) : List UInt8 :=
  if s.huffman then Hpack.huffmanEncode s.text else s.text

def Literal.encode (s : Literal) : List UInt8 :=
  encodeInt 7 (if s.huffman then 1 else 0) s.data.length ++ s.data

def Rep.encode : Rep → List UInt8
  | .indexed i => encodeInt 7 1 i
  | .literal mode (.index i) value => encodeInt mode.prefixBits mode.pattern i ++ value.encode
  | .literal mode (.literal name) value =>
    encodeInt mode.prefixBits mode.pattern 0 ++ (name.encode ++ value.encode)
  | .sizeUpdate n => encodeInt 5 1 n

def encodeBlock (rs : List Rep) : List UInt8 := rs.flatMap Rep.encode

end Rfc7541
end ObsAgent
