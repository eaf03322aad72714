import ObsAgent.PrefixCode

/-! The Huffman layer of the HPACK decoder.  The decoder keeps the undecoded bits
in an accumulator with a bit count; below, that pair is the bit string it denotes,
and decoding inverts coding because the table is a prefix code. -/
namespace ObsAgent
namespace Hpack

/-- RFC 7541 Appendix B: code and bit length of the symbols 0 to 255, then of EOS. -/
def huff : List (ℕ × ℕ) := [
  (0x1ff8, 13), (0x7fffd8, 23), (0xfffffe2, 28), (0xfffffe3, 28), (0xfffffe4, 28),
  (0xfffffe5, 28), (0xfffffe6, 28), (0xfffffe7, 28), (0xfffffe8, 28), (0xffffea, 24),
  (0x3ffffffc, 30), (0xfffffe9, 28), (0xfffffea, 28), (0x3ffffffd, 30), (0xfffffeb, 28),
  (0xfffffec, 28), (0xfffffed, 28), (0xfffffee, 28), (0xfffffef, 28), (0xffffff0, 28),
  (0xffffff1, 28), (0xffffff2, 28), (0x3ffffffe, 30), (0xffffff3, 28), (0xffffff4, 28),
  (0xffffff5, 28), (0xffffff6, 28), (0xffffff7, 28), (0xffffff8, 28), (0xffffff9, 28),
  (0xffffffa, 28), (0xffffffb, 28), (0x14, 6), (0x3f8, 10), (0x3f9, 10),
  (0xffa, 12), (0x1ff9, 13), (0x15, 6), (0xf8, 8), (0x7fa, 11),
  (0x3fa, 10), (0x3fb, 10), (0xf9, 8), (0x7fb, 11), (0xfa, 8),
  (0x16, 6), (0x17, 6), (0x18, 6), (0x0, 5), (0x1, 5),
  (0x2, 5), (0x19, 6), (0x1a, 6), (0x1b, 6), (0x1c, 6),
  (0x1d, 6), (0x1e, 6), (0x1f, 6), (0x5c, 7), (0xfb, 8),
  (0x7ffc, 15), (0x20, 6), (0xffb, 12), (0x3fc, 10), (0x1ffa, 13),
  (0x21, 6), (0x5d, 7), (0x5e, 7), (0x5f, 7), (0x60, 7),
  (0x61, 7), (0x62, 7), (0x63, 7), (0x64, 7), (0x65, 7),
  (0x66, 7), (0x67, 7), (0x68, 7), (0x69, 7), (0x6a, 7),
  (0x6b, 7), (0x6c, 7), (0x6d, 7), (0x6e, 7), (0x6f, 7),
  (0x70, 7), (0x71, 7), (0x72, 7), (0xfc, 8), (0x73, 7),
  (0xfd, 8), (0x1ffb, 13), (0x7fff0, 19), (0x1ffc, 13), (0x3ffc, 14),
  (0x22, 6), (0x7ffd, 15), (0x3, 5), (0x23, 6), (0x4, 5),
  (0x24, 6), (0x5, 5), (0x25, 6), (0x26, 6), (0x27, 6),
  (0x6, 5), (0x74, 7), (0x75, 7), (0x28, 6), (0x29, 6),
  (0x2a, 6), (0x7, 5), (0x2b, 6), (0x76, 7), (0x2c, 6),
  (0x8, 5), (0x9, 5), (0x2d, 6), (0x77, 7), (0x78, 7),
  (0x79, 7), (0x7a, 7), (0x7b, 7), (0x7ffe, 15), (0x7fc, 11),
  (0x3ffd, 14), (0x1ffd, 13), (0xffffffc, 28), (0xfffe6, 20), (0x3fffd2, 22),
  (0xfffe7, 20), (0xfffe8, 20), (0x3fffd3, 22), (0x3fffd4, 22), (0x3fffd5, 22),
  (0x7fffd9, 23), (0x3fffd6, 22), (0x7fffda, 23), (0x7fffdb, 23), (0x7fffdc, 23),
  (0x7fffdd, 23), (0x7fffde, 23), (0xffffeb, 24), (0x7fffdf, 23), (0xffffec, 24),
  (0xffffed, 24), (0x3fffd7, 22), (0x7fffe0, 23), (0xffffee, 24), (0x7fffe1, 23),
  (0x7fffe2, 23), (0x7fffe3, 23), (0x7fffe4, 23), (0x1fffdc, 21), (0x3fffd8, 22),
  (0x7fffe5, 23), (0x3fffd9, 22), (0x7fffe6, 23), (0x7fffe7, 23), (0xffffef, 24),
  (0x3fffda, 22), (0x1fffdd, 21), (0xfffe9, 20), (0x3fffdb, 22), (0x3fffdc, 22),
  (0x7fffe8, 23), (0x7fffe9, 23), (0x1fffde, 21), (0x7fffea, 23), (0x3fffdd, 22),
  (0x3fffde, 22), (0xfffff0, 24), (0x1fffdf, 21), (0x3fffdf, 22), (0x7fffeb, 23),
  (0x7fffec, 23), (0x1fffe0, 21), (0x1fffe1, 21), (0x3fffe0, 22), (0x1fffe2, 21),
  (0x7fffed, 23), (0x3fffe1, 22), (0x7fffee, 23), (0x7fffef, 23), (0xfffea, 20),
  (0x3fffe2, 22), (0x3fffe3, 22), (0x3fffe4, 22), (0x7ffff0, 23), (0x3fffe5, 22),
  (0x3fffe6, 22), (0x7ffff1, 23), (0x3ffffe0, 26), (0x3ffffe1, 26), (0xfffeb, 20),
  (0x7fff1, 19), (0x3fffe7, 22), (0x7ffff2, 23), (0x3fffe8, 22), (0x1ffffec, 25),
  (0x3ffffe2, 26), (0x3ffffe3, 26), (0x3ffffe4, 26), (0x7ffffde, 27), (0x7ffffdf, 27),
  (0x3ffffe5, 26), (0xfffff1, 24), (0x1ffffed, 25), (0x7fff2, 19), (0x1fffe3, 21),
  (0x3ffffe6, 26), (0x7ffffe0, 27), (0x7ffffe1, 27), (0x3ffffe7, 26), (0x7ffffe2, 27),
  (0xfffff2, 24), (0x1fffe4, 21), (0x1fffe5, 21), (0x3ffffe8, 26), (0x3ffffe9, 26),
  (0xffffffd, 28), (0x7ffffe3, 27), (0x7ffffe4, 27), (0x7ffffe5, 27), (0xfffec, 20),
  (0xfffff3, 24), (0xfffed, 20), (0x1fffe6, 21), (0x3fffe9, 22), (0x1fffe7, 21),
  (0x1fffe8, 21), (0x7ffff3, 23), (0x3fffea, 22), (0x3fffeb, 22), (0x1ffffee, 25),
  (0x1ffffef, 25), (0xfffff4, 24), (0xfffff5, 24), (0x3ffffea, 26), (0x7ffff4, 23),
  (0x3ffffeb, 26), (0x7ffffe6, 27), (0x3ffffec, 26), (0x3ffffed, 26), (0x7ffffe7, 27),
  (0x7ffffe8, 27), (0x7ffffe9, 27), (0x7ffffea, 27), (0x7ffffeb, 27), (0xffffffe, 28),
  (0x7ffffec, 27), (0x7ffffed, 27), (0x7ffffee, 27), (0x7ffffef, 27), (0x7fffff0, 27),
  (0x3ffffee, 26), (0x3fffffff, 30)]

/-- The scan of the table by `match_huff`, from symbol `sym` on. -/
def matchHuffFrom (acc nbits : ℕ) : ℕ → List (ℕ × ℕ) → Option (ℕ × ℕ)
  | _, [] => none
  | sym, (code,bits) :: rest =>
    if nbits < bits then matchHuffFrom acc nbits (sym+1) rest
    else if acc >>> (nbits - bits) = code then some (sym,bits)
    else matchHuffFrom acc nbits (sym+1) rest

def matchHuff (acc nbits : ℕ) : Option (ℕ × ℕ) :=
  if nbits < 5 then none else matchHuffFrom acc nbits 0 huff

theorem huff_bits_ge {p : ℕ × ℕ} (h : p ∈ huff) : 5 ≤ p.2 := by
  have hall : ∀ q ∈ huff, 5 ≤ q.2 := by decide +kernel
  exact hall p h

theorem matchHuffFrom_some {acc nbits k sym used : ℕ} {l : List (ℕ × ℕ)}
    (h : matchHuffFrom acc nbits k l = some (sym,used)) :
    ∃ i : Fin l.length, sym = k + i.val ∧ used = (l.get i).2 ∧
      used ≤ nbits ∧ acc >>> (nbits - used) = (l.get i).1 := by
  induction l generalizing k with
  | nil => simp [matchHuffFrom] at h
  | cons p ps ih =>
    obtain ⟨code,bits⟩ := p
    have hlater : matchHuffFrom acc nbits (k+1) ps = some (sym,used) →
        ∃ i : Fin ((code,bits) :: ps).length, sym = k + i.val ∧
          used = (((code,bits) :: ps).get i).2 ∧
          used ≤ nbits ∧ acc >>> (nbits - used) = (((code,bits) :: ps).get i).1 := by
      intro hs
      obtain ⟨i,hsym,hrest⟩ := ih hs
      exact ⟨i.succ,by simp only [Fin.val_succ]; omega,hrest⟩
    simp only [matchHuffFrom] at h
    split_ifs at h with hn hc
    · exact hlater h
    · obtain ⟨rfl,rfl⟩ : k = sym ∧ bits = used := by simpa using h
      exact ⟨0,by simp,rfl,by omega,hc⟩
    · exact hlater h

theorem matchHuffFrom_none {acc nbits k : ℕ} {l : List (ℕ × ℕ)}
    (h : matchHuffFrom acc nbits k l = none) :
    ∀ p ∈ l, p.2 ≤ nbits → acc >>> (nbits - p.2) ≠ p.1 := by
  induction l generalizing k with
  | nil => simp
  | cons p ps ih =>
    obtain ⟨code,bits⟩ := p
    simp only [matchHuffFrom] at h
    intro q hq hqn
    rcases List.mem_cons.mp hq with rfl | hq
    · split_ifs at h with hn hc
      · simp only at hqn; omega
      · exact hc
    · split_ifs at h with hn hc
      · exact ih h q hq hqn
      · exact ih h q hq hqn

theorem matchHuff_used {acc nbits sym used : ℕ} (h : matchHuff acc nbits = some (sym,used)) :
    5 ≤ used ∧ used ≤ nbits := by
  simp only [matchHuff] at h
  split_ifs at h
  obtain ⟨i,_,hused,hle,_⟩ := matchHuffFrom_some h
  exact ⟨hused ▸ huff_bits_ge (List.get_mem huff i),hle⟩

/-- The inner `while let` of `decode_huffman`; `none` is its early return. -/
def decodeSymbols (acc nbits : ℕ) (out : List UInt8) : Option (ℕ × ℕ × List UInt8) :=
  match _h : matchHuff acc nbits with
  | none => some (acc,nbits,out)
  | some (sym,used) =>
    if sym = 256 then none
    else if sym > 255 then none
    else decodeSymbols (acc &&& ((1 <<< (nbits - used)) - 1)) (nbits - used) (out ++ [sym.toUInt8])
termination_by nbits
decreasing_by
  have := matchHuff_used _h
  omega

def decodeOctets : List UInt8 → ℕ → ℕ → List UInt8 → Option (ℕ × ℕ × List UInt8)
  | [], acc, nbits, out => some (acc,nbits,out)
  | b :: bs, acc, nbits, out =>
    match decodeSymbols ((acc <<< 8) ||| b.toNat) (nbits + 8) out with
    | none => none
    | some (acc,nbits,out) => decodeOctets bs acc nbits out

def decodeHuffman (src : List UInt8) : Option (List UInt8) :=
  match decodeOctets src 0 0 [] with
  | none => none
  | some (acc,nbits,out) =>
    if nbits > 7 then none
    else if nbits > 0 ∧ acc ≠ (1 <<< nbits) - 1 then none
    else some out

abbrev Symbol := Fin huff.length

def codeWord (s : Symbol) : List Bool := PrefixCode.word (huff.get s)

/-- In the order of their words the entries cover the words of 30 bits, each once. -/
theorem huff_tiles : PrefixCode.tiles 30 0
    (huff.insertionSort fun p q => PrefixCode.low 30 p ≤ PrefixCode.low 30 q) (2 ^ 30) = true := by
  decide +kernel

theorem codeWord_prefixFree : PrefixCode.PrefixFree codeWord := by
  intro a b h
  exact PrefixCode.eq_of_word_leads (List.perm_insertionSort _ huff) huff_tiles h

theorem huff_length : huff.length = 257 := by decide +kernel

theorem huff_fits (s : Symbol) : (huff.get s).1 < 2 ^ (huff.get s).2 := by
  have hall : ∀ p ∈ huff, p.1 < 2 ^ p.2 := by decide +kernel
  exact hall _ (List.get_mem huff s)

def ofOctet (b : UInt8) : Symbol := ⟨b.toNat,by rw [huff_length]; have := b.toNat_lt; omega⟩

def octetBits (b : UInt8) : List Bool := BitString.bits 8 b.toNat

def bitsOf (bs : List UInt8) : List Bool := bs.flatMap octetBits

/-- RFC 7541 section 5.2: the codes of the octets, then fewer than eight one bits,
the leading bits of EOS, up to the octet boundary. -/
def HuffmanCoded (data s : List UInt8) : Prop :=
  ∃ k < 8, bitsOf data = PrefixCode.encode codeWord (s.map ofOctet) ++ List.replicate k true

theorem replicate_true_stuck {k : ℕ} (hk : k < 8) :
    PrefixCode.Stuck codeWord (List.replicate k true) := by
  intro s h
  have hlen : (huff.get s).2 ≤ k := by
    simpa [codeWord,PrefixCode.word] using h.length_le
  have hones : PrefixCode.word (huff.get s) = List.replicate (huff.get s).2 true := by
    rw [List.prefix_iff_eq_take] at h
    rw [codeWord,List.take_replicate] at h
    rw [h]
    congr 1
    simp only [PrefixCode.word,BitString.bits_length]
    omega
  have hcode : (huff.get s).1 = 2 ^ (huff.get s).2 - 1 := by
    have he := congrArg BitString.value hones
    rwa [PrefixCode.word,BitString.value_bits,Nat.mod_eq_of_lt (huff_fits s),
      BitString.value_replicate_true] at he
  have hall : ∀ p ∈ huff, p.2 < 8 → p.1 ≠ 2 ^ p.2 - 1 := by decide +kernel
  exact hall _ (List.get_mem huff s) (by omega) hcode

theorem codeWord_leads_iff (s : Symbol) (l : List Bool) :
    codeWord s <+: l ↔ (huff.get s).2 ≤ l.length ∧
      BitString.value l >>> (l.length - (huff.get s).2) = (huff.get s).1 := by
  rw [Nat.shiftRight_eq_div_pow]
  exact BitString.bits_leads_iff (huff_fits s) l

theorem matchHuff_eq_some {l : List Bool} {sym used : ℕ}
    (h : matchHuff (BitString.value l) l.length = some (sym,used)) :
    ∃ s : Symbol, sym = s.val ∧ used = (codeWord s).length ∧ codeWord s <+: l := by
  simp only [matchHuff] at h
  split_ifs at h
  obtain ⟨i,hsym,hused,hle,hcode⟩ := matchHuffFrom_some h
  refine ⟨i,by omega,by simp [codeWord,PrefixCode.word,hused],?_⟩
  rw [codeWord_leads_iff]
  subst hused
  exact ⟨hle,hcode⟩

theorem matchHuff_eq_none {l : List Bool}
    (h : matchHuff (BitString.value l) l.length = none) : PrefixCode.Stuck codeWord l := by
  intro s hs
  obtain ⟨hle,hcode⟩ := (codeWord_leads_iff s l).mp hs
  have hge := huff_bits_ge (List.get_mem huff s)
  simp only [matchHuff] at h
  split_ifs at h with hshort
  · omega
  · exact matchHuffFrom_none h _ (List.get_mem huff s) hle hcode

/-- What a decoding loop has read of a bit string: octets and an undecodable rest,
or octets and EOS. -/
def Read (l : List Bool) (out : List UInt8) : Option (ℕ × ℕ × List UInt8) → Prop
  | some (acc,nbits,out') => ∃ (s : List UInt8) (r : List Bool), out' = out ++ s ∧
      acc = BitString.value r ∧ nbits = r.length ∧ PrefixCode.Stuck codeWord r ∧
      l = PrefixCode.encode codeWord (s.map ofOctet) ++ r
  | none => ∃ (s : List UInt8) (e : Symbol) (r : List Bool), e.val = 256 ∧
      l = PrefixCode.encode codeWord (s.map ofOctet ++ [e]) ++ r

theorem Read.prepend {l : List Bool} {out : List UInt8} (t : List UInt8)
    {res : Option (ℕ × ℕ × List UInt8)} (h : Read l (out ++ t) res) :
    Read (PrefixCode.encode codeWord (t.map ofOctet) ++ l) out res := by
  cases res with
  | none =>
    obtain ⟨s,e,r,he,hl⟩ := h
    exact ⟨t ++ s,e,r,he,by simp [hl]⟩
  | some st =>
    obtain ⟨s,r,hout,hacc,hn,hr,hl⟩ := h
    exact ⟨t ++ s,r,by simp [hout],hacc,hn,hr,by simp [hl]⟩

theorem symbol_le (s : Symbol) : s.val ≤ 256 := by
  have h : s.val < 257 := huff_length ▸ s.isLt
  omega

theorem value_masked (l : List Bool) (n : ℕ) :
    BitString.value l &&& ((1 <<< (l.length - n)) - 1) = BitString.value (l.drop n) := by
  rw [Nat.one_shiftLeft,Nat.and_two_pow_sub_one_eq_mod,← BitString.value_drop]

theorem decodeSymbols_read (l : List Bool) (out : List UInt8) :
    Read l out (decodeSymbols (BitString.value l) l.length out) := by
  induction hn : l.length using Nat.strong_induction_on generalizing l out with
  | _ n ih =>
    subst hn
    rw [decodeSymbols]
    split
    · rename_i hm
      exact ⟨[],l,by simp,rfl,rfl,matchHuff_eq_none hm,by simp⟩
    · rename_i sym used hm
      obtain ⟨s,rfl,rfl,r,rfl⟩ := matchHuff_eq_some hm
      split_ifs with heos hbig
      · exact ⟨[],s,r,heos,by simp⟩
      · have hs := symbol_le s
        omega
      · have hsym : ofOctet s.val.toUInt8 = s := by
          apply Fin.ext
          simp only [ofOctet,Nat.toUInt8_eq,UInt8.toNat_ofNat']
          omega
        have hlen : (codeWord s ++ r).length - (codeWord s).length = r.length := by simp
        have hacc : BitString.value (codeWord s ++ r) &&& ((1 <<< r.length) - 1) =
            BitString.value r := by
          rw [← hlen,value_masked,List.drop_left]
        rw [hlen,hacc]
        have hshort : r.length < (codeWord s ++ r).length := by
          have hpos := (matchHuff_used hm).1
          simp only [List.length_append]
          omega
        have h := Read.prepend [s.val.toUInt8] (ih r.length hshort r (out ++ [s.val.toUInt8]) rfl)
        simpa only [List.map_cons,List.map_nil,hsym,PrefixCode.encode_cons,PrefixCode.encode_nil,
          List.append_nil] using h

theorem value_append_octet (l : List Bool) (b : UInt8) :
    (BitString.value l <<< 8) ||| b.toNat = BitString.value (l ++ octetBits b) := by
  have hb : b.toNat < 2^8 := b.toNat_lt
  rw [← Nat.shiftLeft_add_eq_or_of_lt hb,BitString.value_append,octetBits,BitString.value_bits,
    BitString.bits_length,Nat.shiftLeft_eq,Nat.mod_eq_of_lt hb]

/-- The outer loop reads the bits of all octets behind the pending ones. -/
theorem decodeOctets_read (src : List UInt8) (l : List Bool) (out : List UInt8)
    (hl : PrefixCode.Stuck codeWord l) :
    Read (l ++ bitsOf src) out (decodeOctets src (BitString.value l) l.length out) := by
  induction src generalizing l out with
  | nil => exact ⟨[],l,by simp,rfl,rfl,hl,by simp [bitsOf]⟩
  | cons b bs ih =>
    have hbits : l ++ bitsOf (b :: bs) = (l ++ octetBits b) ++ bitsOf bs := by simp [bitsOf]
    have hread := decodeSymbols_read (l ++ octetBits b) out
    have hlen : (l ++ octetBits b).length = l.length + 8 := by simp [octetBits]
    rw [hlen,← value_append_octet] at hread
    rw [hbits]
    simp only [decodeOctets]
    cases hd : decodeSymbols (BitString.value l <<< 8 ||| b.toNat) (l.length + 8) out with
    | none =>
      obtain ⟨s,e,r,he,hsplit⟩ := hd ▸ hread
      exact ⟨s,e,r ++ bitsOf bs,he,by simp [hsplit]⟩
    | some st =>
      obtain ⟨acc,nbits,out'⟩ := st
      obtain ⟨s,r,rfl,rfl,rfl,hr,hsplit⟩ := hd ▸ hread
      rw [hsplit,List.append_assoc]
      exact Read.prepend s (ih r (out ++ s) hr)

theorem nil_stuck : PrefixCode.Stuck codeWord [] := replicate_true_stuck (k := 0) (by omega)

theorem ofOctet_injective : Function.Injective ofOctet := by
  intro a b h
  simp only [ofOctet,Fin.mk.injEq] at h
  exact UInt8.toNat_inj.mp h

/-- Decoding inverts every coding of the table. -/
theorem decodeHuffman_coded {data s : List UInt8} (h : HuffmanCoded data s) :
    decodeHuffman data = some s := by
  obtain ⟨k,hk,hbits⟩ := h
  have hpad := replicate_true_stuck hk
  have hread := decodeOctets_read data [] [] nil_stuck
  simp only [BitString.value,List.length_nil,List.nil_append,hbits] at hread
  rw [decodeHuffman]
  cases hd : decodeOctets data 0 0 [] with
  | none =>
    obtain ⟨t,e,r,he,hsplit⟩ := hd ▸ hread
    have hmem := PrefixCode.parsed_initial codeWord_prefixFree hpad hsplit.symm
    obtain ⟨b,_,rfl⟩ := List.mem_map.mp (hmem.subset (by simp : e ∈ t.map ofOctet ++ [e]))
    have := b.toNat_lt
    simp only [ofOctet] at he
    omega
  | some st =>
    obtain ⟨acc,nbits,out⟩ := st
    obtain ⟨t,r,rfl,rfl,rfl,hr,hsplit⟩ := hd ▸ hread
    obtain ⟨hts,rfl⟩ := PrefixCode.parse_unique codeWord_prefixFree hr hpad hsplit.symm
    have hval : BitString.value (List.replicate k true) = (1 <<< k) - 1 := by
      rw [Nat.one_shiftLeft,BitString.value_replicate_true]
    simp only [List.length_replicate,hval]
    rw [if_neg (by omega),if_neg (by simp),List.map_injective_iff.mpr ofOctet_injective hts]

/-- The inner `while` of `huffman_encode`: emit the complete octets. -/
def emitOctets (acc nbits : ℕ) (out : List UInt8) : ℕ × ℕ × List UInt8 :=
  if 8 ≤ nbits then
    emitOctets (acc &&& ((1 <<< (nbits - 8)) - 1)) (nbits - 8)
      (out ++ [(acc >>> (nbits - 8)).toUInt8])
  else (acc,nbits,out)
termination_by nbits

def encodeOctets : List UInt8 → ℕ → ℕ → List UInt8 → ℕ × ℕ × List UInt8
  | [], acc, nbits, out => (acc,nbits,out)
  | b :: bs, acc, nbits, out =>
    let entry := huff.get (ofOctet b)
    let r := emitOctets ((acc <<< entry.2) ||| entry.1) (nbits + entry.2) out
    encodeOctets bs r.1 r.2.1 r.2.2

def huffmanEncode (src : List UInt8) : List UInt8 :=
  let r := encodeOctets src 0 0 []
  if 0 < r.2.1 then
    let pad := 8 - r.2.1
    r.2.2 ++ [((r.1 <<< pad) ||| ((1 <<< pad) - 1)).toUInt8]
  else r.2.2

theorem octetBits_value {l : List Bool} (h : l.length = 8) :
    octetBits (BitString.value l).toUInt8 = l := by
  have hlt : BitString.value l < 256 := by have := BitString.value_lt l; rwa [h] at this
  rw [octetBits,Nat.toUInt8_eq,UInt8.toNat_ofNat',Nat.mod_eq_of_lt hlt,← h,BitString.bits_value]

theorem emitOctets_spec (l : List Bool) (out : List UInt8) :
    ∃ (r : List Bool) (out' : List UInt8), r.length < 8 ∧
      emitOctets (BitString.value l) l.length out = (BitString.value r,r.length,out') ∧
      bitsOf out' ++ r = bitsOf out ++ l := by
  induction hn : l.length using Nat.strong_induction_on generalizing l out with
  | _ n ih =>
    subst hn
    rw [emitOctets]
    split_ifs with h8
    · have hlen : (l.drop 8).length = l.length - 8 := by simp
      have hoctet : octetBits (BitString.value l >>> (l.length - 8)).toUInt8 = l.take 8 := by
        rw [Nat.shiftRight_eq_div_pow,← BitString.value_take]
        exact octetBits_value (by simp; omega)
      obtain ⟨r,out',hr,he,hbits⟩ := ih (l.length - 8) (by omega) (l.drop 8)
        (out ++ [(BitString.value l >>> (l.length - 8)).toUInt8]) hlen
      refine ⟨r,out',hr,by rw [value_masked,he],?_⟩
      rw [hbits]
      simp [bitsOf,hoctet]
    · exact ⟨l,out,by omega,rfl,rfl⟩

theorem value_append_codeWord (l : List Bool) (s : Symbol) :
    (BitString.value l <<< (huff.get s).2) ||| (huff.get s).1 =
      BitString.value (l ++ codeWord s) := by
  rw [← Nat.shiftLeft_add_eq_or_of_lt (huff_fits s),BitString.value_append,codeWord,
    PrefixCode.word,BitString.value_bits,BitString.bits_length,Nat.shiftLeft_eq,
    Nat.mod_eq_of_lt (huff_fits s)]

theorem encodeOctets_spec (src : List UInt8) (l : List Bool) (out : List UInt8)
    (hl : l.length < 8) :
    ∃ (r : List Bool) (out' : List UInt8), r.length < 8 ∧
      encodeOctets src (BitString.value l) l.length out = (BitString.value r,r.length,out') ∧
      bitsOf out' ++ r =
        bitsOf out ++ l ++ PrefixCode.encode codeWord (src.map ofOctet) := by
  induction src generalizing l out with
  | nil => exact ⟨l,out,hl,rfl,by simp⟩
  | cons b bs ih =>
    obtain ⟨m,mid,hm,hemit,hmid⟩ := emitOctets_spec (l ++ codeWord (ofOctet b)) out
    have hlen : (l ++ codeWord (ofOctet b)).length = l.length + (huff.get (ofOctet b)).2 := by
      simp [codeWord,PrefixCode.word]
    rw [hlen,← value_append_codeWord] at hemit
    obtain ⟨r,out',hr,he,hbits⟩ := ih m mid hm
    refine ⟨r,out',hr,?_,?_⟩
    · simp only [encodeOctets,hemit,he]
    · rw [hbits,hmid]
      simp

theorem huffmanEncode_coded (s : List UInt8) : HuffmanCoded (huffmanEncode s) s := by
  obtain ⟨r,out,hr,he,hbits⟩ := encodeOctets_spec s [] [] (by simp)
  simp only [BitString.value,List.length_nil] at he
  have hbits' : bitsOf out ++ r = PrefixCode.encode codeWord (s.map ofOctet) := by
    simpa [bitsOf] using hbits
  simp only [huffmanEncode,he]
  split_ifs with hpos
  · refine ⟨8 - r.length,by omega,?_⟩
    have hfill : (BitString.value r <<< (8 - r.length)) ||| ((1 <<< (8 - r.length)) - 1) =
        BitString.value (r ++ List.replicate (8 - r.length) true) := by
      have hlt : (1 <<< (8 - r.length)) - 1 < 2 ^ (8 - r.length) := by
        rw [Nat.one_shiftLeft]
        have : 0 < 2 ^ (8 - r.length) := by positivity
        omega
      rw [← Nat.shiftLeft_add_eq_or_of_lt hlt,BitString.value_append,
        BitString.value_replicate_true,Nat.shiftLeft_eq,Nat.one_shiftLeft,List.length_replicate]
    have hoctet : octetBits (BitString.value (r ++ List.replicate (8 - r.length) true)).toUInt8 =
        r ++ List.replicate (8 - r.length) true := octetBits_value (by simp; omega)
    rw [hfill,← hbits']
    simp [bitsOf,hoctet]
  · have hnil : r = [] := List.length_eq_zero_iff.mp (by omega)
    exact ⟨0,by omega,by rw [← hbits',hnil]; simp⟩

end Hpack
end ObsAgent
