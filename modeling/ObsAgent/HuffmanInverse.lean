import ObsAgent.Huffman

/-! The Huffman decoder accepts nothing but what the encoder writes, and neither
loop leaves its 64-bit word: the code is complete, so fewer than 30 bits are ever
pending when the next octet is shifted in. -/
namespace ObsAgent
namespace Hpack

theorem bitsOf_length (bs : List UInt8) : (bitsOf bs).length = 8 * bs.length := by
  induction bs with
  | nil => rfl
  | cons b bs ih =>
    simp only [bitsOf,List.flatMap_cons,List.length_append,List.length_cons] at ih ⊢
    rw [ih]
    simp only [octetBits,BitString.bits_length]
    omega

theorem octetBits_injective : Function.Injective octetBits := by
  intro a b h
  have hval := congrArg BitString.value h
  simp only [octetBits,BitString.value_bits,Nat.mod_eq_of_lt a.toNat_lt,
    Nat.mod_eq_of_lt b.toNat_lt] at hval
  exact UInt8.toNat_inj.mp hval

theorem bitsOf_injective : Function.Injective bitsOf := by
  intro a
  induction a with
  | nil =>
    intro b h
    have hlen := congrArg List.length h
    simp only [bitsOf_length,List.length_nil] at hlen
    exact (List.length_eq_zero_iff.mp (by omega)).symm
  | cons x xs ih =>
    intro b h
    cases b with
    | nil =>
      have hlen := congrArg List.length h
      simp [bitsOf_length] at hlen
    | cons y ys =>
      simp only [bitsOf,List.flatMap_cons] at h
      obtain ⟨hxy,hrest⟩ := List.append_inj h (by simp [octetBits])
      rw [octetBits_injective hxy,ih hrest]

/-- An octet string has one coding: the padding is forced by the octet boundary. -/
theorem HuffmanCoded.unique {a b s : List UInt8} (ha : HuffmanCoded a s) (hb : HuffmanCoded b s) :
    a = b := by
  obtain ⟨j,hj,ha⟩ := ha
  obtain ⟨k,hk,hb⟩ := hb
  have hla := congrArg List.length ha
  have hlb := congrArg List.length hb
  simp only [bitsOf_length,List.length_append,List.length_replicate] at hla hlb
  have hjk : j = k := by omega
  apply bitsOf_injective
  rw [ha,hb,hjk]

/-- What the decoder accepts is a coding of what it returns. -/
theorem coded_of_decodeHuffman {data s : List UInt8} (h : decodeHuffman data = some s) :
    HuffmanCoded data s := by
  have hread := decodeOctets_read data [] [] nil_stuck
  simp only [BitString.value,List.length_nil,List.nil_append] at hread
  rw [decodeHuffman] at h
  cases hd : decodeOctets data 0 0 [] with
  | none => simp [hd] at h
  | some st =>
    obtain ⟨acc,nbits,out⟩ := st
    obtain ⟨t,r,hout,rfl,rfl,hr,hsplit⟩ := hd ▸ hread
    simp only [hd] at h
    split_ifs at h with hlong hpad
    have ht : s = t := by simpa [hout] using h.symm
    subst ht
    have hones : r = List.replicate r.length true := by
      apply BitString.value_injective (by simp)
      rw [BitString.value_replicate_true]
      by_cases hpos : 0 < r.length
      · have hval : BitString.value r = (1 <<< r.length) - 1 := by
          by_contra hne
          exact hpad ⟨hpos,hne⟩
        rwa [Nat.one_shiftLeft] at hval
      · have hnil : r = [] := List.length_eq_zero_iff.mp (by omega)
        simp [hnil,BitString.value]
    exact ⟨r.length,by omega,by rw [hsplit,← hones]⟩

theorem decodeHuffman_iff_coded {data s : List UInt8} :
    decodeHuffman data = some s ↔ HuffmanCoded data s :=
  ⟨coded_of_decodeHuffman,decodeHuffman_coded⟩

/-- The completeness of the table: 30 pending bits always start with a code word. -/
theorem stuck_length {l : List Bool} (h : PrefixCode.Stuck codeWord l) : l.length < 30 := by
  by_contra hlen
  obtain ⟨p,hp,hlead⟩ := PrefixCode.word_leads_of_tiles (List.perm_insertionSort _ huff) huff_tiles
    (Nat.not_lt.mp hlen)
  obtain ⟨i,rfl⟩ := List.get_of_mem hp
  exact h i hlead

/-- The locals of a loop and the source octets still ahead. -/
structure WordLoop where
  acc : ℕ
  nbits : ℕ
  rest : List UInt8
  out : List UInt8
  deriving DecidableEq, Repr

def WordLoop.start (src : List UInt8) : WordLoop := ⟨0,0,src,[]⟩

/-- One turn of `decode_huffman`: a symbol while `match_huff` finds one, the next
octet when it does not.  Nothing follows EOS or the last octet. -/
def WordLoop.decodeTurn (st : WordLoop) : Option WordLoop :=
  match matchHuff st.acc st.nbits with
  | some (sym,used) =>
    if sym > 255 then none
    else some { st with
      acc := st.acc &&& ((1 <<< (st.nbits - used)) - 1)
      nbits := st.nbits - used
      out := st.out ++ [sym.toUInt8] }
  | none =>
    match st.rest with
    | [] => none
    | b :: bs => some { st with acc := (st.acc <<< 8) ||| b.toNat, nbits := st.nbits + 8, rest := bs }

/-- One turn of `huffman_encode`: an octet out while eight bits are pending, else
the code of the next octet in. -/
def WordLoop.encodeTurn (st : WordLoop) : Option WordLoop :=
  if 8 ≤ st.nbits then
    some { st with
      acc := st.acc &&& ((1 <<< (st.nbits - 8)) - 1)
      nbits := st.nbits - 8
      out := st.out ++ [(st.acc >>> (st.nbits - 8)).toUInt8] }
  else
    match st.rest with
    | [] => none
    | b :: bs =>
      let entry := huff.get (ofOctet b)
      some { st with
        acc := (st.acc <<< entry.2) ||| entry.1
        nbits := st.nbits + entry.2
        rest := bs }

/-- What `decode_huffman` returns from the state in which its loop ends: nothing behind EOS, else
what the padding decides. -/
def WordLoop.verdict (st : WordLoop) : Option (List UInt8) :=
  if (matchHuff st.acc st.nbits).isSome then none
  else if st.nbits > 7 then none
  else if st.nbits > 0 ∧ st.acc ≠ (1 <<< st.nbits) - 1 then none
  else some st.out

/-- What `huffman_encode` returns from the state in which its loop ends. -/
def WordLoop.padded (st : WordLoop) : List UInt8 :=
  if 0 < st.nbits then
    st.out ++ [((st.acc <<< (8 - st.nbits)) ||| ((1 <<< (8 - st.nbits)) - 1)).toUInt8]
  else st.out

/-- The states a loop passes through on a source string. -/
def WordLoop.Visits (turn : WordLoop → Option WordLoop) (src : List UInt8) (st : WordLoop) : Prop :=
  Relation.ReflTransGen (fun a b => turn a = some b) (WordLoop.start src) st

/-- The word holds a bit string of at most 37 bits. -/
def WordLoop.Fits (st : WordLoop) : Prop :=
  ∃ l : List Bool, st.acc = BitString.value l ∧ st.nbits = l.length ∧ l.length ≤ 37

theorem WordLoop.Fits.bounds {st : WordLoop} (h : st.Fits) :
    st.acc < 2 ^ st.nbits ∧ st.nbits ≤ 37 := by
  obtain ⟨l,hacc,hn,hlen⟩ := h
  rw [hacc,hn]
  exact ⟨BitString.value_lt l,hlen⟩

theorem WordLoop.Fits.decodeTurn {st st' : WordLoop} (h : st.Fits)
    (hturn : st.decodeTurn = some st') : st'.Fits := by
  obtain ⟨l,hacc,hn,hlen⟩ := h
  simp only [WordLoop.decodeTurn,hacc,hn] at hturn
  split at hturn
  · rename_i sym used hm
    split_ifs at hturn
    cases hturn
    exact ⟨l.drop used,value_masked l used,by simp,by simp; omega⟩
  · rename_i hm
    split at hturn
    · cases hturn
    · rename_i b bs hrest
      cases hturn
      have hstuck := stuck_length (matchHuff_eq_none hm)
      refine ⟨l ++ octetBits b,value_append_octet l b,?_,?_⟩ <;>
        simp only [List.length_append,octetBits,BitString.bits_length]
      omega

theorem WordLoop.Fits.encodeTurn {st st' : WordLoop} (h : st.Fits)
    (hturn : st.encodeTurn = some st') : st'.Fits := by
  obtain ⟨l,hacc,hn,hlen⟩ := h
  simp only [WordLoop.encodeTurn,hacc,hn] at hturn
  split_ifs at hturn with h8
  · cases hturn
    exact ⟨l.drop 8,value_masked l 8,by simp,by simp; omega⟩
  · split at hturn
    · cases hturn
    · rename_i b bs hrest
      cases hturn
      have hwidth : ∀ p ∈ huff, p.2 ≤ 30 := by decide +kernel
      have hw := hwidth _ (List.get_mem huff (ofOctet b))
      refine ⟨l ++ codeWord (ofOctet b),value_append_codeWord l (ofOctet b),?_,?_⟩ <;>
        simp only [List.length_append,codeWord,PrefixCode.word,BitString.bits_length]
      omega

theorem WordLoop.start_fits (src : List UInt8) : (WordLoop.start src).Fits :=
  ⟨[],rfl,rfl,by simp⟩

theorem WordLoop.Visits.fits {turn : WordLoop → Option WordLoop} {src : List UInt8}
    {st : WordLoop} (hturn : ∀ {a b : WordLoop}, a.Fits → turn a = some b → b.Fits)
    (h : WordLoop.Visits turn src st) : st.Fits := by
  induction h with
  | refl => exact WordLoop.start_fits src
  | tail _ hstep ih => exact hturn ih hstep

/-- The next symbol is EOS, the only one that is no octet. -/
def WordLoop.Refused (st : WordLoop) : Prop :=
  ∃ sym used, matchHuff st.acc st.nbits = some (sym,used) ∧ sym > 255

theorem WordLoop.Refused.ends {st : WordLoop} (h : st.Refused) :
    st.decodeTurn = none ∧ st.verdict = none := by
  obtain ⟨sym,used,hm,hbig⟩ := h
  simp [WordLoop.decodeTurn,WordLoop.verdict,hm,hbig]

/-- The inner loop goes through the turns up to a symbol that it refuses, or one that is not whole. -/
theorem decodeSymbols_turns (acc nbits : ℕ) (rest out : List UInt8) :
    ∃ st, Relation.ReflTransGen (fun a b => WordLoop.decodeTurn a = some b) ⟨acc,nbits,rest,out⟩ st ∧
      (decodeSymbols acc nbits out = none ∧ st.Refused ∨
        decodeSymbols acc nbits out = some (st.acc,st.nbits,st.out) ∧ st.rest = rest ∧
          matchHuff st.acc st.nbits = none) := by
  induction nbits using Nat.strong_induction_on generalizing acc out with
  | _ nbits ih =>
    rw [decodeSymbols]
    split
    · rename_i hm
      exact ⟨_,.refl,.inr ⟨rfl,rfl,hm⟩⟩
    · rename_i sym used hm
      have hused := matchHuff_used hm
      split_ifs with heos hbig
      · exact ⟨_,.refl,.inl ⟨rfl,sym,used,hm,by omega⟩⟩
      · exact ⟨_,.refl,.inl ⟨rfl,sym,used,hm,hbig⟩⟩
      · obtain ⟨st,hrun,hend⟩ := ih (nbits - used) (by omega) _ (out ++ [sym.toUInt8])
        refine ⟨st,.head ?_ hrun,hend⟩
        simp only [WordLoop.decodeTurn,hm,if_neg hbig]

theorem decodeOctets_turns {src : List UInt8} {acc nbits : ℕ} (out : List UInt8)
    (hm : matchHuff acc nbits = none) :
    ∃ st, Relation.ReflTransGen (fun a b => WordLoop.decodeTurn a = some b) ⟨acc,nbits,src,out⟩ st ∧
      (decodeOctets src acc nbits out = none ∧ st.Refused ∨
        decodeOctets src acc nbits out = some (st.acc,st.nbits,st.out) ∧ st.rest = [] ∧
          matchHuff st.acc st.nbits = none) := by
  induction src generalizing acc nbits out with
  | nil => exact ⟨_,.refl,.inr ⟨rfl,rfl,hm⟩⟩
  | cons b bs ih =>
    have hfirst : WordLoop.decodeTurn ⟨acc,nbits,b :: bs,out⟩ =
        some ⟨(acc <<< 8) ||| b.toNat,nbits + 8,bs,out⟩ := by
      simp only [WordLoop.decodeTurn,hm]
    obtain ⟨mid,hrun,hend⟩ := decodeSymbols_turns ((acc <<< 8) ||| b.toNat) (nbits + 8) bs out
    rcases hend with ⟨hnone,hrefused⟩ | ⟨hsome,hrest,hm'⟩
    · exact ⟨mid,.head hfirst hrun,.inl ⟨by simp only [decodeOctets,hnone],hrefused⟩⟩
    · obtain ⟨st,hlater,hend⟩ := ih mid.out hm'
      simp only [decodeOctets,hsome]
      refine ⟨st,.head hfirst (hrun.trans ?_),hend⟩
      rwa [← hrest] at hlater

/-- The decoder returns the verdict of the state in which the turns end, whether it accepts or not. -/
theorem decodeHuffman_visits (src : List UInt8) :
    ∃ st, WordLoop.Visits WordLoop.decodeTurn src st ∧ st.decodeTurn = none ∧
      decodeHuffman src = st.verdict := by
  obtain ⟨st,hrun,hend⟩ : ∃ st, WordLoop.Visits WordLoop.decodeTurn src st ∧ _ :=
    decodeOctets_turns [] (by decide +kernel)
  refine ⟨st,hrun,?_⟩
  rcases hend with ⟨hnone,hrefused⟩ | ⟨hsome,hrest,hm⟩
  · rw [decodeHuffman,hnone]
    exact ⟨hrefused.ends.1,hrefused.ends.2.symm⟩
  · rw [decodeHuffman,hsome]
    simp [WordLoop.decodeTurn,WordLoop.verdict,hm,hrest]

theorem emitOctets_turns (acc nbits : ℕ) (rest out : List UInt8) :
    Relation.ReflTransGen (fun a b => WordLoop.encodeTurn a = some b) ⟨acc,nbits,rest,out⟩
      ⟨(emitOctets acc nbits out).1,(emitOctets acc nbits out).2.1,rest,
        (emitOctets acc nbits out).2.2⟩ ∧ (emitOctets acc nbits out).2.1 < 8 := by
  fun_induction emitOctets acc nbits out with
  | case1 acc nbits out h8 ih =>
    refine ⟨.head ?_ ih.1,ih.2⟩
    simp only [WordLoop.encodeTurn,if_pos h8]
  | case2 acc nbits out h8 => exact ⟨.refl,Nat.not_le.mp h8⟩

theorem encodeOctets_turns (src : List UInt8) {acc nbits : ℕ} (out : List UInt8)
    (hn : nbits < 8) :
    Relation.ReflTransGen (fun a b => WordLoop.encodeTurn a = some b) ⟨acc,nbits,src,out⟩
      ⟨(encodeOctets src acc nbits out).1,(encodeOctets src acc nbits out).2.1,[],
        (encodeOctets src acc nbits out).2.2⟩ ∧ (encodeOctets src acc nbits out).2.1 < 8 := by
  induction src generalizing acc nbits out with
  | nil => exact ⟨.refl,hn⟩
  | cons b bs ih =>
    obtain ⟨hrun,hend⟩ := emitOctets_turns ((acc <<< (huff.get (ofOctet b)).2) |||
      (huff.get (ofOctet b)).1) (nbits + (huff.get (ofOctet b)).2) bs out
    obtain ⟨hlater,hlast⟩ := ih _ hend
    refine ⟨.head ?_ (hrun.trans hlater),hlast⟩
    simp only [WordLoop.encodeTurn,if_neg (Nat.not_le.mpr hn)]

theorem huffmanEncode_visits (s : List UInt8) :
    ∃ st, WordLoop.Visits WordLoop.encodeTurn s st ∧ st.encodeTurn = none ∧
      huffmanEncode s = st.padded := by
  have hstart : 0 < 8 := by omega
  obtain ⟨hrun,hlast⟩ := encodeOctets_turns s [] hstart
  refine ⟨_,hrun,?_,rfl⟩
  simp only [WordLoop.encodeTurn,if_neg (Nat.not_le.mpr hlast)]

/-- Decoding and encoding are inverse to each other, what is accepted is the coding
of RFC 7541, and both loops stay inside their words: those are the turns that either function
makes, on what it rejects as well. -/
theorem decodeHuffman_exact_inverse (b s : List UInt8) :
    decodeHuffman (huffmanEncode s) = some s ∧
    (decodeHuffman b = some s ↔ b = huffmanEncode s) ∧
    (decodeHuffman b = some s ↔ HuffmanCoded b s) ∧
    (∀ st, WordLoop.Visits WordLoop.decodeTurn b st → st.acc < 2 ^ st.nbits ∧ st.nbits ≤ 37 ∧
      ∀ sym used, matchHuff st.acc st.nbits = some (sym,used) → used ≤ st.nbits ∧
        st.acc &&& ((1 <<< (st.nbits - used)) - 1) < 2 ^ (st.nbits - used)) ∧
    (∀ st, WordLoop.Visits WordLoop.encodeTurn s st → st.acc < 2 ^ st.nbits ∧ st.nbits ≤ 37) ∧
    (∃ st, WordLoop.Visits WordLoop.decodeTurn b st ∧ st.decodeTurn = none ∧
      decodeHuffman b = st.verdict) ∧
    ∃ st, WordLoop.Visits WordLoop.encodeTurn s st ∧ st.encodeTurn = none ∧
      huffmanEncode s = st.padded := by
  have hcoded := huffmanEncode_coded s
  refine ⟨decodeHuffman_coded hcoded,⟨fun h => ?_,fun h => ?_⟩,decodeHuffman_iff_coded,?_,?_,
    decodeHuffman_visits b,huffmanEncode_visits s⟩
  · exact (coded_of_decodeHuffman h).unique hcoded
  · exact h ▸ decodeHuffman_coded hcoded
  · intro st hst
    obtain ⟨hacc,hn⟩ := (hst.fits WordLoop.Fits.decodeTurn).bounds
    refine ⟨hacc,hn,fun sym used hm => ⟨(matchHuff_used hm).2,?_⟩⟩
    rw [Nat.one_shiftLeft,Nat.and_two_pow_sub_one_eq_mod]
    exact Nat.mod_lt _ (by positivity)
  · intro st hst
    exact (hst.fits WordLoop.Fits.encodeTurn).bounds

end Hpack
end ObsAgent
