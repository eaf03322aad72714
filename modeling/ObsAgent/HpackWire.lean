import ObsAgent.Rfc7541

/-! The decoder on the octets of the format.  Every integer with at most five
continuation octets is read exactly and every longer one is refused, so a decoded
representation is the one that was written. -/
namespace ObsAgent
namespace Hpack

open Rfc7541

theorem and_0x80_eq_zero (b : UInt8) : b &&& 0x80 = 0 ↔ b.toNat < 128 := by
  have hall : ∀ n < 256, n &&& 128 = 0 ↔ n < 128 := by decide +kernel
  rw [← hall b.toNat b.toNat_lt,← UInt8.toNat_inj]
  simp

theorem and_0x40_eq_zero {b : UInt8} (hb : b.toNat < 128) : b &&& 0x40 = 0 ↔ b.toNat < 64 := by
  have hall : ∀ n < 128, n &&& 64 = 0 ↔ n < 64 := by decide +kernel
  rw [← hall b.toNat hb,← UInt8.toNat_inj]
  simp

theorem and_0x20_eq_zero {b : UInt8} (hb : b.toNat < 64) : b &&& 0x20 = 0 ↔ b.toNat < 32 := by
  have hall : ∀ n < 64, n &&& 32 = 0 ↔ n < 32 := by decide +kernel
  rw [← hall b.toNat hb,← UInt8.toNat_inj]
  simp

theorem toNat_and_0x7f (b : UInt8) : (b &&& 0x7f).toNat = b.toNat % 128 := by
  rw [UInt8.toNat_and]
  exact Nat.and_two_pow_sub_one_eq_mod b.toNat 7

/-- The prefix widths the format uses. -/
def Width (n : ℕ) : Prop := n = 4 ∨ n = 5 ∨ n = 6 ∨ n = 7

theorem toNat_mask {n : ℕ} (hn : Width n) : ((1 <<< n.toUInt8 - 1 : UInt8)).toNat = 2^n - 1 := by
  rcases hn with rfl | rfl | rfl | rfl <;> decide

theorem toNat_and_mask {n : ℕ} (hn : Width n) (b : UInt8) :
    (b &&& (1 <<< n.toUInt8 - 1)).toNat = b.toNat % 2^n := by
  rw [UInt8.toNat_and,toNat_mask hn,Nat.and_two_pow_sub_one_eq_mod]

theorem continuation_ne_nil {w : ℕ} {cont : List UInt8} (h : Continuation w cont) :
    1 ≤ cont.length := by
  cases h <;> simp

/-- The loop reads a continuation exactly while the shift stays within 28 bits. -/
theorem decodeIntLoop_continuation {w : ℕ} {cont : List UInt8} (h : Continuation w cont)
    (rest : List UInt8) (v shift : ℕ) (hshift : shift ≤ 28) :
    decodeIntLoop (cont ++ rest) v shift =
      if shift + 7*cont.length ≤ 35 then some (v + w*2^shift,rest) else none := by
  induction h generalizing v shift with
  | @last b hb =>
    have hval : (b &&& 0x7f).toNat = b.toNat := by
      rw [toNat_and_0x7f,Nat.mod_eq_of_lt hb]
    simp only [List.singleton_append,decodeIntLoop,hval,Nat.shiftLeft_eq]
    rw [if_pos ((and_0x80_eq_zero b).mpr hb),if_pos (by simp only [List.length_singleton]; omega)]
  | @more b w bs hb hcont ih =>
    have hlen := continuation_ne_nil hcont
    have hval : (b &&& 0x7f).toNat = b.toNat - 128 := by
      have := b.toNat_lt
      rw [toNat_and_0x7f]
      omega
    have hflag : ¬ b &&& 0x80 = 0 := by rw [and_0x80_eq_zero]; omega
    simp only [List.cons_append,decodeIntLoop,hval,Nat.shiftLeft_eq,if_neg hflag,
      List.length_cons]
    split_ifs with hover hfit hfit
    · omega
    · rfl
    · rw [ih _ _ (by omega),if_pos (by omega)]
      congr 2
      rw [pow_add]
      ring
    · rw [ih _ _ (by omega),if_neg (by omega)]

theorem decodeInt_code {n v : ℕ} {b : UInt8} {cont : List UInt8} (hn : Width n)
    (h : IntCode n v b cont) (rest : List UInt8) :
    decodeInt (b :: (cont ++ rest)) n =
      if cont.length ≤ 5 then some (v,rest) else none := by
  simp only [decodeInt,toNat_mask hn,toNat_and_mask hn]
  cases h with
  | short hv hlt => simp [hv,hlt]
  | @long w cont hsat hv hcont =>
    rw [hsat,if_neg (lt_irrefl _),decodeIntLoop_continuation hcont _ _ _ (by omega),hv]
    simp only [Nat.zero_add,pow_zero,Nat.mul_one]
    congr 1
    exact propext ⟨fun h => by omega,fun h => by omega⟩

theorem literalBytes_coded {s : Literal} {data : List UInt8}
    (h : if s.huffman then HuffmanCoded data s.text else data = s.text) :
    literalBytes s.huffman data = some s.text := by
  cases hh : s.huffman with
  | true =>
    simp only [hh,if_true] at h
    simp [literalBytes,decodeHuffman_coded h]
  | false =>
    simp only [hh,Bool.false_eq_true,if_false] at h
    simp [literalBytes,h]

theorem decodeString_code {s : Literal} {b : UInt8} {cont data : List UInt8}
    (hint : IntCode 7 data.length b cont) (hflag : 128 ≤ b.toNat ↔ s.huffman = true)
    (hdata : if s.huffman then HuffmanCoded data s.text else data = s.text)
    (rest : List UInt8) :
    decodeString (b :: (cont ++ data) ++ rest) =
      if cont.length ≤ 5 then (fromUtf8 s.text).map fun t => (t,rest) else none := by
  have hread := decodeInt_code (n := 7) (by simp [Width]) hint (data ++ rest)
  have hb : decide (b &&& 0x80 ≠ 0) = s.huffman := by
    rw [Bool.eq_iff_iff,← hflag,decide_eq_true_eq,Ne,and_0x80_eq_zero]
    omega
  simp only [List.cons_append,List.append_assoc,decodeString,hread,hb]
  split_ifs with hshort
  · simp [literalBytes_coded hdata]
  · rfl

namespace Decoder

theorem tryDecode_nil (d : Decoder) (out : Pseudo) : d.tryDecode [] out = some (d,out) := by
  rw [tryDecode]

theorem tryDecode_indexed (d : Decoder) {b : UInt8} (tail : List UInt8) (out : Pseudo)
    (hb : 128 ≤ b.toNat) :
    d.tryDecode (b :: tail) out = (decodeInt (b :: tail) 7).bind fun r =>
      (d.lookup r.1).bind fun e => d.tryDecode r.2 (apply out e.1 e.2) := by
  have hflag : b &&& 0x80 ≠ 0 := by rw [Ne,and_0x80_eq_zero]; omega
  rw [tryDecode,if_pos hflag]
  split
  · rename_i h; simp [h]
  · rename_i idx rest h
    rw [h,Option.bind_some]
    split
    · rename_i hl; simp [hl]
    · rename_i n v hl; simp [hl]

theorem tryDecode_incremental (d : Decoder) {b : UInt8} (tail : List UInt8) (out : Pseudo)
    (hb : b.toNat / 64 = 1) :
    d.tryDecode (b :: tail) out = (d.decodeLiteral (b :: tail) 6).bind fun r =>
      (d.push r.1 r.2.1).tryDecode r.2.2 (apply out r.1 r.2.1) := by
  have hlt : b.toNat < 128 := by omega
  have h80 : ¬ b &&& 0x80 ≠ 0 := by rw [not_not,and_0x80_eq_zero]; exact hlt
  have h40 : b &&& 0x40 ≠ 0 := by rw [Ne,and_0x40_eq_zero hlt]; omega
  rw [tryDecode,if_neg h80,if_pos h40]
  split
  · rename_i h; simp [h]
  · rename_i name value rest h; simp [h]

theorem tryDecode_sizeUpdate (d : Decoder) {b : UInt8} (tail : List UInt8) (out : Pseudo)
    (hb : b.toNat / 32 = 1) :
    d.tryDecode (b :: tail) out = (decodeInt (b :: tail) 5).bind fun r =>
      (d.setMaxSize r.1).bind fun d' => d'.tryDecode r.2 out := by
  have hlt : b.toNat < 128 := by omega
  have h80 : ¬ b &&& 0x80 ≠ 0 := by rw [not_not,and_0x80_eq_zero]; exact hlt
  have h40 : ¬ b &&& 0x40 ≠ 0 := by rw [not_not,and_0x40_eq_zero hlt]; omega
  have h20 : b &&& 0x20 ≠ 0 := by rw [Ne,and_0x20_eq_zero (by omega)]; omega
  rw [tryDecode,if_neg h80,if_neg h40,if_pos h20]
  split
  · rename_i h; simp [h]
  · rename_i size rest h
    rw [h,Option.bind_some]
    split
    · rename_i hs; simp [hs]
    · rename_i d' hs; simp [hs]

theorem tryDecode_plain (d : Decoder) {b : UInt8} (tail : List UInt8) (out : Pseudo)
    (hb : b.toNat < 32) :
    d.tryDecode (b :: tail) out = (d.decodeLiteral (b :: tail) 4).bind fun r =>
      d.tryDecode r.2.2 (apply out r.1 r.2.1) := by
  have hlt : b.toNat < 128 := by omega
  have h80 : ¬ b &&& 0x80 ≠ 0 := by rw [not_not,and_0x80_eq_zero]; exact hlt
  have h40 : ¬ b &&& 0x40 ≠ 0 := by rw [not_not,and_0x40_eq_zero hlt]; omega
  have h20 : ¬ b &&& 0x20 ≠ 0 := by rw [not_not,and_0x20_eq_zero (by omega)]; exact hb
  rw [tryDecode,if_neg h80,if_neg h40,if_neg h20]
  split
  · rename_i h; simp [h]
  · rename_i name value rest h; simp [h]

/-- The name a representation refers to, as the decoder resolves it. -/
def resolve (d : Decoder) : Name → Option String
  | .index i => (d.lookup i).map (·.1)
  | .literal s => fromUtf8 s.text

/-- The decoder's own reading of one representation. -/
def step (d : Decoder) : Rep → Option (Decoder × List Header)
  | .indexed i => (d.lookup i).map fun e => (d,[e])
  | .literal mode name value =>
    (d.resolve name).bind fun n => (fromUtf8 value.text).map fun v =>
      (if mode = .incremental then d.push n v else d,[(n,v)])
  | .sizeUpdate n => (d.setMaxSize n).map fun d' => (d',[])

def applyAll (out : Pseudo) (hs : List Header) : Pseudo := hs.foldl (fun p h => apply p h.1 h.2) out

end Decoder

/-- The octets are read back as this integer, string or representation wherever they
stand; otherwise the decoder refuses them wherever they stand. -/
def ReadsInt (n v : ℕ) (s : List UInt8) : Prop := ∀ rest, decodeInt (s ++ rest) n = some (v,rest)
def RefusesInt (n : ℕ) (s : List UInt8) : Prop := ∀ rest, decodeInt (s ++ rest) n = none

def ReadsString (l : Literal) (s : List UInt8) : Prop :=
  ∀ rest, decodeString (s ++ rest) = (fromUtf8 l.text).map fun t => (t,rest)
def RefusesString (s : List UInt8) : Prop := ∀ rest, decodeString (s ++ rest) = none

def ReadsRep (r : Rep) (s : List UInt8) : Prop :=
  ∀ (d : Decoder) (rest : List UInt8) (out : Pseudo), d.tryDecode (s ++ rest) out =
    (d.step r).bind fun q => q.1.tryDecode rest (Decoder.applyAll out q.2)
def RefusesRep (s : List UInt8) : Prop :=
  ∀ (d : Decoder) (rest : List UInt8) (out : Pseudo), d.tryDecode (s ++ rest) out = none

theorem readsInt_or_refuses {n v : ℕ} {b : UInt8} {cont : List UInt8} (hn : Width n)
    (h : IntCode n v b cont) : ReadsInt n v (b :: cont) ∨ RefusesInt n (b :: cont) := by
  by_cases hlen : cont.length ≤ 5
  · exact Or.inl fun rest => by simpa [hlen] using decodeInt_code hn h rest
  · exact Or.inr fun rest => by simpa [hlen] using decodeInt_code hn h rest

theorem readsString_or_refuses {l : Literal} {s : List UInt8} (h : StringCode l s) :
    ReadsString l s ∨ RefusesString s := by
  cases h with
  | @mk b cont data hint hflag hdata =>
    by_cases hlen : cont.length ≤ 5
    · exact Or.inl fun rest => by simpa [hlen] using decodeString_code hint hflag hdata rest
    · exact Or.inr fun rest => by simpa [hlen] using decodeString_code hint hflag hdata rest

theorem width_prefixBits (mode : Indexing) : Width mode.prefixBits := by
  cases mode <;> simp [Width,Indexing.prefixBits]

namespace Decoder

theorem decodeLiteral_index {n i : ℕ} {s s' : List UInt8} {l : Literal} (hi : i ≠ 0)
    (hint : ReadsInt n i s) (hval : ReadsString l s') (d : Decoder) (rest : List UInt8) :
    d.decodeLiteral (s ++ s' ++ rest) n = (d.resolve (.index i)).bind fun nm =>
      (fromUtf8 l.text).map fun v => (nm,v,rest) := by
  simp only [decodeLiteral,List.append_assoc,hint (s' ++ rest),if_neg hi,resolve]
  cases d.lookup i with
  | none => rfl
  | some e =>
    simp only [Option.map_some,Option.bind_some,hval rest,Option.map_map]
    rfl

theorem decodeLiteral_new {n : ℕ} {s s' s'' : List UInt8} {l l' : Literal}
    (hint : ReadsInt n 0 s) (hname : ReadsString l s') (hval : ReadsString l' s'')
    (d : Decoder) (rest : List UInt8) :
    d.decodeLiteral (s ++ (s' ++ s'') ++ rest) n = (d.resolve (.literal l)).bind fun nm =>
      (fromUtf8 l'.text).map fun v => (nm,v,rest) := by
  simp only [decodeLiteral,List.append_assoc,hint (s' ++ (s'' ++ rest)),hname (s'' ++ rest),
    if_true,resolve]
  cases fromUtf8 l.text with
  | none => rfl
  | some e =>
    simp only [Option.map_some,Option.bind_some,hval rest,Option.map_map]
    rfl

theorem decodeLiteral_refused {n i : ℕ} {s s' : List UInt8} (d : Decoder)
    (h : RefusesInt n s ∨ ReadsInt n i s ∧ i ≠ 0 ∧ RefusesString s') (rest : List UInt8) :
    d.decodeLiteral (s ++ s' ++ rest) n = none := by
  rcases h with h | ⟨hi,hne,h⟩
  · simp [decodeLiteral,h (s' ++ rest)]
  · simp only [decodeLiteral,List.append_assoc,hi (s' ++ rest),if_neg hne]
    cases d.lookup i <;> simp [h rest]

theorem decodeLiteral_new_refused {n : ℕ} {s s' s'' : List UInt8} {l : Literal} (d : Decoder)
    (hint : ReadsInt n 0 s)
    (h : RefusesString s' ∨ ReadsString l s' ∧ RefusesString s'') (rest : List UInt8) :
    d.decodeLiteral (s ++ (s' ++ s'') ++ rest) n = none := by
  simp only [decodeLiteral,List.append_assoc,hint (s' ++ (s'' ++ rest)),if_true]
  rcases h with h | ⟨hs,h⟩
  · simp [h (s'' ++ rest)]
  · rw [hs (s'' ++ rest)]
    cases fromUtf8 l.text <;> simp [h rest]

theorem tryDecode_literal (d : Decoder) (mode : Indexing) {b : UInt8} (tail : List UInt8)
    (out : Pseudo) (hb : b.toNat / 2^mode.prefixBits = mode.pattern) :
    d.tryDecode (b :: tail) out = (d.decodeLiteral (b :: tail) mode.prefixBits).bind fun r =>
      (if mode = .incremental then d.push r.1 r.2.1 else d).tryDecode r.2.2
        (apply out r.1 r.2.1) := by
  cases mode with
  | incremental =>
    exact tryDecode_incremental d tail out
      (by simpa [Indexing.prefixBits,Indexing.pattern] using hb)
  | without =>
    refine tryDecode_plain d tail out ?_
    simp only [Indexing.prefixBits,Indexing.pattern] at hb
    omega
  | never =>
    refine tryDecode_plain d tail out ?_
    simp only [Indexing.prefixBits,Indexing.pattern] at hb
    omega

end Decoder

theorem readsRep_indexed {i : ℕ} {b : UInt8} {cont : List UInt8} (hb : 128 ≤ b.toNat)
    (hint : ReadsInt 7 i (b :: cont)) : ReadsRep (.indexed i) (b :: cont) := by
  intro d rest out
  have h := hint rest
  rw [List.cons_append] at h ⊢
  rw [Decoder.tryDecode_indexed d _ out hb,h,Option.bind_some,Decoder.step]
  cases d.lookup i <;> rfl

theorem readsRep_sizeUpdate {n : ℕ} {b : UInt8} {cont : List UInt8} (hb : b.toNat / 32 = 1)
    (hint : ReadsInt 5 n (b :: cont)) : ReadsRep (.sizeUpdate n) (b :: cont) := by
  intro d rest out
  have h := hint rest
  rw [List.cons_append] at h ⊢
  rw [Decoder.tryDecode_sizeUpdate d _ out hb,h,Option.bind_some,Decoder.step]
  cases d.setMaxSize n <;> rfl

theorem readsRep_literal {mode : Indexing} {name : Name} {value : Literal} {b : UInt8}
    {tail : List UInt8} (hb : b.toNat / 2^mode.prefixBits = mode.pattern)
    (hlit : ∀ (d : Decoder) (rest : List UInt8),
      d.decodeLiteral (b :: tail ++ rest) mode.prefixBits = (d.resolve name).bind fun nm =>
        (fromUtf8 value.text).map fun v => (nm,v,rest)) :
    ReadsRep (.literal mode name value) (b :: tail) := by
  intro d rest out
  have h := hlit d rest
  rw [List.cons_append] at h ⊢
  rw [Decoder.tryDecode_literal d mode _ out hb,h,Decoder.step]
  cases d.resolve name with
  | none => rfl
  | some nm => cases fromUtf8 value.text <;> rfl

theorem refusesRep_literal {mode : Indexing} {b : UInt8} {tail : List UInt8}
    (hb : b.toNat / 2^mode.prefixBits = mode.pattern)
    (hlit : ∀ (d : Decoder) (rest : List UInt8),
      d.decodeLiteral (b :: tail ++ rest) mode.prefixBits = none) : RefusesRep (b :: tail) := by
  intro d rest out
  have h := hlit d rest
  rw [List.cons_append] at h ⊢
  rw [Decoder.tryDecode_literal d mode _ out hb,h]
  rfl

/-- Every octet form of a representation is read as that representation or refused. -/
theorem readsRep_or_refuses {r : Rep} {s : List UInt8} (h : RepCode r s) :
    ReadsRep r s ∨ RefusesRep s := by
  cases h with
  | @indexed i b cont hb hint =>
    rcases readsInt_or_refuses (by simp [Width]) hint with hr | hr
    · exact Or.inl (readsRep_indexed hb hr)
    · refine Or.inr fun d rest out => ?_
      have h := hr rest
      rw [List.cons_append] at h ⊢
      rw [Decoder.tryDecode_indexed d _ out hb,h]
      rfl
  | @sizeUpdate n b cont hb hint =>
    rcases readsInt_or_refuses (by simp [Width]) hint with hr | hr
    · exact Or.inl (readsRep_sizeUpdate hb hr)
    · refine Or.inr fun d rest out => ?_
      have h := hr rest
      rw [List.cons_append] at h ⊢
      rw [Decoder.tryDecode_sizeUpdate d _ out hb,h]
      rfl
  | @literalIndex mode i value b cont s hb hi hint hs =>
    rcases readsInt_or_refuses (width_prefixBits mode) hint with hr | hr
    · rcases readsString_or_refuses hs with hv | hv
      · exact Or.inl (readsRep_literal hb fun d rest =>
          Decoder.decodeLiteral_index hi hr hv d rest)
      · exact Or.inr (refusesRep_literal hb fun d rest =>
          Decoder.decodeLiteral_refused d (Or.inr ⟨hr,hi,hv⟩) rest)
    · exact Or.inr (refusesRep_literal hb fun d rest =>
        Decoder.decodeLiteral_refused (i := i) d (Or.inl hr) rest)
  | @literalNew mode name value b s s' hb hint hn hs =>
    have hr : ReadsInt mode.prefixBits 0 [b] := fun rest => by
      simpa using decodeInt_code (width_prefixBits mode) hint rest
    rcases readsString_or_refuses hn with hnr | hnr
    · rcases readsString_or_refuses hs with hv | hv
      · exact Or.inl (readsRep_literal hb fun d rest =>
          Decoder.decodeLiteral_new hr hnr hv d rest)
      · exact Or.inr (refusesRep_literal hb fun d rest =>
          Decoder.decodeLiteral_new_refused d hr (Or.inr ⟨hnr,hv⟩) rest)
    · exact Or.inr (refusesRep_literal hb fun d rest =>
        Decoder.decodeLiteral_new_refused (l := name) d hr (Or.inl hnr) rest)

end Hpack
end ObsAgent
