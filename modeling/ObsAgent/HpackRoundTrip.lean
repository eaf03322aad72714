import ObsAgent.HpackSync

/-! Decoding undoes encoding.  The encoder's octets are octets of the format; the
decoder reads every one of its integers and strings back; and as long as no index
leaves the bounded table, the decoder's table is the bounded table. -/
namespace ObsAgent
namespace Hpack

open Rfc7541 Trim

theorem toNat_toUInt8 {n : ℕ} (h : n < 256) : n.toUInt8.toNat = n := by
  simpa using h

theorem continuationOctets_code (w : ℕ) : Continuation w (continuationOctets w) := by
  fun_induction continuationOctets w with
  | case1 w h =>
    have hb : w.toUInt8.toNat = w := toNat_toUInt8 (by omega)
    have hc := Continuation.last (b := w.toUInt8) (by omega)
    rwa [hb] at hc
  | case2 w h ih =>
    have hb : (w % 128 + 128).toUInt8.toNat = w % 128 + 128 := toNat_toUInt8 (by omega)
    have hc := Continuation.more (b := (w % 128 + 128).toUInt8) (by omega) ih
    rw [hb] at hc
    have hw : w % 128 + 128 - 128 + 128*(w / 128) = w := by omega
    rwa [hw] at hc

theorem continuationOctets_length {k w : ℕ} (h : w < 2^(7*k)) (hk : 1 ≤ k) :
    (continuationOctets w).length ≤ k := by
  induction k generalizing w with
  | zero => omega
  | succ k ih =>
    rw [continuationOctets]
    split_ifs with hw
    · simp
    · have hpow : 2^(7*(k+1)) = 128 * 2^(7*k) := by rw [Nat.mul_succ,pow_add]; ring
      have hdiv : w / 128 < 2^(7*k) := Nat.div_lt_of_lt_mul (by omega)
      have hk1 : 1 ≤ k := by
        rcases Nat.eq_zero_or_pos k with rfl | hpos
        · simp at hdiv; omega
        · exact hpos
      have := ih hdiv hk1
      simp only [List.length_cons]
      omega

/-- The first octet keeps its high bits, and the integer is readable within five
continuation octets. -/
theorem encodeInt_code (n high v : ℕ) (hhigh : (high + 1)*2^n ≤ 256) :
    ∃ b cont, encodeInt n high v = b :: cont ∧ IntCode n v b cont ∧ b.toNat / 2^n = high ∧
      (v < 2^n - 1 + 2^35 → cont.length ≤ 5) := by
  have hpos : 0 < 2^n := Nat.two_pow_pos n
  have hexp : (high + 1)*2^n = high*2^n + 2^n := by ring
  have hfirst : ∀ x < 2^n, (high*2^n + x).toUInt8.toNat = high*2^n + x ∧
      (high*2^n + x) % 2^n = x ∧ (high*2^n + x) / 2^n = high := by
    intro x hx
    refine ⟨toNat_toUInt8 (by omega),?_,?_⟩
    · rw [Nat.mul_comm,Nat.mul_add_mod,Nat.mod_eq_of_lt hx]
    · rw [Nat.mul_comm,Nat.mul_add_div hpos,Nat.div_eq_of_lt hx,Nat.add_zero]
  simp only [encodeInt]
  split_ifs with hv
  · obtain ⟨hb,hmod,hdiv⟩ := hfirst v (by omega)
    exact ⟨_,[],rfl,IntCode.short (by rw [hb,hmod]) hv,by rw [hb,hdiv],fun _ => by simp⟩
  · obtain ⟨hb,hmod,hdiv⟩ := hfirst (2^n - 1) (by omega)
    refine ⟨_,_,rfl,IntCode.long (by rw [hb,hmod]) (by omega)
      (continuationOctets_code (v - (2^n - 1))),by rw [hb,hdiv],fun hlt => ?_⟩
    exact continuationOctets_length (by norm_num at hlt ⊢; omega) (by omega)

theorem readsInt_encodeInt (n high : ℕ) {v : ℕ} (hn : Width n) (hhigh : (high + 1)*2^n ≤ 256)
    (hv : v < 2^35) : ReadsInt n v (encodeInt n high v) := by
  obtain ⟨b,cont,heq,hcode,_,hlen⟩ := encodeInt_code n high v hhigh
  intro rest
  rw [heq,List.cons_append,decodeInt_code hn hcode,if_pos (hlen (by omega))]

theorem data_coded (s : Literal) :
    if s.huffman then HuffmanCoded s.data s.text else s.data = s.text := by
  cases hh : s.huffman <;> simp [Literal.data,hh,huffmanEncode_coded]

theorem encode_stringCode (s : Literal) : ∃ b cont, s.encode = b :: (cont ++ s.data) ∧
    IntCode 7 s.data.length b cont ∧ (128 ≤ b.toNat ↔ s.huffman = true) ∧
      (s.data.length < 2^35 → cont.length ≤ 5) := by
  obtain ⟨b,cont,heq,hcode,hb,hlen⟩ := encodeInt_code 7
    (if s.huffman then 1 else 0) s.data.length (by split_ifs <;> norm_num)
  refine ⟨b,cont,by simp [Literal.encode,heq],hcode,?_,fun h => hlen (by omega)⟩
  have := b.toNat_lt
  cases hh : s.huffman <;> simp [hh] at hb ⊢ <;> omega

theorem readsString_encode {s : Literal} (h : s.data.length < 2^35) :
    ReadsString s s.encode := by
  obtain ⟨b,cont,heq,hcode,hflag,hlen⟩ := encode_stringCode s
  intro rest
  rw [heq,decodeString_code hcode hflag (data_coded s),if_pos (hlen h)]

/-- A text the decoder can return: valid UTF-8, within the reach of a length prefix. -/
def Readable (s : Literal) : Prop := (fromUtf8 s.text).isSome ∧ s.data.length < 2^35

instance : DecidablePred Readable := fun s =>
  inferInstanceAs (Decidable ((fromUtf8 s.text).isSome ∧ s.data.length < 2^35))

def ReadableRep : Rep → Prop
  | .indexed _ => True
  | .literal _ (.index _) value => Readable value
  | .literal _ (.literal name) value => Readable name ∧ Readable value
  | .sizeUpdate _ => True

instance : DecidablePred ReadableRep
  | .indexed _ => inferInstanceAs (Decidable True)
  | .literal _ (.index _) value => inferInstanceAs (Decidable (Readable value))
  | .literal _ (.literal name) value => inferInstanceAs (Decidable (Readable name ∧ Readable value))
  | .sizeUpdate _ => inferInstanceAs (Decidable True)

/-- The integer in the first octets of a representation. -/
def firstInt : Rep → ℕ
  | .indexed i => i
  | .literal _ (.index i) _ => i
  | .literal _ (.literal _) _ => 0
  | .sizeUpdate n => n

theorem high_fits (mode : Indexing) : (mode.pattern + 1)*2^mode.prefixBits ≤ 256 := by
  cases mode <;> decide

theorem readsRep_encode {r : Rep} (h : ReadableRep r) (hint : firstInt r < 2^35)
    (hname : ∀ mode value, r ≠ .literal mode (.index 0) value) : ReadsRep r r.encode := by
  match r with
  | .indexed i =>
    have hread := readsInt_encodeInt 7 1 (by simp [Width]) (by norm_num) hint
    obtain ⟨b,cont,heq,_,hb,_⟩ := encodeInt_code 7 1 i (by norm_num)
    simp only [Rep.encode,firstInt,heq] at hread ⊢
    exact readsRep_indexed (by omega) hread
  | .sizeUpdate n =>
    have hread := readsInt_encodeInt 5 1 (by simp [Width]) (by norm_num) hint
    obtain ⟨b,cont,heq,_,hb,_⟩ := encodeInt_code 5 1 n (by norm_num)
    simp only [Rep.encode,firstInt,heq] at hread ⊢
    exact readsRep_sizeUpdate (by omega) hread
  | .literal mode (.index i) value =>
    have hread := readsInt_encodeInt _ _ (width_prefixBits mode) (high_fits mode) hint
    obtain ⟨b,cont,heq,_,hb,_⟩ := encodeInt_code mode.prefixBits mode.pattern i (high_fits mode)
    have hi : i ≠ 0 := fun h => hname mode value (by rw [h])
    simp only [Rep.encode,firstInt,heq] at hread ⊢
    exact readsRep_literal hb fun d rest =>
      Decoder.decodeLiteral_index hi hread (readsString_encode h.2) d rest
  | .literal mode (.literal name) value =>
    have hread := readsInt_encodeInt _ _ (width_prefixBits mode) (high_fits mode) hint
    obtain ⟨b,cont,heq,_,hb,_⟩ := encodeInt_code mode.prefixBits mode.pattern 0 (high_fits mode)
    simp only [Rep.encode,firstInt,heq] at hread ⊢
    exact readsRep_literal hb fun d rest =>
      Decoder.decodeLiteral_new hread (readsString_encode h.1.2) (readsString_encode h.2.2) d rest

def Bounded (maxSize : ℕ) (es : List Entry) : Prop :=
  es.length ≤ dynamicCap ∧ tableSize es ≤ maxSize

theorem tableOctets_eq (l : List Header) : Decoder.tableOctets l = tableSize (l.map toEntry) := by
  simp only [Decoder.tableOctets,tableSize,List.map_map]
  rfl

theorem evict_longest (maxSize : ℕ) (l : List Header) :
    Longest (Bounded maxSize) (l.map toEntry) ((Decoder.evict maxSize l).map toEntry) := by
  apply Longest.map
  have hok : (fun m : List Header => Bounded maxSize (m.map toEntry)) =
      fun m => m.length ≤ dynamicCap ∧ Decoder.tableOctets m ≤ maxSize := by
    funext m
    simp [Bounded,tableOctets_eq]
  rw [hok,evict_eq_trim]
  exact trim_longest (by simp [Decoder.tableOctets]) l

theorem rfc_evict_longest (limit : ℕ) (es : List Entry) :
    Longest (fun m => tableSize m ≤ limit) es (Rfc7541.evict limit es) := by
  rw [rfc_evict_eq_trim]
  exact trim_longest (by simp [tableSize]) es

theorem tableSize_cons (e : Entry) (es : List Entry) :
    tableSize (e :: es) = entrySize e + tableSize es := by
  simp [tableSize]

theorem tableSize_mono {m es : List Entry} (h : m <+: es) : tableSize m ≤ tableSize es := by
  obtain ⟨x,rfl⟩ := h
  simp [tableSize]

theorem add_longest (t : Table) (e : Entry) :
    Longest (Bounded t.maxSize) (e :: t.entries) (t.add (some dynamicCap) e).entries := by
  simp only [Table.add]
  split_ifs with hfit
  · have hev := rfc_evict_longest (t.maxSize - entrySize e) t.entries
    have hcons : e :: Rfc7541.evict (t.maxSize - entrySize e) t.entries <+: e :: t.entries := by
      simpa using hev.leads
    refine ⟨(List.take_prefix _ _).trans hcons,⟨List.length_take_le _ _,?_⟩,fun m hm hok => ?_⟩
    · refine (tableSize_mono (List.take_prefix _ _)).trans ?_
      have := hev.accepted
      rw [tableSize_cons]
      omega
    · refine List.prefix_take_iff.mpr ⟨?_,hok.1⟩
      cases m with
      | nil => exact List.nil_prefix
      | cons a m =>
        obtain ⟨rfl,htail⟩ := List.cons_prefix_cons.mp hm
        have hsize := hok.2
        rw [tableSize_cons] at hsize
        simpa using hev.longest m htail (by omega)
  · refine ⟨List.nil_prefix,by simp [Bounded,tableSize],fun m hm hok => ?_⟩
    cases m with
    | nil => exact List.nil_prefix
    | cons a m =>
      obtain ⟨rfl,_⟩ := List.cons_prefix_cons.mp hm
      have hsize := hok.2
      rw [tableSize_cons] at hsize
      omega

theorem resize_longest (t : Table) (n : ℕ) (hcap : t.entries.length ≤ dynamicCap) :
    Longest (Bounded n) t.entries (t.resize n).entries := by
  have hev := rfc_evict_longest n t.entries
  exact ⟨hev.leads,⟨hev.leads.length_le.trans hcap,hev.accepted⟩,
    fun m hm hok => hev.longest m hm hok.2⟩

structure Holds (d : Decoder) (t : Table) : Prop where
  entries : d.dynamic.map toEntry = t.entries
  maxSize : d.maxSize = t.maxSize
  cap : t.entries.length ≤ dynamicCap

theorem Holds.lookup {d : Decoder} {t : Table} (h : Holds d t) (i : ℕ) :
    t.lookup i = (d.lookup i).map toEntry := by
  have hlen : Rfc7541.staticTable.length = staticTable.length := by simp [Rfc7541.staticTable]
  simp only [Table.lookup,Decoder.lookup,hlen,← h.entries]
  split_ifs
  · rfl
  · simp only [Rfc7541.staticTable,List.getElem?_map]
    rfl
  · rw [List.getElem?_map]

theorem Holds.lookup_lt {d : Decoder} {t : Table} (h : Holds d t) {i : ℕ} {e : Entry}
    (he : t.lookup i = some e) : i ≠ 0 ∧ i < 2^35 := by
  have hcap := h.cap
  have hlen : Rfc7541.staticTable.length = 61 := by decide
  simp only [Table.lookup,hlen] at he
  split_ifs at he with h0 h1
  · exact ⟨h0,by norm_num; omega⟩
  · have hlt := (List.getElem?_eq_some_iff.mp he).1
    simp only [dynamicCap] at hcap
    exact ⟨h0,by norm_num; omega⟩

theorem Holds.push {d : Decoder} {t : Table} (h : Holds d t) (n v : String) :
    Holds (d.push n v) (t.add (some dynamicCap) (octets n,octets v)) := by
  have hd := evict_longest d.maxSize ((n,v) :: d.dynamic)
  have ht := add_longest t (octets n,octets v)
  rw [h.maxSize,List.map_cons,h.entries] at hd
  refine ⟨(by simpa [Decoder.push,h.maxSize] using hd.unique ht),?_,ht.accepted.1⟩
  simp only [Decoder.push,Table.add,h.maxSize]
  split_ifs <;> rfl

theorem Holds.resize {d : Decoder} {t : Table} (h : Holds d t) (n : ℕ) :
    Holds ⟨Decoder.evict n d.dynamic,n⟩ (t.resize n) := by
  have hd := evict_longest n d.dynamic
  have ht := resize_longest t n h.cap
  rw [h.entries] at hd
  exact ⟨hd.unique ht,rfl,ht.accepted.1⟩

theorem Holds.resolve {d : Decoder} {t : Table} (h : Holds d t) {name : Name} {n : List UInt8}
    (hn : t.resolve name = some n) (htext : ∀ s, name = .literal s → (fromUtf8 s.text).isSome) :
    ∃ m, d.resolve name = some m ∧ octets m = n := by
  cases name with
  | index i =>
    simp only [Table.resolve,h.lookup,Option.map_map,Option.map_eq_some_iff] at hn
    obtain ⟨a,ha,rfl⟩ := hn
    exact ⟨a.1,by simp [Decoder.resolve,ha],rfl⟩
  | literal s =>
    obtain ⟨m,hm⟩ := Option.isSome_iff_exists.mp (htext s rfl)
    obtain rfl := Option.some.inj hn
    exact ⟨m,hm,fromUtf8_eq_some_iff.mp hm⟩

/-- A representation the bounded table accepts is accepted, with the same header and
the same table. -/
theorem Holds.step {d : Decoder} {t t' : Table} {r : Rep} {es : List Entry} (h : Holds d t)
    (hr : ReadableRep r)
    (ht : t.step (some dynamicCap) defaultTableSize r = some (t',es)) :
    ∃ d' hs, d.step r = some (d',hs) ∧ hs.map toEntry = es ∧ Holds d' t' := by
  cases r with
  | indexed i =>
    simp only [Table.step,h.lookup,Option.map_map,Option.map_eq_some_iff] at ht
    obtain ⟨a,ha,hte⟩ := ht
    obtain ⟨rfl,rfl⟩ := Prod.mk.inj hte
    exact ⟨d,[a],by simp [Decoder.step,ha],rfl,h⟩
  | literal mode name value =>
    obtain ⟨n,hn,hte⟩ := Option.map_eq_some_iff.mp ht
    obtain ⟨rfl,rfl⟩ := Prod.mk.inj hte
    have htexts : (∀ s, name = .literal s → (fromUtf8 s.text).isSome) ∧
        (fromUtf8 value.text).isSome := by
      cases name with
      | index i => exact ⟨fun s hs => by simp at hs,hr.1⟩
      | literal s => exact ⟨fun _ hs => Name.literal.inj hs ▸ hr.1.1,hr.2.1⟩
    obtain ⟨m,hm,rfl⟩ := h.resolve hn htexts.1
    obtain ⟨v,hv⟩ := Option.isSome_iff_exists.mp htexts.2
    rw [← fromUtf8_eq_some_iff.mp hv]
    refine ⟨if mode = .incremental then d.push m v else d,[(m,v)],
      by simp [Decoder.step,hm,hv],rfl,?_⟩
    split_ifs
    · exact h.push m v
    · exact h
  | sizeUpdate n =>
    simp only [Table.step] at ht
    split_ifs at ht with hle
    obtain ⟨rfl,rfl⟩ := Prod.mk.inj (Option.some.inj ht)
    exact ⟨_,[],by simp [Decoder.step,Decoder.setMaxSize,hle],rfl,h.resize n⟩

theorem Holds.readsRep {d : Decoder} {t t' : Table} {r : Rep} {es : List Entry} (h : Holds d t)
    (hr : ReadableRep r)
    (ht : t.step (some dynamicCap) defaultTableSize r = some (t',es)) : ReadsRep r r.encode := by
  have hnamed : ∀ i, t.lookup i ≠ none → i ≠ 0 ∧ i < 2^35 := fun i hi => by
    obtain ⟨e,he⟩ := Option.ne_none_iff_exists'.mp hi
    exact h.lookup_lt he
  match r with
  | .indexed i =>
    have hi := hnamed i fun h0 => by simp [Table.step,h0] at ht
    exact readsRep_encode hr hi.2 fun _ _ => by simp
  | .sizeUpdate n =>
    have hle : n ≤ defaultTableSize := by
      by_contra hgt
      simp [Table.step,hgt] at ht
    simp only [defaultTableSize] at hle
    exact readsRep_encode hr (by simp only [firstInt]; omega) fun _ _ => by simp
  | .literal mode (.index i) value =>
    have hi := hnamed i fun h0 => by simp [Table.step,Table.resolve,h0] at ht
    exact readsRep_encode hr hi.2 fun _ _ => by simp [hi.1]
  | .literal mode (.literal name) value =>
    exact readsRep_encode hr (by norm_num [firstInt]) fun _ _ => by simp

theorem Holds.tryDecode {reps : List Rep} {d : Decoder} {t t' : Table} {es : List Entry}
    (h : Holds d t) (hr : ∀ r ∈ reps, ReadableRep r)
    (ht : t.block (some dynamicCap) defaultTableSize reps = some (t',es)) (out : Pseudo) :
    ∃ d' hs, d.tryDecode (encodeBlock reps) out = some (d',Decoder.applyAll out hs) ∧
      hs.map toEntry = es ∧ Holds d' t' := by
  induction reps generalizing d t es out with
  | nil =>
    obtain ⟨rfl,rfl⟩ := Prod.mk.inj (Option.some.inj ht)
    exact ⟨d,[],by simp [encodeBlock,Decoder.tryDecode_nil,Decoder.applyAll],rfl,h⟩
  | cons r reps ih =>
    simp only [Table.block] at ht
    split at ht
    · simp at ht
    · rename_i t₁ es₁ hstep
      obtain ⟨⟨t₂,es₂⟩,hrest,hcat⟩ := Option.map_eq_some_iff.mp ht
      obtain ⟨rfl,rfl⟩ := Prod.mk.inj hcat
      have hhead := hr r (List.mem_cons_self ..)
      obtain ⟨d₁,hs₁,hd₁,rfl,h₁⟩ := h.step hhead hstep
      obtain ⟨d₂,hs₂,hd₂,rfl,h₂⟩ := ih h₁ (fun q hq => hr q (List.mem_cons_of_mem r hq)) hrest
        (Decoder.applyAll out hs₁)
      refine ⟨d₂,hs₁ ++ hs₂,?_,by simp,h₂⟩
      have hcons : encodeBlock (r :: reps) = r.encode ++ encodeBlock reps := by
        simp [encodeBlock]
      rw [hcons,h.readsRep hhead hstep,hd₁,Option.bind_some,hd₂]
      simp [Decoder.applyAll]

/-- The bounded table over a sequence of blocks, with what each block leaves and yields. -/
def runBlocks (t : Table) : List (List Rep) → Option (List (Table × List Entry))
  | [] => some []
  | reps :: rest =>
    (t.block (some dynamicCap) defaultTableSize reps).bind fun q =>
      (runBlocks q.1 rest).map (q :: ·)

/-- A decoder and its result against a table and its header list. -/
def Decoded (q : Decoder × Option Pseudo) (r : Table × List Entry) : Prop :=
  (∃ p, q.2 = some p ∧ p.toOctets = r.2.foldl applyEntry Rfc7541.Pseudo.default) ∧
    q.1.dynamic.map toEntry = r.1.entries ∧ q.1.maxSize = r.1.maxSize

theorem Holds.decodeAll {blocks : List (List Rep)} {d : Decoder} {t : Table}
    {rs : List (Table × List Entry)} (h : Holds d t)
    (hr : ∀ reps ∈ blocks, ∀ r ∈ reps, ReadableRep r) (ht : runBlocks t blocks = some rs) :
    List.Forall₂ Decoded (decodeAll d (blocks.map encodeBlock)) rs := by
  induction blocks generalizing d t rs with
  | nil =>
    obtain rfl := Option.some.inj ht
    exact List.Forall₂.nil
  | cons reps blocks ih =>
    obtain ⟨⟨t',es⟩,hblock,ht⟩ := Option.bind_eq_some_iff.mp ht
    obtain ⟨rs',hrest,rfl⟩ := Option.map_eq_some_iff.mp ht
    obtain ⟨d',hs,hd,rfl,h'⟩ := h.tryDecode (hr reps (List.mem_cons_self ..)) hblock Pseudo.default
    have hdec : d.decodeBlock (encodeBlock reps) =
        (d',some (Decoder.applyAll Pseudo.default hs)) := by
      simp [Decoder.decodeBlock,hd]
    rw [List.map_cons,Hpack.decodeAll,hdec]
    refine List.Forall₂.cons ⟨⟨_,rfl,applyAll_toOctets _ _⟩,h'.entries,h'.maxSize⟩ ?_
    exact ih h' (fun q hq => hr q (List.mem_cons_of_mem reps hq)) hrest

/-- Successive calls of `decode_block` give back every encoded block and hold the
bounded table after each. -/
theorem decode_encode (blocks : List (List Rep)) (rs : List (Table × List Entry))
    (hr : ∀ reps ∈ blocks, ∀ r ∈ reps, ReadableRep r)
    (ht : runBlocks Table.initial blocks = some rs) :
    List.Forall₂ Decoded (decodeAll Decoder.default (blocks.map encodeBlock)) rs :=
  Holds.decodeAll ⟨rfl,rfl,by simp [Table.initial]⟩ hr ht

theorem decode_encode_two_blocks :
    List.Forall₂ Decoded
      (decodeAll Decoder.default
        ([[.indexed 3,.literal .incremental (.index 4) ⟨octets "/a",true⟩,
            .literal .never (.literal ⟨octets "k",false⟩) ⟨octets "é",true⟩],
          [.indexed 62,.sizeUpdate 40,
            .literal .incremental (.literal ⟨octets "k",true⟩) ⟨octets "v",false⟩,
            .literal .without (.index 8) ⟨octets "404",false⟩]].map encodeBlock))
      [(⟨[(octets ":path",octets "/a")],4096⟩,
          [(octets ":method",octets "POST"),(octets ":path",octets "/a"),(octets "k",octets "é")]),
        (⟨[(octets "k",octets "v")],40⟩,
          [(octets ":path",octets "/a"),(octets "k",octets "v"),
            (octets ":status",octets "404")])] :=
  decode_encode _ _ (by decide +kernel) (by decide +kernel)

end Hpack
end ObsAgent
