import ObsAgent.HpackWire
import ObsAgent.Trim

/-! The bounded decoder against the format.  The decoder's table is smaller, and it
is emptied at every block the decoder gives up on; what it keeps is always a run of
newest entries, and so is the table of the format.  An index that both resolve
therefore names the same entry. -/
namespace ObsAgent
namespace Hpack

open Rfc7541 Trim

def toEntry (h : Header) : Entry := (octets h.1,octets h.2)

def Pseudo.toOctets (p : Pseudo) : Rfc7541.Pseudo where
  method := p.method.map octets
  path := p.path.map octets
  status := p.status
  authority := p.authority.map octets

theorem apply_toOctets (p : Pseudo) (h : Header) :
    (apply p h.1 h.2).toOctets = applyEntry p.toOctets (toEntry h) := by
  have hname : ∀ s : String, (toEntry h).1 = octets s ↔ h.1 = s := fun s =>
    ⟨fun he => octets_injective he,fun he => by rw [toEntry,he]⟩
  simp only [apply,applyEntry,hname]
  split_ifs <;> simp [Pseudo.toOctets,toEntry]

theorem applyAll_toOctets (p : Pseudo) (hs : List Header) :
    (Decoder.applyAll p hs).toOctets = (hs.map toEntry).foldl applyEntry p.toOctets := by
  induction hs generalizing p with
  | nil => rfl
  | cons h hs ih =>
    have hfold := ih (apply p h.1 h.2)
    rw [apply_toOctets] at hfold
    exact hfold

theorem evict_eq_trim (maxSize : ℕ) (l : List Header) : Decoder.evict maxSize l =
    trim (fun m => m.length ≤ dynamicCap ∧ Decoder.tableOctets m ≤ maxSize) l := by
  fun_induction Decoder.evict maxSize l with
  | case1 hover =>
    rw [trim,if_neg (by omega),if_pos rfl]
  | case2 l hover hne ih =>
    rw [trim,if_neg (by omega),if_neg hne,ih]
  | case3 l hfits =>
    rw [trim,if_pos (by omega)]

theorem rfc_evict_eq_trim (limit : ℕ) (es : List Entry) :
    Rfc7541.evict limit es = trim (fun m => tableSize m ≤ limit) es := by
  fun_induction Rfc7541.evict limit es with
  | case1 es hfits => rw [trim,if_pos hfits]
  | case2 hover => rw [trim,if_neg hover,if_pos rfl]
  | case3 es hover hne ih => rw [trim,if_neg hover,if_neg hne,ih]

theorem evict_leads (maxSize : ℕ) (l : List Header) : Decoder.evict maxSize l <+: l :=
  evict_eq_trim maxSize l ▸ trim_leads _ l

theorem rfc_evict_leads (limit : ℕ) (es : List Entry) : Rfc7541.evict limit es <+: es :=
  rfc_evict_eq_trim limit es ▸ trim_leads _ es

theorem add_leads (t : Table) (e : Entry) : (t.add none e).entries <+: e :: t.entries := by
  simp only [Table.add]
  split_ifs
  · simpa [clip] using rfc_evict_leads _ _
  · exact List.nil_prefix

/-- Both tables are runs of newest entries of one insertion history. -/
def Synced (d : Decoder) (t : Table) : Prop :=
  ∃ history : List Entry, d.dynamic.map toEntry <+: history ∧ t.entries <+: history

theorem synced_of_empty {d : Decoder} (t : Table) (h : d.dynamic = []) : Synced d t :=
  ⟨t.entries,by simp [h],List.prefix_refl _⟩

theorem Synced.lookup {d : Decoder} {t : Table} (h : Synced d t) {i : ℕ} {a : Header} {e : Entry}
    (ha : d.lookup i = some a) (he : t.lookup i = some e) : toEntry a = e := by
  obtain ⟨history,⟨x,hx⟩,⟨y,hy⟩⟩ := h
  have hlen : Rfc7541.staticTable.length = staticTable.length := by simp [Rfc7541.staticTable]
  simp only [Decoder.lookup] at ha
  simp only [Table.lookup,hlen] at he
  split_ifs at ha he
  · have hs : (Rfc7541.staticTable)[i - 1]? = (staticTable[i - 1]?).map toEntry := by
      simp only [Rfc7541.staticTable,List.getElem?_map]
      rfl
    rw [hs,ha] at he
    exact Option.some.inj he
  · have hd : (d.dynamic.map toEntry)[i - staticTable.length - 1]? = some (toEntry a) := by
      simp [ha]
    have h1 : history[i - staticTable.length - 1]? = some (toEntry a) := by
      rw [← hx,List.getElem?_append_left (List.getElem?_eq_some_iff.mp hd).1,hd]
    have h2 : history[i - staticTable.length - 1]? = some e := by
      rw [← hy,List.getElem?_append_left (List.getElem?_eq_some_iff.mp he).1,he]
    exact Option.some.inj (h1.symm.trans h2)

theorem Synced.resolve {d : Decoder} {t : Table} (h : Synced d t) {name : Name} {n : String}
    {m : List UInt8} (hd : d.resolve name = some n) (ht : t.resolve name = some m) :
    octets n = m := by
  cases name with
  | index i =>
    obtain ⟨a,ha,rfl⟩ := Option.map_eq_some_iff.mp hd
    obtain ⟨e,he,rfl⟩ := Option.map_eq_some_iff.mp ht
    rw [← h.lookup ha he]
    rfl
  | literal s =>
    obtain rfl := Option.some.inj ht
    exact fromUtf8_eq_some_iff.mp hd

theorem Synced.push {d : Decoder} {t : Table} (h : Synced d t) (n v : String) :
    Synced (d.push n v) (t.add none (octets n,octets v)) := by
  obtain ⟨history,hd,ht⟩ := h
  refine ⟨(octets n,octets v) :: history,?_,?_⟩
  · have hp := (evict_leads d.maxSize ((n,v) :: d.dynamic)).map toEntry
    exact hp.trans (by simpa [toEntry] using hd)
  · exact (add_leads t _).trans (by simpa using ht)

/-- One representation that both sides accept yields one header on both sides. -/
theorem Synced.step {d d' : Decoder} {t t' : Table} {limit : ℕ} {r : Rep} {hs : List Header}
    {es : List Entry} (h : Synced d t) (hd : d.step r = some (d',hs))
    (ht : t.step none limit r = some (t',es)) : hs.map toEntry = es ∧ Synced d' t' := by
  cases r with
  | indexed i =>
    obtain ⟨a,ha,hda⟩ := Option.map_eq_some_iff.mp hd
    obtain ⟨e,he,hte⟩ := Option.map_eq_some_iff.mp ht
    obtain ⟨rfl,rfl⟩ := Prod.mk.inj hda
    obtain ⟨rfl,rfl⟩ := Prod.mk.inj hte
    exact ⟨by simp [h.lookup ha he],h⟩
  | literal mode name value =>
    obtain ⟨n,hn,hd⟩ := Option.bind_eq_some_iff.mp hd
    obtain ⟨v,hv,hdv⟩ := Option.map_eq_some_iff.mp hd
    obtain ⟨m,hm,htm⟩ := Option.map_eq_some_iff.mp ht
    obtain ⟨rfl,rfl⟩ := Prod.mk.inj hdv
    obtain ⟨rfl,rfl⟩ := Prod.mk.inj htm
    have hname := h.resolve hn hm
    have hval := fromUtf8_eq_some_iff.mp hv
    subst hname
    rw [← hval]
    refine ⟨rfl,?_⟩
    split_ifs
    · exact h.push n v
    · exact h
  | sizeUpdate n =>
    obtain ⟨d₁,hset,hd₁⟩ := Option.map_eq_some_iff.mp hd
    obtain ⟨rfl,rfl⟩ := Prod.mk.inj hd₁
    simp only [Decoder.setMaxSize] at hset
    split_ifs at hset
    obtain rfl := Option.some.inj hset
    simp only [Table.step] at ht
    split_ifs at ht
    obtain ⟨rfl,rfl⟩ := Prod.mk.inj (Option.some.inj ht)
    obtain ⟨history,hdh,hth⟩ := h
    exact ⟨rfl,history,((evict_leads n d.dynamic).map toEntry).trans hdh,
      (rfc_evict_leads n t.entries).trans hth⟩

/-- A block that both sides accept yields one header list on both sides. -/
theorem Synced.tryDecode {reps : List Rep} {bytes : List UInt8} (hcode : BlockCode reps bytes)
    {d d' : Decoder} {t t' : Table} {limit : ℕ} {es : List Entry} {out p : Pseudo}
    (h : Synced d t) (hd : d.tryDecode bytes out = some (d',p))
    (ht : t.block none limit reps = some (t',es)) :
    ∃ hs : List Header, hs.map toEntry = es ∧ p = Decoder.applyAll out hs ∧ Synced d' t' := by
  induction hcode generalizing d t out es with
  | nil =>
    rw [Decoder.tryDecode_nil] at hd
    obtain ⟨rfl,rfl⟩ := Prod.mk.inj (Option.some.inj hd)
    obtain ⟨rfl,rfl⟩ := Prod.mk.inj (Option.some.inj ht)
    exact ⟨[],rfl,rfl,h⟩
  | @cons r rs s s' hr hrs ih =>
    rcases readsRep_or_refuses hr with hread | hrefuse
    · rw [hread] at hd
      obtain ⟨⟨d₁,hs₁⟩,hstep,hd⟩ := Option.bind_eq_some_iff.mp hd
      simp only [Table.block] at ht
      split at ht
      · simp at ht
      · rename_i t₁ es₁ hts
        obtain ⟨⟨t₂,es₂⟩,hrest,hcat⟩ := Option.map_eq_some_iff.mp ht
        obtain ⟨rfl,rfl⟩ := Prod.mk.inj hcat
        obtain ⟨hes,hsync⟩ := h.step hstep hts
        obtain ⟨hs₂,hes₂,hp,hfinal⟩ := ih hsync hd hrest
        refine ⟨hs₁ ++ hs₂,by simp [hes,hes₂],?_,hfinal⟩
        rw [hp]
        simp [Decoder.applyAll]
    · rw [hrefuse] at hd
      simp at hd

/-- The reference decoder on one block: some reading of the octets as representations
that the format's table accepts under the negotiated maximum. -/
def Decodes (limit : ℕ) (t : Table) (bytes : List UInt8) (t' : Table) (hs : List Entry) : Prop :=
  ∃ reps, BlockCode reps bytes ∧ t.block none limit reps = some (t',hs)

/-- Whatever the decoder does with a block the reference accepts, the tables stay in
step, and what it returns is what the reference returns. -/
theorem Synced.decodeBlock {d : Decoder} {t t' : Table} {limit : ℕ} {bytes : List UInt8}
    {hs : List Entry} (h : Synced d t) (hr : Decodes limit t bytes t' hs) :
    Synced (d.decodeBlock bytes).1 t' ∧
      ∀ p, (d.decodeBlock bytes).2 = some p → p.toOctets = pseudoOf hs := by
  obtain ⟨reps,hcode,ht⟩ := hr
  simp only [Decoder.decodeBlock]
  cases hd : d.tryDecode bytes Pseudo.default with
  | none => exact ⟨synced_of_empty t' rfl,fun p hp => by simp at hp⟩
  | some q =>
    obtain ⟨d',p⟩ := q
    obtain ⟨hs',rfl,rfl,hsync⟩ := Synced.tryDecode hcode h hd ht
    refine ⟨hsync,fun p hp => ?_⟩
    obtain rfl := Option.some.inj hp
    rw [applyAll_toOctets]
    exact foldl_applyEntry _

/-- Successive calls of `decode_block` on one decoder, each with the decoder it leaves. -/
def decodeAll (d : Decoder) : List (List UInt8) → List (Decoder × Option Pseudo)
  | [] => []
  | bytes :: rest => d.decodeBlock bytes :: decodeAll (d.decodeBlock bytes).1 rest

/-- The reference on a sequence of blocks, each under its own negotiated maximum. -/
inductive DecodesAll : Table → List (ℕ × List UInt8) → List (List Entry) → Prop
  | nil (t : Table) : DecodesAll t [] []
  | cons {t t' : Table} {limit : ℕ} {bytes : List UInt8} {hs : List Entry}
      {rest : List (ℕ × List UInt8)} {hss : List (List Entry)} :
      Decodes limit t bytes t' hs → DecodesAll t' rest hss →
      DecodesAll t ((limit,bytes) :: rest) (hs :: hss)

theorem Synced.decodeAll {blocks : List (ℕ × List UInt8)} {hss : List (List Entry)}
    {d : Decoder} {t : Table} (h : Synced d t) (hr : DecodesAll t blocks hss) :
    List.Forall₂ (fun q hs => ∀ p, q.2 = some p → p.toOctets = pseudoOf hs)
      (decodeAll d (blocks.map (·.2))) hss := by
  induction hr generalizing d with
  | nil t => exact List.Forall₂.nil
  | cons hblock _ ih =>
    obtain ⟨hsync,hp⟩ := h.decodeBlock hblock
    exact List.Forall₂.cons hp (ih hsync)

/-- The entry ceiling and the resets never produce a wrong header. -/
theorem decoder_agrees_with_reference (blocks : List (ℕ × List UInt8))
    (hss : List (List Entry)) (hr : DecodesAll Table.initial blocks hss) :
    List.Forall₂ (fun q hs => ∀ p, q.2 = some p → p.toOctets = pseudoOf hs)
      (decodeAll Decoder.default (blocks.map (·.2))) hss :=
  Synced.decodeAll (synced_of_empty _ rfl) hr

theorem decoder_agrees_on_reused_path :
    List.Forall₂ (fun q hs => ∀ p, q.2 = some p → p.toOctets = pseudoOf hs)
      (decodeAll Decoder.default [[0x83,0x44,2,0x2f,0x61],[0x83,0xbe]])
      [[(octets ":method",octets "POST"),(octets ":path",octets "/a")],
        [(octets ":method",octets "POST"),(octets ":path",octets "/a")]] :=
  have hpost : RepCode (.indexed 3) [0x83] :=
    .indexed (by decide) (.short (by decide) (by decide))
  have hnewest : RepCode (.indexed 62) [0xbe] :=
    .indexed (by decide) (.short (by decide) (by decide))
  have htext : StringCode ⟨octets "/a",false⟩ (2 :: ([] ++ [0x2f,0x61])) :=
    .mk (.short (by decide) (by decide)) (by decide)
      (show [0x2f,0x61] = octets "/a" by decide +kernel)
  have hpath : RepCode (.literal .incremental (.index 4) ⟨octets "/a",false⟩)
      (0x44 :: ([] ++ [2,0x2f,0x61])) :=
    .literalIndex (by decide) (by decide) (.short (by decide) (by decide)) htext
  have hfirst : Decodes 4096 Table.initial [0x83,0x44,2,0x2f,0x61]
      ⟨[(octets ":path",octets "/a")],4096⟩
      [(octets ":method",octets "POST"),(octets ":path",octets "/a")] :=
    ⟨_,.cons hpost (.cons hpath .nil),by decide +kernel⟩
  have hsecond : Decodes 4096 ⟨[(octets ":path",octets "/a")],4096⟩ [0x83,0xbe]
      ⟨[(octets ":path",octets "/a")],4096⟩
      [(octets ":method",octets "POST"),(octets ":path",octets "/a")] :=
    ⟨_,.cons hpost (.cons hnewest .nil),by decide +kernel⟩
  decoder_agrees_with_reference [(4096,_),(4096,_)] _ (.cons hfirst (.cons hsecond (.nil _)))

end Hpack
end ObsAgent
