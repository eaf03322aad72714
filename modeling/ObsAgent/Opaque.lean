import ObsAgent.Bounds
import ObsAgent.Chunking

/-! What the demultiplexer sees of its input: everything but the payloads it skips, those of
DATA frames among them. -/
namespace ObsAgent
namespace H2

theorem startsWith_congr {s t token : List UInt8} {n : ℕ} (h : s.take n = t.take n)
    (hn : token.length ≤ n) : startsWith s token = startsWith t token := by
  have hiff : ∀ u : List UInt8, startsWith u token = true ↔ token <+: u.take n := fun u => by
    rw [startsWith_iff,List.prefix_take_iff]
    exact ⟨fun hu => ⟨hu,hn⟩,And.left⟩
  rw [Bool.eq_iff_iff,hiff,hiff,h]

/-- A frame header that can be taken for the preface. -/
def prefaceHeader (buf : List UInt8) : Bool := startsWith buf (clientPreface.take headerLen)

section Show

variable (hides : FrameHeader → Bool)

/-- The octets of a frame, without a payload that is hidden. -/
def showFrame (hdr : FrameHeader) (buf : List UInt8) : List (Option UInt8) :=
  if hides hdr then
    (buf.take headerLen).map some ++ List.replicate (min buf.length hdr.totalLen - headerLen) none
  else (buf.take hdr.totalLen).map some

/-- The octets of a sequence of frames.  Behind a header like the preface all are shown. -/
def showFrames (buf : List UInt8) : List (Option UInt8) :=
  if prefaceHeader buf then buf.map some
  else
    match _h : FrameHeader.parse buf with
    | none => buf.map some
    | some hdr => showFrame hides hdr buf ++ showFrames (buf.drop hdr.totalLen)
termination_by buf.length
decreasing_by
  have hlen := FrameHeader.length_of_parse _h
  have htotal := hdr.headerLen_le_totalLen
  simp only [headerLen] at hlen htotal
  simp only [List.length_drop]
  omega

/-- The octets of a stream of frames that may begin with the preface. -/
def showStream (buf : List UInt8) : List (Option UInt8) :=
  if startsWith buf clientPreface then
    clientPreface.map some ++ showFrames hides (buf.drop clientPreface.length)
  else showFrames hides buf

end Show

section Hides

variable {hides : FrameHeader → Bool}

theorem showFrame_length {hdr : FrameHeader} {buf : List UInt8} (h : headerLen ≤ buf.length) :
    (showFrame hides hdr buf).length = min buf.length hdr.totalLen := by
  have htotal := hdr.headerLen_le_totalLen
  simp only [showFrame]
  split_ifs <;> simp <;> omega

theorem showFrames_some {buf : List UInt8} {hdr : FrameHeader} (hp : prefaceHeader buf = false)
    (h : FrameHeader.parse buf = some hdr) : showFrames hides buf =
      showFrame hides hdr buf ++ showFrames hides (buf.drop hdr.totalLen) := by
  rw [showFrames,if_neg (by simp [hp])]
  split
  · simp_all
  · rename_i hdr' h'
    rw [h] at h'
    rw [Option.some.inj h']

theorem showFrames_all {buf : List UInt8}
    (h : prefaceHeader buf = true ∨ FrameHeader.parse buf = none) :
    showFrames hides buf = buf.map some := by
  rw [showFrames]
  split_ifs with hp
  · rfl
  · split
    · rfl
    · simp_all

theorem showFrames_visible {b : List UInt8} (h : prefaceHeader b = true ∨ b.length < headerLen) :
    showFrames hides b = b.map some :=
  showFrames_all (h.imp_right FrameHeader.parse_eq_none.mpr)

@[simp] theorem showFrames_length (buf : List UInt8) :
    (showFrames hides buf).length = buf.length := by
  induction hn : buf.length using Nat.strong_induction_on generalizing buf with
  | _ n ih =>
    by_cases hp : prefaceHeader buf = true
    · rw [showFrames_all (Or.inl hp),List.length_map,hn]
    cases hparse : FrameHeader.parse buf with
    | none => rw [showFrames_all (Or.inr hparse),List.length_map,hn]
    | some hdr =>
      have hlen := FrameHeader.length_of_parse hparse
      have htotal := hdr.headerLen_le_totalLen
      simp only [headerLen] at htotal
      rw [showFrames_some (by simpa using hp) hparse,List.length_append,showFrame_length hlen]
      simp only [headerLen] at hlen
      rw [ih (buf.drop hdr.totalLen).length (by simp; omega) _ rfl]
      simp only [List.length_drop]
      omega

theorem parse_congr {b b' : List UInt8} (h : b.take headerLen = b'.take headerLen) :
    FrameHeader.parse b = FrameHeader.parse b' := by
  have hlen := congrArg List.length h
  simp only [List.length_take] at hlen
  by_cases hshort : b.length < headerLen
  · rw [FrameHeader.parse_eq_none.mpr hshort,FrameHeader.parse_eq_none.mpr (by omega)]
  · have hfront : ∀ u : List UInt8, headerLen ≤ u.length →
        FrameHeader.parse u = FrameHeader.parse (u.take headerLen) := fun u hu =>
      FrameHeader.parse_leads (List.take_prefix headerLen u) (by simp; omega)
    rw [hfront b (by omega),hfront b' (by omega),h]

theorem prefaceHeader_congr {b b' : List UInt8} (h : b.take headerLen = b'.take headerLen) :
    prefaceHeader b = prefaceHeader b' := startsWith_congr h (by decide +kernel)

theorem showFrame_take {hdr : FrameHeader} {b : List UInt8} {n : ℕ} (hn : headerLen ≤ n) :
    showFrame hides hdr (b.take n) = (showFrame hides hdr b).take n := by
  have htotal := hdr.headerLen_le_totalLen
  simp only [showFrame]
  split_ifs
  · have hfront : ((b.take headerLen).map some).length ≤ n := by
      simp only [List.length_map,List.length_take]
      omega
    rw [List.take_take,Nat.min_eq_left hn,List.take_append,List.take_of_length_le hfront,
      List.take_replicate]
    congr 2
    simp only [List.length_map,List.length_take]
    omega
  · rw [List.take_take,← List.map_take,List.take_take,Nat.min_comm]

theorem showFrames_take (b : List UInt8) (n : ℕ) :
    showFrames hides (b.take n) = (showFrames hides b).take n := by
  induction hm : b.length using Nat.strong_induction_on generalizing b n with
  | _ m ih =>
    have hfront : headerLen ≤ n → (b.take n).take headerLen = b.take headerLen := fun hn => by
      rw [List.take_take,Nat.min_eq_left hn]
    have hshort : n < headerLen → showFrames hides (b.take n) = (b.take n).map some := fun hn =>
      showFrames_visible (.inr (by simp; omega))
    by_cases hp : prefaceHeader b = true
    · rw [showFrames_all (.inl hp),← List.map_take]
      rcases Nat.lt_or_ge n headerLen with hn | hn
      · exact hshort hn
      · exact showFrames_visible (.inl ((prefaceHeader_congr (hfront hn)).trans hp))
    cases hparse : FrameHeader.parse b with
    | none =>
      have hlen := FrameHeader.parse_eq_none.mp hparse
      rw [showFrames_all (.inr hparse),← List.map_take]
      exact showFrames_visible (.inr (by simp; omega))
    | some hdr =>
      have hlen := FrameHeader.length_of_parse hparse
      have htotal := hdr.headerLen_le_totalLen
      have hpos : 0 < headerLen := by decide
      have hsize : (showFrame hides hdr b).length = min b.length hdr.totalLen :=
        showFrame_length hlen
      rw [showFrames_some (by simpa using hp) hparse]
      rcases Nat.lt_or_ge n headerLen with hn | hn
      · rw [hshort hn,List.take_append_of_le_length (by omega),showFrame]
        split_ifs
        · rw [List.take_append_of_le_length (by simp; omega),← List.map_take,List.take_take,
            Nat.min_eq_left hn.le]
        · rw [← List.map_take,List.take_take,Nat.min_eq_left (by omega)]
      · have hp' : prefaceHeader (b.take n) = false :=
          (prefaceHeader_congr (hfront hn)).trans (by simpa using hp)
        rw [showFrames_some hp' ((parse_congr (hfront hn)).trans hparse),showFrame_take hn,
          List.take_append,hsize,List.drop_take,
          ih (b.drop hdr.totalLen).length (by simp; omega) _ _ rfl]
        congr 1
        rcases Nat.le_total b.length hdr.totalLen with hle | hle
        · rw [List.drop_eq_nil_of_le hle,showFrames_visible (.inr (by simpa using hpos))]
          simp
        · rw [Nat.min_eq_right hle]

theorem take_showFrames (buf : List UInt8) :
    (showFrames hides buf).take headerLen = (buf.take headerLen).map some := by
  rw [← showFrames_take]
  by_cases hp : prefaceHeader (buf.take headerLen) = true
  · exact showFrames_visible (.inl hp)
  cases hparse : FrameHeader.parse (buf.take headerLen) with
  | none => exact showFrames_all (.inr hparse)
  | some hdr =>
    have hlen := FrameHeader.length_of_parse hparse
    have htotal := hdr.headerLen_le_totalLen
    simp only [List.length_take] at hlen
    rw [showFrames_some (by simpa using hp) hparse,List.drop_eq_nil_of_le (by simp; omega),
      showFrames_visible (.inr (by decide)),List.map_nil,List.append_nil,showFrame]
    split_ifs
    · simp only [List.take_take,Nat.min_self,List.length_take]
      rw [show min (min headerLen buf.length) hdr.totalLen - headerLen = 0 by omega]
      simp
    · rw [List.take_take,Nat.min_eq_right htotal]

theorem map_some_inj {b b' : List UInt8} (h : b.map some = b'.map some) : b = b' :=
  List.map_injective_iff.mpr (Option.some_injective _) h

/-- Two buffers of which the same is seen are equal, or begin with frames with the same header,
and the same payload if it is not hidden. -/
theorem showFrames_inv {b b' : List UInt8} (h : showFrames hides b = showFrames hides b') :
    b = b' ∨ ∃ hdr, prefaceHeader b = false ∧ b.length = b'.length ∧
      b.take headerLen = b'.take headerLen ∧ FrameHeader.parse b = some hdr ∧
      FrameHeader.parse b' = some hdr ∧
      (hides hdr = false → b.take hdr.totalLen = b'.take hdr.totalLen) ∧
      showFrames hides (b.drop hdr.totalLen) = showFrames hides (b'.drop hdr.totalLen) := by
  have hlen : b.length = b'.length := by
    rw [← showFrames_length b,h,showFrames_length]
  have hhead : b.take headerLen = b'.take headerLen := by
    refine map_some_inj ?_
    rw [← take_showFrames,h,take_showFrames]
  have hpreface := prefaceHeader_congr hhead
  have hparse := parse_congr hhead
  by_cases hp : prefaceHeader b = true
  · rw [showFrames_all (Or.inl hp),showFrames_all (Or.inl (hpreface ▸ hp))] at h
    exact Or.inl (map_some_inj h)
  cases hb : FrameHeader.parse b with
  | none =>
    rw [showFrames_all (Or.inr hb),showFrames_all (Or.inr (hparse ▸ hb))] at h
    exact Or.inl (map_some_inj h)
  | some hdr =>
    have hb' : FrameHeader.parse b' = some hdr := hparse ▸ hb
    rw [showFrames_some (by simpa using hp) hb,showFrames_some (by simpa [← hpreface] using hp) hb']
      at h
    have hsize : (showFrame hides hdr b).length = (showFrame hides hdr b').length := by
      rw [showFrame_length (FrameHeader.length_of_parse hb),
        showFrame_length (FrameHeader.length_of_parse hb'),hlen]
    obtain ⟨hframe,hrest⟩ := List.append_inj h hsize
    refine Or.inr ⟨hdr,by simpa using hp,hlen,hhead,rfl,hb',fun hs => ?_,hrest⟩
    simp only [showFrame,hs,Bool.false_eq_true,if_false] at hframe
    exact map_some_inj hframe

theorem prefaceHeader_of_preface {b : List UInt8}
    (h : waitingPreface b = true ∨ startsWith b clientPreface = true) (hlen : headerLen ≤ b.length) :
    prefaceHeader b = true := by
  rw [prefaceHeader,startsWith_iff]
  rcases h with hwait | hstart
  · simp only [waitingPreface,Bool.and_eq_true] at hwait
    have hlead := List.prefix_iff_eq_take.mp (startsWith_iff.mp hwait.2)
    rw [hlead]
    exact List.take_prefix_take_left (by simpa using hlen)
  · exact (List.take_prefix _ _).trans (startsWith_iff.mp hstart)

theorem not_start_of_header {b : List UInt8} (h : prefaceHeader b = false)
    (hlen : headerLen ≤ b.length) : startsWith b clientPreface = false := by
  rw [Bool.eq_false_iff]
  intro hb
  simp [prefaceHeader_of_preface (Or.inr hb) hlen] at h

theorem showStream_plain {b : List UInt8} (h : startsWith b clientPreface = false) :
    showStream hides b = showFrames hides b := by
  rw [showStream,if_neg (by simp [h])]

theorem showStream_start {b : List UInt8} (h : startsWith b clientPreface = true) :
    showStream hides b =
      clientPreface.map some ++ showFrames hides (b.drop clientPreface.length) := by
  rw [showStream,if_pos h]

theorem showStream_of_showFrames {b b' : List UInt8}
    (h : showFrames hides b = showFrames hides b') : showStream hides b = showStream hides b' := by
  rcases showFrames_inv h with rfl | ⟨hdr,hp,-,hhead,hb,hb',-,-⟩
  · rfl
  have hp' : prefaceHeader b' = false := (prefaceHeader_congr hhead).symm.trans hp
  rw [showStream_plain (not_start_of_header hp (FrameHeader.length_of_parse hb)),
    showStream_plain (not_start_of_header hp' (FrameHeader.length_of_parse hb')),h]

@[simp] theorem showStream_length (b : List UInt8) : (showStream hides b).length = b.length := by
  rw [showStream]
  split_ifs with hstart
  · have hle := (startsWith_iff.mp hstart).length_le
    simp only [List.length_append,List.length_map,showFrames_length,List.length_drop]
    omega
  · simp

theorem showStream_take (b : List UInt8) (n : ℕ) :
    showStream hides (b.take n) = (showStream hides b).take n := by
  cases hstart : startsWith b clientPreface with
  | false =>
    have hfront : startsWith (b.take n) clientPreface = false := by
      rw [Bool.eq_false_iff]
      intro h
      rw [startsWith_iff.mpr ((startsWith_iff.mp h).trans (List.take_prefix n b))] at hstart
      cases hstart
    rw [showStream_plain hstart,showStream_plain hfront,showFrames_take]
  | true =>
    obtain ⟨rest,rfl⟩ := startsWith_iff.mp hstart
    rw [showStream_start hstart,List.drop_left]
    rcases Nat.lt_or_ge n clientPreface.length with hn | hn
    · have hfront : startsWith ((clientPreface ++ rest).take n) clientPreface = false := by
        rw [Bool.eq_false_iff]
        intro h
        have hle := (startsWith_iff.mp h).length_le
        simp only [List.length_take,List.length_append] at hle
        omega
      rw [showStream_plain hfront,List.take_append_of_le_length hn.le,
        List.take_append_of_le_length (by simpa using hn.le),← List.map_take]
      refine showFrames_visible ?_
      rcases Nat.lt_or_ge n headerLen with hshort | hlong
      · exact .inr (by simp; omega)
      · refine .inl (startsWith_iff.mpr ?_)
        exact List.take_prefix_take_left hlong
    · have hfront : (clientPreface.map some).length ≤ n := by simpa using hn
      rw [List.take_append,List.take_of_length_le hn,
        showStream_start (startsWith_self clientPreface _),List.drop_left,showFrames_take,
        List.take_append,List.take_of_length_le hfront,List.length_map]

theorem take_showStream (b : List UInt8) :
    (showStream hides b).take headerLen = (b.take headerLen).map some := by
  rw [showStream]
  split_ifs with hstart
  · obtain ⟨rest,rfl⟩ := startsWith_iff.mp hstart
    rw [List.take_append_of_le_length (by decide +kernel),
      List.take_append_of_le_length (by decide +kernel),List.map_take]
  · exact take_showFrames b

theorem length_of_waiting {b : List UInt8} (h : waitingPreface b = true) :
    b.length < clientPreface.length := by
  simp only [waitingPreface,Bool.and_eq_true,decide_eq_true_eq] at h
  exact h.1.2

section Seen

variable {b b' : List UInt8}

theorem seen_heads (h : showStream hides b = showStream hides b') :
    b.length = b'.length ∧ b.take headerLen = b'.take headerLen ∧
      prefaceHeader b = prefaceHeader b' := by
  have hhead : b.take headerLen = b'.take headerLen := by
    refine map_some_inj ?_
    rw [← take_showStream,h,take_showStream]
  refine ⟨?_,hhead,prefaceHeader_congr hhead⟩
  rw [← showStream_length b,h,showStream_length]

theorem showStream_visible (hstart : startsWith b clientPreface = false)
    (h : prefaceHeader b = true ∨ b.length < headerLen) : showStream hides b = b.map some := by
  rw [showStream_plain hstart,showFrames_visible h]

theorem start_of_seen (h : showStream hides b = showStream hides b')
    (hb : startsWith b clientPreface = true) : startsWith b' clientPreface = true := by
  obtain ⟨hlen,-,hpre⟩ := seen_heads h
  by_contra hno
  have hhead : prefaceHeader b = true := prefaceHeader_of_preface (Or.inr hb)
    (le_trans (by decide +kernel) (startsWith_iff.mp hb).length_le)
  rw [showStream_start hb,showStream_visible (by simpa using hno) (Or.inl (hpre ▸ hhead))] at h
  refine hno (startsWith_iff.mpr (List.prefix_iff_eq_take.mpr (map_some_inj ?_)))
  rw [List.map_take,← h,List.take_left' (by simp)]

theorem seen_of_waiting (h : showStream hides b = showStream hides b')
    (hwait : waitingPreface b = true) : b = b' := by
  obtain ⟨hlen,-,hpre⟩ := seen_heads h
  have hshort := length_of_waiting hwait
  have hno : ∀ u : List UInt8, u.length = b.length → startsWith u clientPreface = false := by
    intro u hu
    rw [Bool.eq_false_iff]
    intro hs
    exact absurd (startsWith_iff.mp hs).length_le (by omega)
  have hvisible : prefaceHeader b = true ∨ b.length < headerLen := by
    rcases Nat.lt_or_ge b.length headerLen with hlt | hge
    · exact Or.inr hlt
    · exact Or.inl (prefaceHeader_of_preface (Or.inl hwait) hge)
  rw [showStream_visible (hno b rfl) hvisible,
    showStream_visible (hno b' hlen.symm) (by rwa [← hpre,← hlen])] at h
  exact map_some_inj h

/-- With the same seen of them, two buffers are equal, or both begin with the preface, or
neither does. -/
theorem showStream_inv (h : showStream hides b = showStream hides b') :
    b = b' ∨
    (∃ s s', b = clientPreface ++ s ∧ b' = clientPreface ++ s' ∧
      showFrames hides s = showFrames hides s') ∨
    ((waitingPreface b = false ∧ startsWith b clientPreface = false) ∧
      (waitingPreface b' = false ∧ startsWith b' clientPreface = false) ∧
      showFrames hides b = showFrames hides b') := by
  cases hwait : waitingPreface b with
  | true => exact Or.inl (seen_of_waiting h hwait)
  | false =>
    cases hwait' : waitingPreface b' with
    | true => exact Or.inl (seen_of_waiting h.symm hwait').symm
    | false =>
      cases hstart : startsWith b clientPreface with
      | true =>
        have hstart' := start_of_seen h hstart
        obtain ⟨s,rfl⟩ := startsWith_iff.mp hstart
        obtain ⟨s',rfl⟩ := startsWith_iff.mp hstart'
        rw [showStream_start hstart,showStream_start hstart',List.drop_left,List.drop_left] at h
        exact Or.inr (Or.inl ⟨s,s',rfl,rfl,List.append_cancel_left h⟩)
      | false =>
        have hstart' : startsWith b' clientPreface = false := by
          rw [Bool.eq_false_iff]
          intro hs
          simp [start_of_seen h.symm hs] at hstart
        rw [showStream_plain hstart,showStream_plain hstart'] at h
        exact Or.inr (Or.inr ⟨⟨rfl,rfl⟩,⟨rfl,hstart'⟩,h⟩)

end Seen

theorem showFrames_mono {more : FrameHeader → Bool} (hle : ∀ hdr, hides hdr = true → more hdr = true)
    {b b' : List UInt8} (h : showFrames hides b = showFrames hides b') :
    showFrames more b = showFrames more b' := by
  induction hn : b.length using Nat.strong_induction_on generalizing b b' with
  | _ n ih =>
    rcases showFrames_inv h with rfl | ⟨hdr,hp,hlen,hhead,hb,hb',hpay,hrest⟩
    · rfl
    have hp' : prefaceHeader b' = false := (prefaceHeader_congr hhead).symm.trans hp
    have hshort : (b.drop hdr.totalLen).length < n := by
      have hpos := FrameHeader.length_of_parse hb
      have htotal := hdr.headerLen_le_totalLen
      simp only [headerLen] at hpos htotal
      simp only [List.length_drop]
      omega
    rw [showFrames_some hp hb,showFrames_some hp' hb',ih _ hshort hrest rfl]
    congr 1
    simp only [showFrame]
    split_ifs with hmore
    · rw [hhead,hlen]
    · have hshown : hides hdr = false := by
        rw [Bool.eq_false_iff]
        exact fun hhides => hmore (hle hdr hhides)
      rw [hpay hshown]

theorem showStream_mono {more : FrameHeader → Bool} (hle : ∀ hdr, hides hdr = true → more hdr = true)
    {b b' : List UInt8} (h : showStream hides b = showStream hides b') :
    showStream more b = showStream more b' := by
  rcases showStream_inv h with rfl | ⟨s,s',rfl,rfl,hs⟩ | ⟨hb,hb',hs⟩
  · rfl
  · rw [showStream_start (startsWith_self _ _),showStream_start (startsWith_self _ _),List.drop_left,
      List.drop_left,showFrames_mono hle hs]
  · rw [showStream_plain hb.2,showStream_plain hb'.2,showFrames_mono hle hs]

end Hides

/-- The octets of a chunk, behind those in the buffer: the pipe does not read what it skips. -/
def DirPipe.shown (p : DirPipe) (src : List UInt8) : List (Option UInt8) :=
  List.replicate (min p.skip src.length) none ++
    showStream skipPayload (p.leftover ++ src.drop (min p.skip src.length))

/-- Two sources of which a pipe sees the same. -/
def DirPipe.SeesSame (p : DirPipe) (src src' : List UInt8) : Prop := p.shown src = p.shown src'

theorem shown_length (p : DirPipe) (src : List UInt8) :
    (p.shown src).length = p.leftover.length + src.length := by
  simp only [DirPipe.shown,List.length_append,List.length_replicate,showStream_length,
    List.length_drop]
  omega

theorem DirPipe.SeesSame.length {p : DirPipe} {src src' : List UInt8} (h : p.SeesSame src src') :
    src.length = src'.length := by
  have hlen := congrArg List.length h
  rw [shown_length,shown_length] at hlen
  omega

/-- With nothing to skip, what matters is what is seen of the buffer. -/
theorem seesSame_of_buffer {p : DirPipe} {r r' : List UInt8} (hskip : p.skip = 0)
    (h : showStream skipPayload (p.leftover ++ r) = showStream skipPayload (p.leftover ++ r')) :
    p.SeesSame r r' := by
  simpa [DirPipe.SeesSame,DirPipe.shown,hskip] using h

theorem seesSame_of_skip {p : DirPipe} {r r' : List UInt8} (hleft : p.leftover = [])
    (hlen : r.length = r'.length) (h : showFrames skipPayload (r.drop p.skip) = showFrames skipPayload (r'.drop p.skip)) :
    p.SeesSame r r' := by
  have hdrop : ∀ u : List UInt8, u.drop (min p.skip u.length) = u.drop p.skip := fun u => by
    rcases Nat.le_total p.skip u.length with hle | hle
    · rw [Nat.min_eq_left hle]
    · rw [Nat.min_eq_right hle,List.drop_length,List.drop_of_length_le hle]
  simp only [DirPipe.SeesSame,DirPipe.shown,hleft,List.nil_append,hdrop]
  rw [hlen,showStream_of_showFrames h]

/-- One turn of the loop on two buffers `a` and `a'`, before octets `r` and `r'`. -/
inductive SameTurn (c : H2Conn) (dir : IoDir) (ts : ℕ) (a a' r r' : List UInt8) : Prop
  | equal : a = a' → r = r' → SameTurn c dir ts a a' r r'
  | stops : a = a' → drainTurn c dir ts a = none → SameTurn c dir ts a a' r r'
  | whole {c₁ : H2Conn} {b b' : List UInt8} {e : Emitted} :
      drainTurn c dir ts a = some (c₁,b,e) → drainTurn c dir ts a' = some (c₁,b',e) →
      b.length = b'.length → showFrames skipPayload (b ++ r) = showFrames skipPayload (b' ++ r') →
      (c₁.pipe dir).skip = (c.pipe dir).skip → SameTurn c dir ts a a' r r'
  | part {c₁ : H2Conn} {e : Emitted} :
      drainTurn c dir ts a = some (c₁,[],e) → drainTurn c dir ts a' = some (c₁,[],e) →
      showFrames skipPayload (r.drop (c₁.pipe dir).skip) = showFrames skipPayload (r'.drop (c₁.pipe dir).skip) →
      SameTurn c dir ts a a' r r'

section

variable (c : H2Conn) (dir : IoDir) (ts : ℕ) {a a' r r' : List UInt8} {hdr : FrameHeader}

theorem sameTurn_skipped (hlen : a.length = a'.length) (hp : FrameHeader.parse a = some hdr)
    (hp' : FrameHeader.parse a' = some hdr) (hs : skipPayload hdr = true)
    (hrest : showFrames skipPayload ((a ++ r).drop hdr.totalLen) = showFrames skipPayload ((a' ++ r').drop hdr.totalLen)) :
    SameTurn c dir ts a a' r r' := by
  by_cases hwhole : hdr.totalLen ≤ a.length
  · refine .whole (drainTurn_skipped c dir ts hp hs hwhole)
      (drainTurn_skipped c dir ts hp' hs (hlen ▸ hwhole)) (by simp [hlen]) ?_
      (skipFrame_keeps c dir hdr).skip
    rwa [List.drop_append_of_le_length hwhole,List.drop_append_of_le_length (hlen ▸ hwhole)] at hrest
  · have hpart := drainTurn_part c dir ts hp' hs (by omega)
    rw [← hlen] at hpart
    refine .part (drainTurn_part c dir ts hp hs (by omega)) hpart ?_
    rw [(skipFrame_keeps _ dir hdr).skip,H2Conn.pipe_setPipe]
    have hdrop : ∀ u v : List UInt8, u.length = a.length →
        (u ++ v).drop hdr.totalLen = v.drop (hdr.totalLen - a.length) := fun u v hu => by
      rw [List.drop_append,List.drop_eq_nil_of_le (show u.length ≤ hdr.totalLen by omega),hu,
        List.nil_append]
    rwa [hdrop a r rfl,hdrop a' r' hlen.symm] at hrest

theorem sameTurn_stored (hlen : a.length = a'.length) (hp : FrameHeader.parse a = some hdr)
    (hp' : FrameHeader.parse a' = some hdr) (hs : skipPayload hdr = false)
    (hstored : a.take hdr.totalLen = a'.take hdr.totalLen)
    (hrest : showFrames skipPayload ((a ++ r).drop hdr.totalLen) = showFrames skipPayload ((a' ++ r').drop hdr.totalLen)) :
    SameTurn c dir ts a a' r r' := by
  by_cases hpart : a.length < hdr.totalLen
  · refine .stops ?_ (drainTurn_waits c dir ts hp hs hpart)
    rwa [List.take_of_length_le hpart.le,List.take_of_length_le (by omega)] at hstored
  · have hsize : ((a.take hdr.totalLen).drop headerLen).length ≤ leftoverCap := by
      have hcap := totalLen_le_cap hs
      simp only [List.length_drop,List.length_take]
      omega
    have hturn := drainTurn_stored c dir ts hp' hs (by omega)
    rw [← hstored] at hturn
    refine .whole (drainTurn_stored c dir ts hp hs (by omega)) hturn (by simp [hlen]) ?_
      (applyHeadersOrControl_keeps c dir ts hdr hsize).skip
    rwa [List.drop_append_of_le_length (by omega),List.drop_append_of_le_length (by omega)] at hrest

theorem sameTurn_of_seen (hlen : a.length = a'.length)
    (h : showFrames skipPayload (a ++ r) = showFrames skipPayload (a' ++ r')) :
    SameTurn c dir ts a a' r r' := by
  rcases showFrames_inv h with heq | ⟨hdr,-,-,hhead,hb,hb',hpay,hrest⟩
  · obtain ⟨ha,hr⟩ := List.append_inj heq hlen
    exact .equal ha hr
  have hfront : ∀ n, (a ++ r).take n = (a' ++ r').take n → a.take n = a'.take n := fun n hn => by
    have htake := congrArg (List.take a.length) hn
    rwa [List.take_take,List.take_take,Nat.min_comm,← List.take_take,← List.take_take,List.take_left,
      hlen,List.take_left] at htake
  by_cases hshort : a.length < headerLen
  · refine .stops ?_ (drainTurn_short c dir ts hshort)
    have hsame := hfront _ hhead
    rwa [List.take_of_length_le hshort.le,List.take_of_length_le (by omega)] at hsame
  have hp : FrameHeader.parse a = some hdr := by
    rw [← hb]
    exact (FrameHeader.parse_leads (List.prefix_append a r) (by omega)).symm
  have hp' : FrameHeader.parse a' = some hdr := by
    rw [← hb']
    exact (FrameHeader.parse_leads (List.prefix_append a' r') (by omega)).symm
  cases hs : skipPayload hdr with
  | true => exact sameTurn_skipped c dir ts hlen hp hp' hs hrest
  | false => exact sameTurn_stored c dir ts hlen hp hp' hs (hfront _ (hpay hs)) hrest

end

/-- The loop on two buffers, before octets `r` and `r'`: the same effects, and unless they end
the connection the same state. -/
theorem drainLoop_seen {c : H2Conn} {dir : IoDir} (ts : ℕ) {a a' r r' : List UInt8} (acc : Emitted)
    (hskip : (c.pipe dir).skip = 0) (hlen : a.length = a'.length)
    (h : showFrames skipPayload (a ++ r) = showFrames skipPayload (a' ++ r')) :
    let q := drainLoop c dir ts a acc
    let q' := drainLoop c dir ts a' acc
    q.2.2 = q'.2.2 ∧ (q.2.2.outcome.halted = false →
      q = q' ∧ ((setLeftover q.1 dir q.2.1).pipe dir).SeesSame r r') := by
  induction hn : a.length using Nat.strong_induction_on generalizing c a a' acc with
  | _ n ih =>
    cases sameTurn_of_seen c dir ts hlen h with
    | equal ha hr =>
      subst ha hr
      exact ⟨rfl,fun _ => ⟨rfl,rfl⟩⟩
    | stops ha hturn =>
      subst ha
      refine ⟨rfl,fun _ => ⟨rfl,?_⟩⟩
      rw [drainLoop_turn,hturn]
      refine seesSame_of_buffer ?_ ?_
      · rwa [setLeftover,H2Conn.pipe_setPipe]
      · rw [setLeftover,H2Conn.pipe_setPipe]
        exact showStream_of_showFrames h
    | @whole c₁ b b' e hturn hturn' hlen' h' hkept =>
      have hnext := ih _ (hn ▸ drainTurn_length hturn) (acc ++ e) (hkept.trans hskip) hlen' h' rfl
      rw [drainLoop_turn c dir ts a,drainLoop_turn c dir ts a',hturn,hturn']
      dsimp only
      split_ifs with hhalt
      · exact ⟨rfl,fun hlive => absurd (hlive.symm.trans hhalt) Bool.false_ne_true⟩
      · exact hnext
    | @part c₁ e hturn hturn' h' =>
      have hrest : r.length = r'.length := by
        have hsum := congrArg List.length h
        simp only [showFrames_length,List.length_append] at hsum
        omega
      rw [drainLoop_turn c dir ts a,drainLoop_turn c dir ts a',hturn,hturn']
      dsimp only
      split_ifs with hhalt
      · exact ⟨rfl,fun hlive => absurd (hlive.symm.trans hhalt) Bool.false_ne_true⟩
      · rw [drainLoop_short c₁ dir ts _ (by decide)]
        refine ⟨rfl,fun _ => ⟨rfl,?_⟩⟩
        rw [setLeftover,H2Conn.pipe_setPipe]
        exact seesSame_of_skip rfl hrest h'

theorem drainFrames_run (c : H2Conn) (dir : IoDir) (ts : ℕ) {a b : List UInt8}
    (hwait : waitingPreface a = false) (hstrip : stripPreface a = b) :
    drainFrames (setLeftover c dir a) dir ts =
      let r := drainLoop (setLeftover c dir []) dir ts b .empty
      (setLeftover r.1 dir r.2.1,r.2.2) := by
  simp only [drainFrames,setLeftover,H2Conn.pipe_setPipe,H2Conn.setPipe_setPipe,hwait,hstrip,
    Bool.false_eq_true,if_false]

section Drain

variable {c : H2Conn} {dir : IoDir} {a a' b b' r r' : List UInt8}

theorem drainFrames_of_loop (ts : ℕ) (hskip : (c.pipe dir).skip = 0)
    (ha : waitingPreface a = false ∧ stripPreface a = b)
    (ha' : waitingPreface a' = false ∧ stripPreface a' = b') (hlen : b.length = b'.length)
    (h : showFrames skipPayload (b ++ r) = showFrames skipPayload (b' ++ r')) :
    let q := drainFrames (setLeftover c dir a) dir ts
    Agrees (drainFrames (setLeftover c dir a') dir ts) q ∧
      (q.2.outcome.halted = false → (q.1.pipe dir).SeesSame r r') := by
  have hskip' : ((setLeftover c dir []).pipe dir).skip = 0 := by
    rwa [setLeftover,H2Conn.pipe_setPipe]
  obtain ⟨hout,hlive⟩ := drainLoop_seen ts .empty hskip' hlen h
  rw [drainFrames_run c dir ts ha.1 ha.2,drainFrames_run c dir ts ha'.1 ha'.2]
  refine ⟨⟨hout.symm,fun hl => ?_⟩,fun hl => (hlive hl).2⟩
  dsimp only
  rw [← (hlive hl).1]

theorem plain_front (hstart : startsWith (a ++ r) clientPreface = false)
    (hp : prefaceHeader (a ++ r) = false) :
    (waitingPreface a = true → a.length < headerLen) ∧ stripPreface a = a := by
  refine ⟨fun hwait => ?_,?_⟩
  · by_contra hlen
    have hhead := prefaceHeader_of_preface (.inl hwait) (by omega)
    rw [prefaceHeader,startsWith_append hhead r] at hp
    cases hp
  · have hno : startsWith a clientPreface = false := by
      rw [Bool.eq_false_iff]
      intro hs
      rw [startsWith_append hs r] at hstart
      cases hstart
    rw [stripPreface,if_neg (by simp [hno])]

theorem cut_front {s : List UInt8} (h : a ++ r = clientPreface ++ s)
    (hshort : a.length < clientPreface.length) : a = clientPreface.take a.length := by
  have htake := congrArg (List.take a.length) h
  rwa [List.take_left,List.take_append_of_le_length hshort.le] at htake

theorem stripped_front {s : List UInt8} (h : a ++ r = clientPreface ++ s)
    (hlong : clientPreface.length ≤ a.length) :
    (waitingPreface a = false ∧ stripPreface a = a.drop clientPreface.length) ∧
      a.drop clientPreface.length ++ r = s := by
  have hlead : clientPreface <+: a :=
    List.prefix_of_prefix_length_le ⟨s,h.symm⟩ (List.prefix_append a r) hlong
  refine ⟨⟨?_,?_⟩,?_⟩
  · rw [Bool.eq_false_iff]
    exact fun hw => absurd (length_of_waiting hw) (Nat.not_lt.mpr hlong)
  · rw [stripPreface,if_pos (startsWith_iff.mpr hlead)]
  · rw [← List.drop_append_of_le_length hlong,h,List.drop_left]

theorem drainFrames_kept (ts : ℕ) (hskip : (c.pipe dir).skip = 0)
    (hkept : drainFrames (setLeftover c dir a) dir ts = (setLeftover c dir a,.empty))
    (h : showStream skipPayload (a ++ r) = showStream skipPayload (a ++ r')) :
    let q := drainFrames (setLeftover c dir a) dir ts
    Agrees (drainFrames (setLeftover c dir a) dir ts) q ∧
      (q.2.outcome.halted = false → (q.1.pipe dir).SeesSame r r') := by
  refine ⟨⟨rfl,fun _ => rfl⟩,fun _ => ?_⟩
  rw [hkept]
  refine seesSame_of_buffer ?_ ?_
  · rwa [setLeftover,H2Conn.pipe_setPipe]
  · rwa [setLeftover,H2Conn.pipe_setPipe]

/-- The buffer of a pipe that has nothing to skip, drained before octets `r` and `r'`. -/
theorem drainFrames_seen (ts : ℕ) (hskip : (c.pipe dir).skip = 0) (hlen : a.length = a'.length)
    (h : showStream skipPayload (a ++ r) = showStream skipPayload (a' ++ r')) :
    let q := drainFrames (setLeftover c dir a) dir ts
    Agrees (drainFrames (setLeftover c dir a') dir ts) q ∧
      (q.2.outcome.halted = false → (q.1.pipe dir).SeesSame r r') := by
  rcases showStream_inv h with heq | ⟨s,s',hb,hb',hs⟩ | ⟨hb,hb',hs⟩
  · obtain ⟨rfl,rfl⟩ := List.append_inj heq hlen
    exact ⟨⟨rfl,fun _ => rfl⟩,fun _ => rfl⟩
  · rcases Nat.lt_or_ge a.length clientPreface.length with hshort | hlong
    · -- less than the preface is there, and it is kept
      have ha := cut_front hb hshort
      have ha' : a' = a := by
        rw [cut_front hb' (hlen ▸ hshort),← hlen]
        exact ha.symm
      subst ha'
      refine drainFrames_kept ts hskip ?_ h
      have hkept := drainFrames_preface c dir ts hshort
      rw [← ha] at hkept
      rw [setLeftover_eq,hskip,hkept]
    · obtain ⟨ha,hrest⟩ := stripped_front hb hlong
      obtain ⟨ha',hrest'⟩ := stripped_front hb' (hlen ▸ hlong)
      refine drainFrames_of_loop ts hskip ha ha' (by simp [hlen]) ?_
      rw [hrest,hrest',hs]
  · rcases showFrames_inv hs with heq | ⟨hdr,hp,-,hhead,-⟩
    · obtain ⟨rfl,rfl⟩ := List.append_inj heq hlen
      exact ⟨⟨rfl,fun _ => rfl⟩,fun _ => rfl⟩
    obtain ⟨hshort,hstrip⟩ := plain_front hb.2 hp
    obtain ⟨hshort',hstrip'⟩ := plain_front hb'.2 ((prefaceHeader_congr hhead).symm.trans hp)
    have hfew : a.length < headerLen → a = a' := fun hlt => by
      have hsame := congrArg (List.take a.length) hhead
      rwa [List.take_take,List.take_take,Nat.min_eq_left hlt.le,List.take_left,hlen,List.take_left]
        at hsame
    cases hwait : waitingPreface a with
    | true =>
      obtain rfl := hfew (hshort hwait)
      refine drainFrames_kept ts hskip ?_ h
      simp [drainFrames,setLeftover,hwait]
    | false =>
      have hwait' : waitingPreface a' = false := by
        rw [Bool.eq_false_iff]
        intro hw
        rw [hfew (by rw [hlen]; exact hshort' hw),hw] at hwait
        cases hwait
      exact drainFrames_of_loop ts hskip ⟨hwait,hstrip⟩ ⟨hwait',hstrip'⟩ hlen hs

end Drain

theorem takeSkip_eq (p : DirPipe) (src : List UInt8) :
    takeSkip p src =
      ({p with skip := p.skip - min p.skip src.length},src.drop (min p.skip src.length)) := by
  simp only [takeSkip]
  split_ifs with h
  · rcases h with h | rfl
    · obtain ⟨leftover,skip,decoder,block⟩ := p
      subst h
      simp
    · simp
  · rw [Nat.min_comm]

section Push

variable {c : H2Conn} {dir : IoDir} {src src' r r' : List UInt8}

theorem takeSkip_append {p : DirPipe} (h : p.skip ≤ src.length) (r : List UInt8) :
    takeSkip p (src ++ r) = ((takeSkip p src).1,(takeSkip p src).2 ++ r) := by
  rw [takeSkip_eq,takeSkip_eq,Nat.min_eq_left h,Nat.min_eq_left (by simp; omega),
    List.drop_append_of_le_length h]

theorem DirPipe.SeesSame.front {p : DirPipe} (h : p.SeesSame (src ++ r) (src' ++ r'))
    (hlen : src.length = src'.length) : p.SeesSame src src' := by
  rcases Nat.lt_or_ge src.length p.skip with hlt | hge
  · simp only [SeesSame,shown,Nat.min_eq_right hlt.le,← hlen,List.drop_length]
    rw [hlen,List.drop_length]
  · have hfront : ∀ u v : List UInt8, u.length = src.length →
        p.shown u = (p.shown (u ++ v)).take (p.leftover.length + src.length) := fun u v hu => by
      have hskip : p.skip ≤ u.length := by omega
      simp only [shown,Nat.min_eq_left hskip,
        Nat.min_eq_left (show p.skip ≤ (u ++ v).length by simp; omega),
        List.drop_append_of_le_length hskip]
      rw [List.take_append,List.take_of_length_le (by simp; omega),List.length_replicate,
        ← showStream_take,← List.append_assoc,List.take_left' (by simp; omega)]
    rw [SeesSame,hfront src r rfl,hfront src' r' hlen.symm,show p.shown _ = p.shown _ from h]

theorem DirPipe.SeesSame.skipped {p : DirPipe} (h : p.SeesSame (src ++ r) (src' ++ r'))
    (hle : src.length ≤ p.skip) (hlen : src.length = src'.length) :
    {p with skip := p.skip - src.length}.SeesSame r r' := by
  have hmove : ∀ u v : List UInt8, u.length = src.length → p.shown (u ++ v) =
      List.replicate u.length none ++ {p with skip := p.skip - src.length}.shown v := fun u v hu => by
    have hmin : min p.skip (u ++ v).length = u.length + min (p.skip - src.length) v.length := by
      simp only [List.length_append]
      omega
    simp only [shown,hmin,List.replicate_add,List.append_assoc,List.drop_append,
      List.drop_eq_nil_of_le (Nat.le_add_right u.length _),List.nil_append,Nat.add_sub_cancel_left]
  have hshown : p.shown (src ++ r) = p.shown (src' ++ r') := h
  rw [hmove src r rfl,hmove src' r' hlen.symm,← hlen] at hshown
  exact List.append_cancel_left hshown

theorem DirPipe.SeesSame.taken {p : DirPipe} (h : p.SeesSame src src') :
    (takeSkip p src).1 = (takeSkip p src').1 ∧
      (takeSkip p src).2.length = (takeSkip p src').2.length ∧
      showStream skipPayload (p.leftover ++ (takeSkip p src).2) =
        showStream skipPayload (p.leftover ++ (takeSkip p src').2) := by
  have hlen := h.length
  have hshown : p.shown src = p.shown src' := h
  simp only [DirPipe.shown,← hlen] at hshown
  rw [takeSkip_eq,takeSkip_eq,← hlen]
  exact ⟨rfl,by simp [hlen],List.append_cancel_left hshown⟩

/-- What the turn fills the buffer with is in front of what it leaves. -/
theorem fillPipe_front (hc : (c.pipe dir).Bounded) (src : List UInt8) :
    ∃ a, (fillPipe c dir src).1 = setLeftover (c.setPipe dir (takeSkip (c.pipe dir) src).1) dir a ∧
      a.length = (c.pipe dir).leftover.length + min (takeSkip (c.pipe dir) src).2.length
        (leftoverCap - (c.pipe dir).leftover.length) ∧
      a ++ (fillPipe c dir src).2 = (c.pipe dir).leftover ++ (takeSkip (c.pipe dir) src).2 := by
  obtain ⟨-,hleft,-⟩ := takeSkip_bounded hc src
  refine ⟨_,rfl,?_,?_⟩
  · simp only [H2Conn.pipe_setPipe,hleft,List.length_append,List.length_take]
    omega
  · simp only [fillPipe,H2Conn.pipe_setPipe,hleft,List.append_assoc,List.take_append_drop]

theorem fillPipe_seen (hc : (c.pipe dir).Bounded) (hlen : src.length = src'.length)
    (h : (c.pipe dir).SeesSame (src ++ r) (src' ++ r')) (hne : (takeSkip (c.pipe dir) src).2 ≠ [])
    (ts : ℕ) :
    let q := drainFrames (fillPipe c dir src).1 dir ts
    Agrees (drainFrames (fillPipe c dir src').1 dir ts) q ∧
      (q.2.outcome.halted = false →
        (q.1.pipe dir).SeesSame ((fillPipe c dir src).2 ++ r) ((fillPipe c dir src').2 ++ r')) := by
  obtain ⟨hpipe,htaken,-⟩ := (h.front hlen).taken
  have hle : (c.pipe dir).skip ≤ src.length := by
    by_contra hlt
    refine hne ?_
    rw [takeSkip_eq,Nat.min_eq_right (by omega),List.drop_length]
  have hshown := h.taken.2.2
  rw [takeSkip_append hle,takeSkip_append (hlen ▸ hle),← List.append_assoc,← List.append_assoc]
    at hshown
  obtain ⟨a,hfill,hsize,hfront⟩ := fillPipe_front hc src
  obtain ⟨a',hfill',hsize',hfront'⟩ := fillPipe_front hc src'
  have hskip : ((c.setPipe dir (takeSkip (c.pipe dir) src).1).pipe dir).skip = 0 := by
    rw [H2Conn.pipe_setPipe]
    exact (takeSkip_bounded hc src).2.2 hne
  rw [hfill,hfill',← hpipe]
  refine drainFrames_seen ts hskip (by rw [hsize,hsize',htaken]) ?_
  rw [← List.append_assoc,← List.append_assoc,hfront,hfront',hshown]

theorem fillPipe_skipped (hc : (c.pipe dir).Bounded) (hlen : src.length = src'.length)
    (h : (c.pipe dir).SeesSame (src ++ r) (src' ++ r')) (hnil : (takeSkip (c.pipe dir) src).2 = [])
    (ts : ℕ) :
    let q := drainFrames (fillPipe c dir src).1 dir ts
    q.2.outcome.halted = false → (q.1.pipe dir).SeesSame r r' := by
  have hle : src.length ≤ (c.pipe dir).skip := by
    rw [takeSkip_eq,List.drop_eq_nil_iff] at hnil
    omega
  have hfill : (fillPipe c dir src).1 =
      c.setPipe dir {c.pipe dir with skip := (c.pipe dir).skip - src.length} := by
    simp only [fillPipe,hnil,List.length_nil,Nat.zero_min,List.take_nil,List.append_nil,setLeftover,
      H2Conn.pipe_setPipe,H2Conn.setPipe_setPipe]
    rw [takeSkip_eq,Nat.min_eq_right hle]
  have hrest := h.skipped hle hlen
  rw [hfill]
  by_cases hzero : (c.pipe dir).skip - src.length = 0
  · have hleft : c.setPipe dir {c.pipe dir with skip := (c.pipe dir).skip - src.length} =
        setLeftover (c.setPipe dir {c.pipe dir with skip := 0}) dir (c.pipe dir).leftover := by
      simp only [setLeftover,H2Conn.pipe_setPipe,H2Conn.setPipe_setPipe,hzero]
    rw [hleft]
    refine (drainFrames_seen ts ?_ rfl ?_).2
    · rw [H2Conn.pipe_setPipe]
    · simpa [DirPipe.SeesSame,DirPipe.shown,hzero] using hrest
  · have hempty := hc.skipping (by omega)
    have hbuf : c.setPipe dir {c.pipe dir with skip := (c.pipe dir).skip - src.length} =
        setBuf c dir [] ((c.pipe dir).skip - src.length) := setPipe_of_buf (by rw [← hempty])
    rw [hbuf,drainFrames_nil]
    intro q _
    rw [pipe_setBuf]
    simpa only [DirPipe.SeesSame,DirPipe.shown,hempty] using hrest

/-- `push_bytes` on two sources, before octets `r` and `r'`, of which the pipe sees the same: the
same effects, and unless they end the connection the same is seen of what follows. -/
theorem pushLoop_seen (hc : (c.pipe dir).Bounded) (hlen : src.length = src'.length)
    (h : (c.pipe dir).SeesSame (src ++ r) (src' ++ r')) (ts : ℕ) (acc : Emitted) :
    let q := pushLoop c dir src ts acc
    Agrees (pushLoop c dir src' ts acc) q ∧
      (q.2.outcome.halted = false → (q.1.pipe dir).SeesSame r r') := by
  induction hn : src.length using Nat.strong_induction_on generalizing c src src' acc with
  | _ n ih =>
    obtain ⟨hpipe,htaken,-⟩ := (h.front hlen).taken
    have hnow : ∀ e : Emitted, (acc ++ e).outcome.halted = false → e.outcome.halted = false := by
      intro e he
      simp only [Emitted.outcome_append,halted_mergeOutcome,Bool.or_eq_false_iff] at he
      exact he.2
    rw [pushLoop_turn hc src,pushLoop_turn hc src']
    dsimp only
    by_cases hnil : (takeSkip (c.pipe dir) src).2 = []
    · have hnil' : (takeSkip (c.pipe dir) src').2 = [] := by
        rw [← List.length_eq_zero_iff,← htaken,hnil]
        rfl
      have hsame : fillPipe c dir src' = fillPipe c dir src := by
        simp only [fillPipe,hpipe,hnil,hnil']
      rw [if_pos hnil,if_pos hnil',hsame]
      exact ⟨⟨rfl,fun _ => rfl⟩,fun hlive => fillPipe_skipped hc hlen h hnil ts (hnow _ hlive)⟩
    have hnil' : (takeSkip (c.pipe dir) src').2 ≠ [] := by
      rw [← List.length_pos_iff,← htaken]
      exact List.length_pos_iff.mpr hnil
    obtain ⟨hagree,hnext⟩ := fillPipe_seen hc hlen h hnil ts
    have hleft : (fillPipe c dir src).2.length = (fillPipe c dir src').2.length := by
      simp only [fillPipe,H2Conn.pipe_setPipe,← hpipe,List.length_drop,htaken]
    rw [if_neg hnil,if_neg hnil',hagree.emitted]
    split_ifs with hhalt
    · exact ⟨⟨rfl,fun hlive => absurd (hlive.symm.trans hhalt) Bool.false_ne_true⟩,
        fun hlive => absurd (hlive.symm.trans hhalt) Bool.false_ne_true⟩
    · have hlive := hnow _ (by simpa using hhalt)
      rw [hagree.conn hlive]
      exact ih _ (hn ▸ fillPipe_length hc hnil) (drainFrames_bounded ts (fillPipe_within hc src))
        hleft (hnext hlive) _ rfl

end Push

end H2
end ObsAgent
