import ObsAgent.HpackSync
import ObsAgent.PushEffect
import ObsAgent.Registry

/-! The HTTP/2 state is bounded, whatever octets are fed, and what follows for the error
branches of the demultiplexer. -/
namespace ObsAgent

namespace Hpack

structure Decoder.Bounded (d : Decoder) : Prop where
  entries : d.dynamic.length ≤ dynamicCap
  octets : tableOctets d.dynamic ≤ d.maxSize
  size : d.maxSize ≤ defaultTableSize

theorem bounded_reset (d : Decoder) : d.reset.Bounded := ⟨Nat.zero_le _,Nat.zero_le _,le_rfl⟩

theorem bounded_evict {size : ℕ} (hsize : size ≤ defaultTableSize) (l : List Header) :
    Decoder.Bounded ⟨Decoder.evict size l,size⟩ := by
  have hfits := (@Trim.trim_longest _ (fun m => m.length ≤ dynamicCap ∧
    Decoder.tableOctets m ≤ size) _ ⟨by decide,Nat.zero_le _⟩ l).accepted
  rw [← evict_eq_trim] at hfits
  exact ⟨hfits.1,hfits.2,hsize⟩

theorem Decoder.Bounded.tryDecode {d : Decoder} (h : d.Bounded) (src : List UInt8) (out : Pseudo) :
    ∀ q ∈ d.tryDecode src out, q.1.Bounded := by
  fun_induction Decoder.tryDecode d src out with
  | case1 d out =>
    rintro q hq
    obtain rfl := Option.some.inj hq
    exact h
  | case2 | case3 | case5 | case7 | case8 | case10 => simp
  | case4 d out b0 tail _ idx rest _ n v _ ih => exact ih h
  | case6 d out b0 tail _ _ name value rest _ ih => exact ih (bounded_evict h.size _)
  | case9 d out b0 tail _ _ _ size rest _ d' hset ih =>
    simp only [Decoder.setMaxSize] at hset
    split_ifs at hset with hbig
    obtain rfl := Option.some.inj hset
    exact ih (bounded_evict (by omega) _)
  | case11 d out b0 tail _ _ _ name value rest _ ih => exact ih h

theorem Decoder.Bounded.decodeBlock {d : Decoder} (h : d.Bounded) (src : List UInt8) :
    (d.decodeBlock src).1.Bounded := by
  rw [Decoder.decodeBlock]
  cases hq : d.tryDecode src Pseudo.default with
  | none => exact bounded_reset d
  | some q => exact h.tryDecode src _ q hq

end Hpack

namespace H2

structure DirPipe.Within (n : ℕ) (p : DirPipe) : Prop where
  decoder : p.decoder.Bounded
  block : ∀ b ∈ p.headerBlock, b.2.length ≤ leftoverCap
  stored : p.leftover.length < n
  skipping : 0 < p.skip → p.leftover = []

def DirPipe.Bounded (p : DirPipe) : Prop := p.Within leftoverCap

theorem bounded_newPipe : DirPipe.new.Bounded :=
  ⟨Hpack.bounded_reset .default,by simp [DirPipe.new],by decide,fun _ => rfl⟩

theorem DirPipe.Within.store {p : DirPipe} {m n : ℕ} (h : p.Within m) {buf : List UInt8}
    (hlen : buf.length < n) (hskip : 0 < p.skip → buf = []) :
    ({p with leftover := buf} : DirPipe).Within n := ⟨h.decoder,h.block,hlen,hskip⟩

/-- A frame leaves the buffer and the skip count alone, and the rest within bounds. -/
structure Keeps (p p' : DirPipe) : Prop where
  leftover : p'.leftover = p.leftover
  skip : p'.skip = p.skip
  within : ∀ n, p.Within n → p'.Within n

theorem keeps_refl (p : DirPipe) : Keeps p p := ⟨rfl,rfl,fun _ => id⟩

theorem Keeps.of_eq {p q r : DirPipe} (h : Keeps p q) (he : r = q) : Keeps p r := he ▸ h

theorem Keeps.trans {p q r : DirPipe} (h : Keeps p q) (h' : Keeps q r) : Keeps p r :=
  ⟨h'.leftover.trans h.leftover,h'.skip.trans h.skip,fun n hb => h'.within n (h.within n hb)⟩

theorem keeps_block (p : DirPipe) {block : Option (ℕ × List UInt8)}
    (h : ∀ b ∈ block, b.2.length ≤ leftoverCap) : Keeps p {p with headerBlock := block} :=
  ⟨rfl,rfl,fun _ hb => ⟨hb.decoder,h,hb.stored,hb.skipping⟩⟩

theorem keeps_no_block (p : DirPipe) : Keeps p {p with headerBlock := none} :=
  keeps_block p (by simp)

theorem pipe_with_streams (c : H2Conn) (streams : Streams) (dir : IoDir) :
    ({c with streams := streams} : H2Conn).pipe dir = c.pipe dir := by
  cases dir <;> rfl

section Frame

variable (c : H2Conn) (dir : IoDir) (ts : ℕ)

theorem onHeaderBlock_keeps (sid : ℕ) (frag : List UInt8) :
    Keeps (c.pipe dir) ((onHeaderBlock c dir sid frag ts).1.pipe dir) := by
  have hdecode : Keeps (c.pipe dir)
      {c.pipe dir with decoder := ((c.pipe dir).decoder.decodeBlock frag).1} :=
    ⟨rfl,rfl,fun _ hb => ⟨hb.decoder.decodeBlock frag,hb.block,hb.stored,hb.skipping⟩⟩
  simp only [onHeaderBlock]
  split_ifs
  · exact keeps_refl _
  · split <;> rename_i hd <;> rw [hd] at hdecode
    · rwa [H2Conn.pipe_setPipe]
    · exact hdecode.of_eq ((pipe_with_streams (c.setPipe dir _) _ dir).trans (c.pipe_setPipe dir _))

theorem applyControl_keeps (hdr : FrameHeader) :
    Keeps (c.pipe dir) ((applyControl c dir hdr).1.pipe dir) := by
  simp only [applyControl]
  split_ifs
  · rw [pipe_with_streams]
    exact keeps_refl _
  · exact keeps_refl _
  · rw [H2Conn.pipe_setPipe]
    exact keeps_no_block _
  · exact keeps_refl _

theorem applyContinuation_keeps (hdr : FrameHeader) (payload : List UInt8) :
    Keeps (c.pipe dir) ((applyContinuation c dir hdr payload ts).1.pipe dir) := by
  have htaken : Keeps (c.pipe dir)
      ((c.setPipe dir {c.pipe dir with headerBlock := none}).pipe dir) := by
    rw [H2Conn.pipe_setPipe]
    exact keeps_no_block _
  simp only [applyContinuation]
  split
  · exact keeps_refl _
  · split_ifs with hother hlong
    · exact htaken
    · exact htaken
    · exact htaken.trans (onHeaderBlock_keeps _ dir ts _ _)
    · rw [H2Conn.pipe_setPipe]
      refine htaken.trans (keeps_block _ ?_)
      rintro b hb
      obtain rfl := Option.some.inj hb
      rw [List.length_append]
      omega

theorem headersFragment_length {flags : UInt8} {payload frag : List UInt8}
    (h : headersFragment flags payload = some frag) : frag.length ≤ payload.length := by
  simp only [headersFragment] at h
  obtain ⟨p,hp,hfrag⟩ := Option.bind_eq_some_iff.mp h
  have hle : frag.length ≤ p.length := by
    split_ifs at hfrag
    · obtain rfl := Option.some.inj hfrag
      simp
    · obtain rfl := Option.some.inj hfrag
      exact le_rfl
  refine hle.trans ?_
  split_ifs at hp
  · cases payload with
    | nil => simp at hp
    | cons pad rest =>
      dsimp only at hp
      split_ifs at hp
      obtain rfl := Option.some.inj hp
      simp only [List.length_take,List.length_cons]
      omega
  · obtain rfl := Option.some.inj hp
    exact le_rfl

theorem applyHeadersOrControl_keeps (hdr : FrameHeader) {payload : List UInt8}
    (hlen : payload.length ≤ leftoverCap) :
    Keeps (c.pipe dir) ((applyHeadersOrControl c dir hdr payload ts).1.pipe dir) := by
  simp only [applyHeadersOrControl]
  split_ifs
  · split
    · exact keeps_refl _
    · exact onHeaderBlock_keeps c dir ts _ _
  · split
    · exact keeps_refl _
    · rename_i frag hfrag
      rw [H2Conn.pipe_setPipe]
      refine keeps_block _ ?_
      rintro b hb
      obtain rfl := Option.some.inj hb
      exact (headersFragment_length hfrag).trans hlen
  · exact applyContinuation_keeps c dir ts hdr payload
  · rw [pipe_with_streams]
    exact keeps_refl _
  · exact keeps_refl _
  · exact keeps_refl _

end Frame

/-- A turn of the loop of `drain_frames`: the connection, the buffer and the effects behind the
frame at the head of the buffer, if enough of it is there. -/
def drainTurn (c : H2Conn) (dir : IoDir) (ts : ℕ) (buf : List UInt8) :
    Option (H2Conn × List UInt8 × Emitted) :=
  match FrameHeader.parse buf with
  | none => none
  | some hdr =>
    if skipPayload hdr then
      if hdr.totalLen ≤ buf.length then
        let q := skipFrame c dir hdr
        some (q.1,buf.drop hdr.totalLen,q.2)
      else
        let q := skipFrame
          (c.setPipe dir {c.pipe dir with skip := hdr.totalLen - buf.length}) dir hdr
        some (q.1,[],q.2)
    else if buf.length < hdr.totalLen then none
    else
      let q := applyHeadersOrControl c dir hdr ((buf.take hdr.totalLen).drop headerLen) ts
      some (q.1,buf.drop hdr.totalLen,q.2)

section Turns

variable {hdr : FrameHeader} {buf : List UInt8}

theorem drainTurn_skipped (c : H2Conn) (dir : IoDir) (ts : ℕ) (hp : FrameHeader.parse buf = some hdr)
    (hs : skipPayload hdr = true) (hlen : hdr.totalLen ≤ buf.length) :
    drainTurn c dir ts buf =
      some ((skipFrame c dir hdr).1,buf.drop hdr.totalLen,(skipFrame c dir hdr).2) := by
  simp only [drainTurn,hp,if_pos hs,if_pos hlen]

theorem drainTurn_part (c : H2Conn) (dir : IoDir) (ts : ℕ) (hp : FrameHeader.parse buf = some hdr)
    (hs : skipPayload hdr = true) (hlen : buf.length < hdr.totalLen) :
    drainTurn c dir ts buf =
      let q := skipFrame
        (c.setPipe dir {c.pipe dir with skip := hdr.totalLen - buf.length}) dir hdr
      some (q.1,[],q.2) := by
  simp only [drainTurn,hp,if_pos hs,if_neg (Nat.not_le.mpr hlen)]

theorem drainTurn_stored (c : H2Conn) (dir : IoDir) (ts : ℕ) (hp : FrameHeader.parse buf = some hdr)
    (hs : skipPayload hdr = false) (hlen : hdr.totalLen ≤ buf.length) :
    drainTurn c dir ts buf =
      let q := applyHeadersOrControl c dir hdr ((buf.take hdr.totalLen).drop headerLen) ts
      some (q.1,buf.drop hdr.totalLen,q.2) := by
  simp only [drainTurn,hp,hs,Bool.false_eq_true,if_false,if_neg (Nat.not_lt.mpr hlen)]

theorem drainTurn_waits (c : H2Conn) (dir : IoDir) (ts : ℕ) (hp : FrameHeader.parse buf = some hdr)
    (hs : skipPayload hdr = false) (hlen : buf.length < hdr.totalLen) :
    drainTurn c dir ts buf = none := by
  simp only [drainTurn,hp,hs,Bool.false_eq_true,if_false,if_pos hlen]

theorem drainTurn_short (c : H2Conn) (dir : IoDir) (ts : ℕ) (hlen : buf.length < headerLen) :
    drainTurn c dir ts buf = none := by
  simp only [drainTurn,FrameHeader.parse_eq_none.mpr hlen]

theorem totalLen_le_cap (h : skipPayload hdr = false) : hdr.totalLen ≤ leftoverCap := by
  simp only [skipPayload] at h
  split_ifs at h
  simpa using h

end Turns

theorem drainLoop_turn (c : H2Conn) (dir : IoDir) (ts : ℕ) (buf : List UInt8) (acc : Emitted) :
    drainLoop c dir ts buf acc =
      match drainTurn c dir ts buf with
      | none => (c,buf,acc)
      | some (c',buf',e) =>
        if (acc ++ e).outcome.halted then (c',buf',acc ++ e)
        else drainLoop c' dir ts buf' (acc ++ e) := by
  rw [drainLoop,drainTurn]
  cases hp : FrameHeader.parse buf with
  | none => simp [FrameHeader.parse_eq_none.mp hp]
  | some hdr =>
    rw [if_neg (Nat.not_lt.mpr (FrameHeader.length_of_parse hp))]
    dsimp only
    split_ifs <;> simp_all

theorem skipFrame_keeps (c : H2Conn) (dir : IoDir) (hdr : FrameHeader) :
    Keeps (c.pipe dir) ((skipFrame c dir hdr).1.pipe dir) := applyControl_keeps c dir hdr

/-- The pipe inside the loop, whose buffer the loop has taken. -/
structure Draining (p : DirPipe) (buf : List UInt8) : Prop where
  bounded : p.Bounded
  taken : p.leftover = []
  skipping : p.skip = 0 ∨ buf = []

theorem Draining.turn {c c' : H2Conn} {dir : IoDir} {ts : ℕ} {buf buf' : List UInt8} {e : Emitted}
    (h : Draining (c.pipe dir) buf) (hlen : buf.length ≤ leftoverCap)
    (hturn : drainTurn c dir ts buf = some (c',buf',e)) : Draining (c'.pipe dir) buf' := by
  have hkeep : ∀ {p p' : DirPipe} {rest : List UInt8}, Keeps p p' → Draining p rest →
      Draining p' rest := fun hk hd =>
    ⟨hk.within _ hd.bounded,hk.leftover.trans hd.taken,hd.skipping.imp_left hk.skip.trans⟩
  simp only [drainTurn] at hturn
  cases hp : FrameHeader.parse buf with
  | none => simp [hp] at hturn
  | some hdr =>
    have hne : buf ≠ [] := fun hnil => by simp [hnil,FrameHeader.parse,headerLen] at hp
    have hdrop : Draining (c.pipe dir) (buf.drop hdr.totalLen) :=
      ⟨h.bounded,h.taken,Or.inl (h.skipping.resolve_right hne)⟩
    simp only [hp] at hturn
    split_ifs at hturn with hs hwhole hpart
    · cases hturn
      exact hkeep (skipFrame_keeps c dir hdr) hdrop
    · cases hturn
      refine hkeep (skipFrame_keeps _ dir hdr) ?_
      rw [H2Conn.pipe_setPipe]
      exact ⟨⟨h.bounded.decoder,h.bounded.block,h.bounded.stored,fun _ => h.taken⟩,h.taken,
        Or.inr rfl⟩
    · cases hturn
      have hpay : ((buf.take hdr.totalLen).drop headerLen).length ≤ leftoverCap := by
        simp only [List.length_drop,List.length_take]
        omega
      exact hkeep (applyHeadersOrControl_keeps c dir ts hdr hpay) hdrop

theorem drainTurn_none {c : H2Conn} {dir : IoDir} {ts : ℕ} {buf : List UInt8}
    (h : drainTurn c dir ts buf = none) : buf.length < leftoverCap := by
  simp only [drainTurn] at h
  cases hp : FrameHeader.parse buf with
  | none => exact (FrameHeader.parse_eq_none.mp hp).trans (by decide)
  | some hdr =>
    simp only [hp] at h
    split_ifs at h with hs hwhole hpart
    have hcap := totalLen_le_cap (by simpa using hs)
    omega

theorem drainTurn_length {c c' : H2Conn} {dir : IoDir} {ts : ℕ} {buf buf' : List UInt8}
    {e : Emitted} (h : drainTurn c dir ts buf = some (c',buf',e)) : buf'.length < buf.length := by
  simp only [drainTurn] at h
  cases hp : FrameHeader.parse buf with
  | none => simp [hp] at h
  | some hdr =>
    have hhead := FrameHeader.length_of_parse hp
    have htotal := hdr.headerLen_le_totalLen
    simp only [headerLen] at hhead htotal
    simp only [hp] at h
    split_ifs at h <;> cases h <;> simp <;> omega

theorem Draining.stored {c : H2Conn} {dir : IoDir} {buf : List UInt8}
    (h : Draining (c.pipe dir) buf) (hlen : buf.length < leftoverCap) :
    ((setLeftover c dir buf).pipe dir).Bounded := by
  rw [setLeftover,H2Conn.pipe_setPipe]
  exact h.bounded.store hlen fun hpos => h.skipping.resolve_left (by omega)

theorem drainLoop_bounded {c : H2Conn} {dir : IoDir} (ts : ℕ) {buf : List UInt8} (acc : Emitted)
    (h : Draining (c.pipe dir) buf) (hlen : buf.length ≤ leftoverCap) :
    ((setLeftover (drainLoop c dir ts buf acc).1 dir (drainLoop c dir ts buf acc).2.1).pipe
      dir).Bounded := by
  induction hn : buf.length using Nat.strong_induction_on generalizing c buf acc with
  | _ n ih =>
    rw [drainLoop_turn]
    cases hturn : drainTurn c dir ts buf with
    | none => exact h.stored (drainTurn_none hturn)
    | some q =>
      obtain ⟨c',buf',e⟩ := q
      have hless := drainTurn_length hturn
      have hnext := h.turn hlen hturn
      dsimp only
      split_ifs
      · exact hnext.stored (hless.trans_le hlen)
      · exact ih _ (hn ▸ hless) _ hnext (hless.le.trans hlen) rfl

theorem drainFrames_bounded {c : H2Conn} {dir : IoDir} (ts : ℕ)
    (h : (c.pipe dir).Within (leftoverCap + 1)) : ((drainFrames c dir ts).1.pipe dir).Bounded := by
  simp only [drainFrames]
  split_ifs with hwait
  · refine ⟨h.decoder,h.block,?_,h.skipping⟩
    have hshort : (c.pipe dir).leftover.length < clientPreface.length := by
      simp only [waitingPreface,Bool.and_eq_true,decide_eq_true_eq] at hwait
      exact hwait.1.2
    exact hshort.trans (by decide +kernel)
  · have hstrip : stripPreface (c.pipe dir).leftover <:+ (c.pipe dir).leftover := by
      rw [stripPreface]
      split_ifs
      · exact List.drop_suffix _ _
      · exact List.suffix_refl _
    refine drainLoop_bounded ts _ ?_ (hstrip.length_le.trans (Nat.lt_succ_iff.mp h.stored))
    rw [setLeftover,H2Conn.pipe_setPipe]
    refine ⟨h.store (by decide) fun _ => rfl,rfl,?_⟩
    rcases Nat.eq_zero_or_pos (c.pipe dir).skip with hzero | hpos
    · exact Or.inl hzero
    · rw [h.skipping hpos,List.suffix_nil] at hstrip
      exact Or.inr (h.skipping hpos ▸ hstrip)

/-- The first half of a turn of the loop of `push_bytes`: octets are skipped, and others stored. -/
def fillPipe (c : H2Conn) (dir : IoDir) (src : List UInt8) : H2Conn × List UInt8 :=
  let taken := takeSkip (c.pipe dir) src
  let c' := c.setPipe dir taken.1
  let n := min taken.2.length (leftoverCap - (c'.pipe dir).leftover.length)
  (setLeftover c' dir ((c'.pipe dir).leftover ++ taken.2.take n),taken.2.drop n)

theorem takeSkip_bounded {p : DirPipe} (h : p.Bounded) (src : List UInt8) :
    (takeSkip p src).1.Bounded ∧ (takeSkip p src).1.leftover = p.leftover ∧
      ((takeSkip p src).2 ≠ [] → (takeSkip p src).1.skip = 0) := by
  simp only [takeSkip]
  split_ifs with hnone
  · exact ⟨h,rfl,fun hne => hnone.resolve_right hne⟩
  · refine ⟨⟨h.decoder,h.block,h.stored,fun _ => h.skipping (by omega)⟩,rfl,fun hne => ?_⟩
    have hpos := List.length_pos_iff.mpr hne
    simp only [List.length_drop] at hpos ⊢
    omega

section Turn

variable {c : H2Conn} {dir : IoDir}

theorem room_of_bounded (h : (c.pipe dir).Bounded) (src : List UInt8) :
    leftoverCap - ((c.setPipe dir (takeSkip (c.pipe dir) src).1).pipe dir).leftover.length ≠ 0 := by
  have hstored := h.stored
  rw [H2Conn.pipe_setPipe,(takeSkip_bounded h src).2.1]
  omega

theorem fillPipe_within (h : (c.pipe dir).Bounded) (src : List UInt8) :
    ((fillPipe c dir src).1.pipe dir).Within (leftoverCap + 1) := by
  obtain ⟨hb,-,hskip⟩ := takeSkip_bounded h src
  have hstored := hb.stored
  simp only [fillPipe,setLeftover,H2Conn.pipe_setPipe]
  refine hb.store ?_ fun hpos => ?_
  · rw [List.length_append,List.length_take]
    omega
  · have hnil : (takeSkip (c.pipe dir) src).2 = [] := by
      by_contra hne
      exact absurd (hskip hne) (by omega)
    rw [hb.skipping hpos,hnil]
    rfl

/-- Below the bounds the loop has no use for its full-buffer branch. -/
theorem pushLoop_turn (h : (c.pipe dir).Bounded) (src : List UInt8) (ts : ℕ) (acc : Emitted) :
    pushLoop c dir src ts acc =
      let f := fillPipe c dir src
      let q := drainFrames f.1 dir ts
      if (takeSkip (c.pipe dir) src).2 = [] then (q.1,acc ++ q.2)
      else if (acc ++ q.2).outcome.halted then (q.1,acc ++ q.2)
      else pushLoop q.1 dir f.2 ts (acc ++ q.2) := by
  have hroom := room_of_bounded h src
  by_cases hnil : (takeSkip (c.pipe dir) src).2 = []
  · have hfill : (fillPipe c dir src).1 = c.setPipe dir (takeSkip (c.pipe dir) src).1 := by
      simp [fillPipe,hnil,setLeftover]
    rw [pushLoop]
    simp only [if_pos hnil,hfill]
  · rw [pushLoop]
    simp only [if_neg hnil,if_neg hroom]
    rfl

theorem fillPipe_length (h : (c.pipe dir).Bounded) {src : List UInt8}
    (hne : (takeSkip (c.pipe dir) src).2 ≠ []) : (fillPipe c dir src).2.length < src.length := by
  have hroom := room_of_bounded h src
  have hpos := List.length_pos_iff.mpr hne
  have hle := takeSkip_length (c.pipe dir) src
  simp only [fillPipe,List.length_drop]
  omega

end Turn

theorem pushLoop_bounded {c : H2Conn} {dir : IoDir} (h : (c.pipe dir).Bounded) (src : List UInt8)
    (ts : ℕ) (acc : Emitted) : ((pushLoop c dir src ts acc).1.pipe dir).Bounded := by
  induction hn : src.length using Nat.strong_induction_on generalizing c src acc with
  | _ n ih =>
    have hnext := drainFrames_bounded ts (fillPipe_within h src)
    rw [pushLoop_turn h]
    dsimp only
    split_ifs with hnil
    · exact hnext
    · exact hnext
    · exact ih _ (hn ▸ fillPipe_length h hnil) hnext _ _ rfl

theorem moves_flip {dir : IoDir} {ts : ℕ} {c c' : H2Conn} {e : Emitted} (h : Moves dir ts c c' e) :
    c'.pipe dir.flip = c.pipe dir.flip := by
  induction h with
  | pipe c p _ _ _ => exact c.pipe_setPipe_flip dir p
  | reset c sid => exact pipe_with_streams c _ _
  | block c decoded _ => exact pipe_with_streams c _ _
  | trans _ _ ih ih' => exact ih'.trans ih

structure Streams.Bounded (streams : Streams) : Prop where
  few : streams.len ≤ maxStreams
  named : ∀ sid p, streams.get sid = some p → p.path ≠ ""

theorem Streams.Bounded.remove {streams : Streams} (h : streams.Bounded) (sid : ℕ) :
    Streams.Bounded (streams.remove sid) where
  few := (FiniteMap.len_remove_le _ _).trans h.few
  named sid' p hp := by
    rw [FiniteMap.get_remove] at hp
    split_ifs at hp
    exact h.named sid' p hp

theorem Streams.Bounded.pairBlock {streams : Streams} (h : streams.Bounded) (dir : IoDir) (sid : ℕ)
    (decoded : Hpack.Pseudo) (ts : ℕ) :
    Streams.Bounded (pairBlock streams dir sid decoded ts).1 := by
  simp only [H2.pairBlock]
  cases decoded.status with
  | some status =>
    dsimp only
    repeat' split
    all_goals exact h.remove sid
  | none =>
    cases decoded.method with
    | none => exact h
    | some method =>
      dsimp only
      cases hpath : decoded.path.filter (fun p => decide (p ≠ "")) with
      | none => exact h
      | some path =>
        dsimp only
        split_ifs with hfull
        · exact h
        · refine ⟨?_,fun sid' p hp => ?_⟩
          · by_cases hin : streams.contains sid = true
            · rw [FiniteMap.len_put_of_contains hin]
              exact h.few
            · have hlen := streams.len_put_le sid ⟨method,path,ts,dir⟩
              have hless : ¬ streams.len ≥ maxStreams := fun hge => hfull ⟨hge,hin⟩
              exact hlen.trans (by omega)
          · rw [FiniteMap.get_put] at hp
            split_ifs at hp
            · obtain rfl := Option.some.inj hp
              simpa using (Option.filter_eq_some_iff.mp hpath).2
            · exact h.named sid' p hp

theorem Moves.streams_bounded {dir : IoDir} {ts : ℕ} {c c' : H2Conn} {e : Emitted}
    (h : Moves dir ts c c' e) (hb : c.streams.Bounded) : c'.streams.Bounded := by
  induction h with
  | pipe c p _ _ _ => rwa [H2Conn.streams_setPipe]
  | reset c sid => exact hb.remove sid
  | block c decoded _ => exact hb.pairBlock _ _ _ _
  | trans _ _ ih ih' => exact ih' (ih hb)

structure H2Conn.Bounded (c : H2Conn) : Prop where
  pipes : ∀ dir, (c.pipe dir).Bounded
  streams : c.streams.Bounded

theorem bounded_newConn (now : Instant) : (H2Conn.new now).Bounded where
  pipes dir := by
    rw [H2Conn.pipe_new]
    exact bounded_newPipe
  streams := ⟨Nat.zero_le _,fun sid p hp => by simp [H2Conn.new] at hp⟩

theorem H2Conn.Bounded.atTime {c : H2Conn} (h : c.Bounded) (now : Instant) :
    H2Conn.Bounded {c with atTime := now} where
  pipes dir := by
    have hpipe := h.pipes dir
    cases dir <;> exact hpipe
  streams := h.streams

theorem H2Conn.Bounded.pushBytes {c : H2Conn} (h : c.Bounded) (dir : IoDir) (src : List UInt8)
    (ts : ℕ) : (pushBytes c dir src ts).1.Bounded where
  pipes d := by
    by_cases hd : d = dir
    · rw [hd]
      exact pushLoop_bounded (h.pipes dir) src ts .empty
    · obtain rfl : d = dir.flip := by cases d <;> cases dir <;> simp_all [IoDir.flip]
      rw [moves_flip (pushBytes_moves c src)]
      exact h.pipes _
  streams := (pushBytes_moves c src).streams_bounded h.streams

structure H2Registry.Bounded (r : H2Registry) : Prop where
  few : r.conns.len ≤ maxConns
  conns : ∀ k c, r.conns.get k = some c → c.Bounded

section Registry

variable {r : H2Registry}

theorem H2Registry.Bounded.remove (h : r.Bounded) (r' : H2Registry) (key : ConnKey)
    (hr : r'.conns = r.conns.remove key) : r'.Bounded where
  few := by
    rw [hr]
    exact (FiniteMap.len_remove_le _ _).trans h.few
  conns k c hc := by
    rw [hr,FiniteMap.get_remove] at hc
    split_ifs at hc
    exact h.conns k c hc

theorem H2Registry.Bounded.retain (h : r.Bounded) (keep : ConnKey → H2Conn → Bool) :
    (r.retainConns keep).Bounded where
  few := (List.length_filter_le _ _).trans h.few
  conns k c hc := by
    have hget : (r.conns.retain keep).get k = some c := hc
    rw [FiniteMap.get_retain] at hget
    exact h.conns k c (Option.filter_eq_some_iff.mp hget).1

theorem H2Registry.Bounded.dropConn (h : r.Bounded) (tgid : UInt32) (fd : Int32) :
    (r.dropConn tgid fd).Bounded := by
  rw [H2Registry.dropConn]
  cases r.conns.get ⟨tgid,fd⟩ <;> exact h.remove _ ⟨tgid,fd⟩ rfl

theorem H2Registry.Bounded.forget (h : r.Bounded) (key : ConnKey) (chunk : List UInt8) :
    (r.forget key chunk).Bounded := by
  rw [H2Registry.forget]
  split_ifs
  · exact h.remove _ key rfl
  · exact h

theorem H2Registry.Bounded.put (h : r.Bounded) {c : H2Conn} (hc : c.Bounded) (r' : H2Registry)
    {key : ConnKey} (hr : r'.conns = r.conns.put key c) (hlen : r'.conns.len ≤ maxConns) :
    r'.Bounded where
  few := hlen
  conns k c' hc' := by
    rw [hr,FiniteMap.get_put] at hc'
    split_ifs at hc'
    · obtain rfl := Option.some.inj hc'
      exact hc
    · exact h.conns k c' hc'

theorem H2Registry.Bounded.feedConn (h : r.Bounded) {conn : H2Conn} (hconn : conn.Bounded)
    {key : ConnKey} (hin : r.conns.contains key = true) (dir : IoDir) (ev : SockIoEvent)
    (now : Instant) (clientOnly : Bool) :
    (r.feedConn key conn dir ev now clientOnly).1.Bounded := by
  have hpushed := (hconn.atTime now).pushBytes dir ev.chunk ev.tsNs
  generalize hq : pushBytes {conn with atTime := now} dir ev.chunk ev.tsNs = q at hpushed
  have hconns : (r.feedConn key conn dir ev now clientOnly).1.conns =
      if q.2.outcome.goaway || q.2.outcome.desync then r.conns.remove key
        else r.conns.put key q.1 := by
    simp only [H2Registry.feedConn,hq]
  split_ifs at hconns
  · exact h.remove _ key hconns
  · refine h.put hpushed _ hconns ?_
    rw [hconns,FiniteMap.len_put_of_contains hin]
    exact h.few

theorem H2Registry.Bounded.feed (h : r.Bounded) (ev : SockIoEvent) (now : Instant)
    (clientOnly : Bool) : (r.feed ev now clientOnly).1.Bounded := by
  have hforget := h.forget ⟨ev.tgid,ev.fd⟩ ev.chunk
  have hfed := r.feed_fed ev now clientOnly
  generalize r.feed ev now clientOnly = q at hfed ⊢
  cases hfed with
  | ignored => exact h
  | foreign => exact hforget
  | full hr _ => exact ⟨(hr ▸ hforget).few,(hr ▸ hforget).conns⟩
  | known hr hconn =>
    subst hr
    exact hforget.feedConn (hforget.conns _ _ hconn) (by simp [FiniteMap.contains,hconn]) _ _ _ _
  | opened hr hnone hroom hq =>
    subst hr hq
    refine H2Registry.Bounded.feedConn (hforget.put (bounded_newConn now) _ rfl ?_)
      (bounded_newConn now) (by simp [FiniteMap.contains]) _ _ _ _
    exact (FiniteMap.len_put_le _ _ _).trans hroom

theorem H2Registry.Bounded.step (h : r.Bounded) (op : RegOp) : (r.step op).1.Bounded := by
  cases op with
  | feed ev now clientOnly => exact h.feed ev now clientOnly
  | dropConn tgid fd => exact h.dropConn tgid fd
  | evictStale now => exact h.retain _
  | evictClosed isLive => exact h.retain _
  | takeUnmark => exact ⟨h.few,h.conns⟩

theorem H2Registry.Bounded.run (h : r.Bounded) (ops : List RegOp) : (r.run ops).1.Bounded := by
  induction ops generalizing r with
  | nil => exact h
  | cons op ops ih => exact ih (h.step op)

theorem bounded_default : H2Registry.default.Bounded :=
  ⟨Nat.zero_le _,fun k c hc => by simp [H2Registry.default] at hc⟩

end Registry

open Relation (ReflTransGen)

/-- A turn of the loop of `drain_frames` behind which it goes on. -/
def DrainTurn (dir : IoDir) (ts : ℕ) (a b : H2Conn × List UInt8) : Prop :=
  ∃ e, drainTurn a.1 dir ts a.2 = some (b.1,b.2,e) ∧ e.outcome.halted = false

/-- A turn of the loop of `push_bytes` behind which it goes on. -/
def PushTurn (dir : IoDir) (ts : ℕ) (a b : H2Conn × List UInt8) : Prop :=
  (takeSkip (a.1.pipe dir) a.2).2 ≠ [] ∧
    (drainFrames (fillPipe a.1 dir a.2).1 dir ts).2.outcome.halted = false ∧
    b = ((drainFrames (fillPipe a.1 dir a.2).1 dir ts).1,(fillPipe a.1 dir a.2).2)

/-- The loop of `drain_frames` comes to the buffer `buf` with the connection `c`. -/
def Drains (dir : IoDir) (ts : ℕ) (full c : H2Conn) (buf : List UInt8) : Prop :=
  waitingPreface (full.pipe dir).leftover = false ∧
    ReflTransGen (DrainTurn dir ts)
      (setLeftover full dir [],stripPreface (full.pipe dir).leftover) (c,buf)

/-- While `push_bytes` reads `src`, the loop of `drain_frames` comes to `buf` with `c`. -/
def Reads (conn : H2Conn) (dir : IoDir) (src : List UInt8) (ts : ℕ) (c : H2Conn)
    (buf : List UInt8) : Prop :=
  ∃ a, ReflTransGen (PushTurn dir ts) (conn,src) a ∧ Drains dir ts (fillPipe a.1 dir a.2).1 c buf

/-- The frame at the head of the buffer is a CONTINUATION of another stream than that of the
open header block. -/
def Foreign (c : H2Conn) (dir : IoDir) (buf : List UInt8) : Prop :=
  ∃ hdr sid acc, FrameHeader.parse buf = some hdr ∧ hdr.ty = typeContinuation ∧
    (c.pipe dir).headerBlock = some (sid,acc) ∧ sid ≠ hdr.streamId

section Desync

variable {c : H2Conn} {dir : IoDir} {ts : ℕ}

theorem desync_of_halted {e : Emitted} (h : e.outcome.halted = false) : e.outcome.desync = false :=
  (Bool.or_eq_false_iff.mp h).2

theorem onHeaderBlock_desync (c : H2Conn) (dir : IoDir) (sid : ℕ) (frag : List UInt8) (ts : ℕ) :
    (onHeaderBlock c dir sid frag ts).2.outcome.desync = false := by
  simp only [onHeaderBlock]
  split_ifs
  · rfl
  · split
    · rfl
    · simp only [pairBlock]
      repeat' split
      all_goals rfl

theorem skipFrame_desync (c : H2Conn) (dir : IoDir) (hdr : FrameHeader) :
    (skipFrame c dir hdr).2.outcome.desync = false := by
  simp only [skipFrame,applyControl]
  split_ifs <;> rfl

theorem applyHeadersOrControl_desync {hdr : FrameHeader} {payload : List UInt8}
    (h : (applyHeadersOrControl c dir hdr payload ts).2.outcome.desync = true) :
    hdr.ty = typeContinuation ∧
      ∃ sid acc, (c.pipe dir).headerBlock = some (sid,acc) ∧ sid ≠ hdr.streamId := by
  simp only [applyHeadersOrControl] at h
  split_ifs at h with hH hend hC hR hG
  · split at h
    · simp [Emitted.empty,emptyOutcome] at h
    · simp [onHeaderBlock_desync] at h
  · split at h <;> simp [Emitted.empty,emptyOutcome] at h
  · refine ⟨hC,?_⟩
    simp only [applyContinuation] at h
    cases hblock : (c.pipe dir).headerBlock with
    | none => simp [hblock,Emitted.empty,emptyOutcome] at h
    | some b =>
      simp only [hblock] at h
      split_ifs at h with hother
      · exact ⟨b.1,b.2,rfl,hother⟩
      · simp [Emitted.missing,Emitted.counted,emptyOutcome] at h
      · simp [onHeaderBlock_desync] at h
      · simp [Emitted.empty,emptyOutcome] at h
  · simp [emptyOutcome] at h
  · simp [Emitted.counted,emptyOutcome] at h
  · simp [Emitted.empty,emptyOutcome] at h

theorem drainTurn_desync {c' : H2Conn} {buf buf' : List UInt8} {e : Emitted}
    (hturn : drainTurn c dir ts buf = some (c',buf',e)) (h : e.outcome.desync = true) :
    Foreign c dir buf := by
  simp only [drainTurn] at hturn
  cases hp : FrameHeader.parse buf with
  | none => simp [hp] at hturn
  | some hdr =>
    simp only [hp] at hturn
    split_ifs at hturn <;> cases hturn
    · simp [skipFrame_desync] at h
    · simp [skipFrame_desync] at h
    · obtain ⟨hC,sid,acc,hblock,hother⟩ := applyHeadersOrControl_desync h
      exact ⟨hdr,sid,acc,hp,hC,hblock,hother⟩

theorem drainLoop_desync {buf : List UInt8} {acc : Emitted}
    (h : (drainLoop c dir ts buf acc).2.2.outcome.desync = true)
    (hacc : acc.outcome.desync = false) :
    ∃ b, ReflTransGen (DrainTurn dir ts) (c,buf) b ∧ Foreign b.1 dir b.2 := by
  induction hn : buf.length using Nat.strong_induction_on generalizing c buf acc with
  | _ n ih =>
    rw [drainLoop_turn] at h
    cases hturn : drainTurn c dir ts buf with
    | none => simp [hturn,hacc] at h
    | some q =>
      obtain ⟨c',buf',e⟩ := q
      simp only [hturn] at h
      split_ifs at h with hhalt
      · have he : e.outcome.desync = true := by simpa [mergeOutcome,hacc] using h
        exact ⟨_,ReflTransGen.refl,drainTurn_desync hturn he⟩
      · have hlive : (acc ++ e).outcome.halted = false := by simpa using hhalt
        have hgo : e.outcome.halted = false := by
          simp only [Emitted.outcome_append,halted_mergeOutcome,Bool.or_eq_false_iff] at hlive
          exact hlive.2
        obtain ⟨b,hb,hforeign⟩ := ih _ (hn ▸ drainTurn_length hturn) h (desync_of_halted hlive) rfl
        exact ⟨b,hb.head ⟨e,hturn,hgo⟩,hforeign⟩

theorem drainFrames_desync (h : (drainFrames c dir ts).2.outcome.desync = true) :
    ∃ c' buf, Drains dir ts c c' buf ∧ Foreign c' dir buf := by
  simp only [drainFrames] at h
  split_ifs at h with hwait
  · simp [Emitted.empty,emptyOutcome] at h
  · obtain ⟨b,hb,hforeign⟩ := drainLoop_desync h rfl
    exact ⟨b.1,b.2,⟨by simpa using hwait,hb⟩,hforeign⟩

theorem pushLoop_desync (hc : (c.pipe dir).Bounded) {src : List UInt8} {acc : Emitted}
    (h : (pushLoop c dir src ts acc).2.outcome.desync = true)
    (hacc : acc.outcome.desync = false) :
    ∃ c' buf, Reads c dir src ts c' buf ∧ Foreign c' dir buf := by
  induction hn : src.length using Nat.strong_induction_on generalizing c src acc with
  | _ n ih =>
    have hhere : (acc ++ (drainFrames (fillPipe c dir src).1 dir ts).2).outcome.desync = true →
        ∃ c' buf, Reads c dir src ts c' buf ∧ Foreign c' dir buf := fun hd => by
      have he : (drainFrames (fillPipe c dir src).1 dir ts).2.outcome.desync = true := by
        simpa [mergeOutcome,hacc] using hd
      obtain ⟨c',buf,hdrain,hforeign⟩ := drainFrames_desync he
      exact ⟨c',buf,⟨_,ReflTransGen.refl,hdrain⟩,hforeign⟩
    rw [pushLoop_turn hc] at h
    dsimp only at h
    split_ifs at h with hnil hhalt
    · exact hhere h
    · exact hhere h
    · have hlive : (acc ++ (drainFrames (fillPipe c dir src).1 dir ts).2).outcome.halted = false := by
        simpa using hhalt
      have hgo : (drainFrames (fillPipe c dir src).1 dir ts).2.outcome.halted = false := by
        simp only [Emitted.outcome_append,halted_mergeOutcome,Bool.or_eq_false_iff] at hlive
        exact hlive.2
      obtain ⟨c',buf,⟨a,ha,hdrain⟩,hforeign⟩ := ih _ (hn ▸ fillPipe_length hc hnil)
        (drainFrames_bounded ts (fillPipe_within hc src)) h (desync_of_halted hlive) rfl
      exact ⟨c',buf,⟨a,ha.head ⟨hnil,hgo,rfl⟩,hdrain⟩,hforeign⟩

end Desync

/-- Both loops end, and neither takes its error branch: there is room at every turn of
`push_bytes`, which takes at least one octet, and every buffer of nine octets or more has a
header, whose frame leaves the buffer shorter. -/
structure LoopsEnd (conn : H2Conn) (dir : IoDir) (src : List UInt8) (ts : ℕ) : Prop where
  room : ∀ a, ReflTransGen (PushTurn dir ts) (conn,src) a → (takeSkip (a.1.pipe dir) a.2).2 ≠ [] →
    leftoverCap -
      ((a.1.setPipe dir (takeSkip (a.1.pipe dir) a.2).1).pipe dir).leftover.length ≠ 0
  consumes : ∀ a b, ReflTransGen (PushTurn dir ts) (conn,src) a → PushTurn dir ts a b →
    b.2.length < a.2.length
  parsed : ∀ c buf, Reads conn dir src ts c buf → headerLen ≤ buf.length →
    FrameHeader.parse buf ≠ none
  drains : ∀ c buf b, Reads conn dir src ts c buf → DrainTurn dir ts (c,buf) b →
    b.2.length < buf.length

theorem PushTurn.bounded {dir : IoDir} {ts : ℕ} {a b : H2Conn × List UInt8}
    (h : PushTurn dir ts a b) (ha : (a.1.pipe dir).Bounded) : (b.1.pipe dir).Bounded := by
  obtain ⟨-,-,rfl⟩ := h
  exact drainFrames_bounded ts (fillPipe_within ha a.2)

theorem loopsEnd_of_bounded {conn : H2Conn} {dir : IoDir} (h : (conn.pipe dir).Bounded)
    (src : List UInt8) (ts : ℕ) : LoopsEnd conn dir src ts := by
  have hreach : ∀ a, ReflTransGen (PushTurn dir ts) (conn,src) a → (a.1.pipe dir).Bounded := by
    intro a ha
    induction ha with
    | refl => exact h
    | tail _ hturn ih => exact hturn.bounded ih
  refine ⟨fun a ha _ => room_of_bounded (hreach a ha) a.2,fun a b ha hturn => ?_,
    fun c buf _ hlen hnone => ?_,fun c buf b _ ⟨e,hturn,_⟩ => drainTurn_length hturn⟩
  · obtain ⟨hne,-,rfl⟩ := hturn
    exact fillPipe_length (hreach a ha) hne
  · exact absurd (FrameHeader.parse_eq_none.mp hnone) (Nat.not_lt.mpr hlen)

def H2Registry.Holds (r : H2Registry) (key : ConnKey) (now : Instant) (conn : H2Conn) : Prop :=
  r.conns.get key = some conn ∨ conn = H2Conn.new now

theorem feedConn_desync {r : H2Registry} {key : ConnKey} {conn : H2Conn} {dir : IoDir}
    {ev : SockIoEvent} {now : Instant} {clientOnly : Bool} (hconn : conn.Bounded)
    (h : (r.feedConn key conn dir ev now clientOnly).1.stats.desync ≠ r.stats.desync) :
    ∃ c buf, Reads {conn with atTime := now} dir ev.chunk ev.tsNs c buf ∧ Foreign c dir buf := by
  have hdesync : (pushLoop {conn with atTime := now} dir ev.chunk ev.tsNs .empty).2.outcome.desync =
      true := by
    by_contra hsilent
    refine h ?_
    have hsame : (pushBytes {conn with atTime := now} dir ev.chunk ev.tsNs).2.outcome.desync =
        false := Bool.eq_false_iff.mpr hsilent
    simp [H2Registry.feedConn,hsame]
  exact pushLoop_desync ((hconn.atTime now).pipes dir) hdesync rfl

theorem feed_desync {r : H2Registry} (hr : r.Bounded) {ev : SockIoEvent} {now : Instant}
    {clientOnly : Bool} (h : (r.feed ev now clientOnly).1.stats.desync ≠ r.stats.desync) :
    ∃ dir conn c buf, IoDir.fromU8 ev.dir = some dir ∧ r.Holds ⟨ev.tgid,ev.fd⟩ now conn ∧
      Reads {conn with atTime := now} dir ev.chunk ev.tsNs c buf ∧ Foreign c dir buf := by
  have hstats : (r.forget ⟨ev.tgid,ev.fd⟩ ev.chunk).stats = r.stats := by
    rw [H2Registry.forget]
    split_ifs <;> rfl
  have hget := get_forget_self r ⟨ev.tgid,ev.fd⟩ ev.chunk
  have hforget := hr.forget ⟨ev.tgid,ev.fd⟩ ev.chunk
  simp only [H2Registry.feed,← hstats] at h
  cases hdir : IoDir.fromU8 ev.dir with
  | none => simp [hdir,hstats] at h
  | some dir =>
    simp only [hdir] at h
    by_cases hgo : ev.ret < 0 ∨ ev.plen = 0
    · simp [hgo,hstats] at h
    simp only [if_neg hgo] at h
    cases hconn : (r.forget ⟨ev.tgid,ev.fd⟩ ev.chunk).conns.get ⟨ev.tgid,ev.fd⟩ with
    | some conn =>
      simp only [hconn] at h
      obtain ⟨c,buf,hreads,hforeign⟩ := feedConn_desync (hforget.conns _ _ hconn) h
      refine ⟨dir,conn,c,buf,rfl,Or.inl ?_,hreads,hforeign⟩
      rw [hconn] at hget
      split_ifs at hget
      exact hget.symm
    | none =>
      simp only [hconn] at h
      split_ifs at h
      · exact absurd rfl h
      · obtain ⟨c,buf,hreads,hforeign⟩ := feedConn_desync (bounded_newConn now) h
        exact ⟨dir,_,c,buf,rfl,Or.inr rfl,hreads,hforeign⟩
      · exact absurd rfl h

/-- In every state the registry can reach, everything is within bounds; so the loops end
without their error branches, and `feed` reports a desync only for a CONTINUATION of another
stream than that of the open header block. -/
theorem registry_bounded (ops : List RegOp) :
    let r := (H2Registry.default.run ops).1
    r.Bounded ∧
    (∀ key now conn dir src ts, r.Holds key now conn →
      LoopsEnd {conn with atTime := now} dir src ts) ∧
    ∀ ev now clientOnly, (r.feed ev now clientOnly).1.stats.desync ≠ r.stats.desync →
      ∃ dir conn c buf, IoDir.fromU8 ev.dir = some dir ∧ r.Holds ⟨ev.tgid,ev.fd⟩ now conn ∧
        Reads {conn with atTime := now} dir ev.chunk ev.tsNs c buf ∧ Foreign c dir buf := by
  intro r
  have hr : r.Bounded := bounded_default.run ops
  refine ⟨hr,fun key now conn dir src ts hholds => ?_,fun ev now clientOnly h => feed_desync hr h⟩
  have hconn : conn.Bounded := by
    rcases hholds with hget | rfl
    · exact hr.conns key conn hget
    · exact bounded_newConn now
  exact loopsEnd_of_bounded ((hconn.atTime now).pipes dir) src ts

end H2
end ObsAgent
