import ObsAgent.Conn

/-! The demultiplexer against a reading of its input frame by frame.  The buffer and
the skip count are what is left of a frame that is not yet complete; so after any
number of octets the connection is a function of that number alone, and of the
time at which each frame's last octet arrived. -/
namespace ObsAgent
namespace H2

/-- The effect of one whole frame. -/
def frameStep (conn : H2Conn) (dir : IoDir) (f : Frame) (tsNs : ℕ) : H2Conn × Emitted :=
  if skipPayload f.hdr then skipFrame conn dir f.hdr
  else applyHeadersOrControl conn dir f.hdr f.payload tsNs

inductive Action
  | quiet | lost | goaway | desync
  | reset (streamId : ℕ)
  | decode (streamId : ℕ) (frag : List UInt8)

/-- The header block a frame leaves open, and what the frame asks for. -/
def interpret (block : Option (ℕ × List UInt8)) (f : Frame) :
    Option (ℕ × List UInt8) × Action :=
  if f.hdr.ty = typeHeaders then
    if skipPayload f.hdr then (none,.lost)
    else
      match headersFragment f.hdr.flags f.payload with
      | none => (block,.quiet)
      | some frag =>
        if f.hdr.flags &&& flagEndHeaders ≠ 0 then (block,.decode f.hdr.streamId frag)
        else (some (f.hdr.streamId,frag),.quiet)
  else if f.hdr.ty = typeContinuation then
    if skipPayload f.hdr then (none,.lost)
    else
      match block with
      | none => (none,.quiet)
      | some (sid,acc) =>
        if sid ≠ f.hdr.streamId then (none,.desync)
        else if acc.length + f.payload.length > leftoverCap then (none,.lost)
        else if f.hdr.flags &&& flagEndHeaders ≠ 0 then (none,.decode sid (acc ++ f.payload))
        else (some (sid,acc ++ f.payload),.quiet)
  else if f.hdr.ty = typeRstStream then (block,.reset f.hdr.streamId)
  else if f.hdr.ty = typeGoaway then (block,.goaway)
  else (block,.quiet)

def perform (conn : H2Conn) (dir : IoDir) (tsNs : ℕ) : Action → H2Conn × Emitted
  | .quiet => (conn,.empty)
  | .lost => (conn,.missing)
  | .goaway => (conn,.counted {emptyOutcome with goaway := true})
  | .desync => (conn,.counted {emptyOutcome with desync := true})
  | .reset sid =>
    ({conn with streams := conn.streams.remove sid},⟨[],emptyOutcome,[.reset sid]⟩)
  | .decode sid frag => onHeaderBlock conn dir sid frag tsNs

def setBlock (conn : H2Conn) (dir : IoDir) (block : Option (ℕ × List UInt8)) : H2Conn :=
  conn.setPipe dir {conn.pipe dir with headerBlock := block}

@[simp] theorem setBlock_self (conn : H2Conn) (dir : IoDir) :
    setBlock conn dir (conn.pipe dir).headerBlock = conn :=
  conn.setPipe_pipe dir

/-- Every frame sets the open block and performs one action. -/
theorem frameStep_eq (conn : H2Conn) (dir : IoDir) (f : Frame) (ts : ℕ) :
    frameStep conn dir f ts =
      perform (setBlock conn dir (interpret (conn.pipe dir).headerBlock f).1) dir ts
        (interpret (conn.pipe dir).headerBlock f).2 := by
  have hHC : typeHeaders ≠ typeContinuation := by decide
  have hHR : typeHeaders ≠ typeRstStream := by decide
  have hHG : typeHeaders ≠ typeGoaway := by decide
  have hCR : typeContinuation ≠ typeRstStream := by decide
  have hCG : typeContinuation ≠ typeGoaway := by decide
  simp only [frameStep,interpret]
  by_cases hH : f.hdr.ty = typeHeaders
  · cases hs : skipPayload f.hdr with
    | true => simp [hH,skipFrame,applyControl,perform,setBlock,hHR,hHG]
    | false =>
      simp only [hH,applyHeadersOrControl,Bool.false_eq_true,if_true,if_false]
      cases headersFragment f.hdr.flags f.payload with
      | none => simp [perform]
      | some frag =>
        dsimp only
        split_ifs
        · simp [perform]
        · rfl
  · by_cases hC : f.hdr.ty = typeContinuation
    · cases hs : skipPayload f.hdr with
      | true => simp [hC,skipFrame,applyControl,perform,setBlock,hCR,hCG,hHC.symm]
      | false =>
        simp only [hC,applyHeadersOrControl,applyContinuation,Bool.false_eq_true,if_true,if_false,
          hHC.symm]
        cases hb : (conn.pipe dir).headerBlock with
        | none => simp [perform,← hb]
        | some b =>
          dsimp only
          split_ifs <;> simp [perform,setBlock]
    · have hs : skipPayload f.hdr = true := by simp [skipPayload,hH,hC]
      simp only [hs,hH,hC,skipFrame,applyControl,if_true,if_false,or_self]
      split_ifs <;> simp [perform]

def setBuf (conn : H2Conn) (dir : IoDir) (leftover : List UInt8) (skip : ℕ) : H2Conn :=
  conn.setPipe dir {conn.pipe dir with leftover := leftover, skip := skip}

@[simp] theorem pipe_setBuf (conn : H2Conn) (dir : IoDir) (l : List UInt8) (n : ℕ) :
    (setBuf conn dir l n).pipe dir = {conn.pipe dir with leftover := l, skip := n} := by
  simp [setBuf]

@[simp] theorem setBuf_setBuf (conn : H2Conn) (dir : IoDir) (l l' : List UInt8) (n n' : ℕ) :
    setBuf (setBuf conn dir l n) dir l' n' = setBuf conn dir l' n' := by
  simp [setBuf]

theorem setLeftover_eq (conn : H2Conn) (dir : IoDir) (l : List UInt8) :
    setLeftover conn dir l = setBuf conn dir l (conn.pipe dir).skip := rfl

theorem onHeaderBlock_setBuf (conn : H2Conn) (dir : IoDir) (l : List UInt8) (n sid : ℕ)
    (frag : List UInt8) (ts : ℕ) :
    onHeaderBlock (setBuf conn dir l n) dir sid frag ts =
      (setBuf (onHeaderBlock conn dir sid frag ts).1 dir l n,
        (onHeaderBlock conn dir sid frag ts).2) := by
  by_cases h0 : sid = 0
  · simp [onHeaderBlock,h0]
  · cases hd : (conn.pipe dir).decoder.decodeBlock frag with
    | mk decoder decoded =>
      cases decoded <;> cases dir <;> 
        simp_all [onHeaderBlock,setBuf,H2Conn.setPipe,H2Conn.pipe]

theorem perform_setBuf (conn : H2Conn) (dir : IoDir) (l : List UInt8) (n ts : ℕ) (a : Action) :
    perform (setBuf conn dir l n) dir ts a =
      (setBuf (perform conn dir ts a).1 dir l n,(perform conn dir ts a).2) := by
  cases a with
  | decode sid frag => exact onHeaderBlock_setBuf conn dir l n sid frag ts
  | reset sid => cases dir <;> rfl
  | _ => rfl

theorem frameStep_setBuf (conn : H2Conn) (dir : IoDir) (l : List UInt8) (n : ℕ) (f : Frame)
    (ts : ℕ) : frameStep (setBuf conn dir l n) dir f ts =
      (setBuf (frameStep conn dir f ts).1 dir l n,(frameStep conn dir f ts).2) := by
  have hset : ∀ block, setBlock (setBuf conn dir l n) dir block =
      setBuf (setBlock conn dir block) dir l n := fun block => by
    simp [setBlock,setBuf]
  simp only [frameStep_eq,pipe_setBuf,hset,perform_setBuf]

/-- Nothing is buffered and nothing is to be skipped. -/
def Clean (conn : H2Conn) (dir : IoDir) : Prop := setBuf conn dir [] 0 = conn

theorem Clean.leftover {conn : H2Conn} {dir : IoDir} (h : Clean conn dir) :
    (conn.pipe dir).leftover = [] := by
  rw [← h,pipe_setBuf]

theorem Clean.skip {conn : H2Conn} {dir : IoDir} (h : Clean conn dir) :
    (conn.pipe dir).skip = 0 := by
  rw [← h,pipe_setBuf]

theorem clean_iff {conn : H2Conn} {dir : IoDir} :
    Clean conn dir ↔ (conn.pipe dir).leftover = [] ∧ (conn.pipe dir).skip = 0 := by
  refine ⟨fun h => ⟨h.leftover,h.skip⟩,fun ⟨hl,hs⟩ => ?_⟩
  rw [Clean,setBuf,← hl,← hs]
  exact conn.setPipe_pipe dir

theorem clean_new (now : Instant) (dir : IoDir) : Clean (H2Conn.new now) dir := by
  cases dir <;> rfl

theorem Clean.frameStep {conn : H2Conn} {dir : IoDir} (h : Clean conn dir) (f : Frame) (ts : ℕ) :
    Clean (frameStep conn dir f ts).1 dir := by
  have hstep := frameStep_setBuf conn dir [] 0 f ts
  rw [h] at hstep
  exact (congrArg Prod.fst hstep).symm

theorem onHeaderBlock_headerBlock (conn : H2Conn) (dir : IoDir) (sid : ℕ) (frag : List UInt8)
    (ts : ℕ) : ((onHeaderBlock conn dir sid frag ts).1.pipe dir).headerBlock =
      (conn.pipe dir).headerBlock := by
  simp only [onHeaderBlock]
  split_ifs
  · rfl
  · split <;> cases dir <;> rfl

theorem frameStep_headerBlock (conn : H2Conn) (dir : IoDir) (f : Frame) (ts : ℕ) :
    ((frameStep conn dir f ts).1.pipe dir).headerBlock =
      (interpret (conn.pipe dir).headerBlock f).1 := by
  rw [frameStep_eq]
  generalize interpret (conn.pipe dir).headerBlock f = q
  cases hq : q.2 with
  | decode sid frag =>
    rw [perform,onHeaderBlock_headerBlock]
    simp [setBlock]
  | _ => cases dir <;> rfl

theorem pairBlock_live (streams : Streams) (dir : IoDir) (sid : ℕ) (p : Hpack.Pseudo) (ts : ℕ) :
    (pairBlock streams dir sid p ts).2.outcome.halted = false := by
  simp only [pairBlock]
  repeat' split
  all_goals rfl

theorem onHeaderBlock_live (conn : H2Conn) (dir : IoDir) (sid : ℕ) (frag : List UInt8) (ts : ℕ) :
    (onHeaderBlock conn dir sid frag ts).2.outcome.halted = false := by
  simp only [onHeaderBlock]
  split_ifs
  · rfl
  · split
    · rfl
    · exact pairBlock_live _ _ _ _ _

/-- A continuation frame names the stream of the open block, if there is one. -/
def Continues (block : Option (ℕ × List UInt8)) (f : Frame) : Prop :=
  f.hdr.ty = typeContinuation → ∀ b, block = some b → b.1 = f.hdr.streamId

theorem frameStep_live {conn : H2Conn} {dir : IoDir} {f : Frame} (ts : ℕ)
    (hg : f.hdr.ty ≠ typeGoaway) (hc : Continues (conn.pipe dir).headerBlock f) :
    (frameStep conn dir f ts).2.outcome.halted = false := by
  rw [frameStep_eq]
  cases hq : (interpret (conn.pipe dir).headerBlock f).2 with
  | decode sid frag => exact onHeaderBlock_live _ _ _ _ _
  | goaway =>
    simp only [interpret] at hq
    split at hq <;> (repeat' split at hq) <;> simp_all
  | desync =>
    simp only [interpret] at hq
    split at hq <;> (repeat' split at hq) <;> simp_all [Continues]
  | _ => rfl

/-- No frame ends the connection: no GOAWAY, and every continuation continues. -/
def Orderly (block : Option (ℕ × List UInt8)) : List Frame → Prop
  | [] => True
  | f :: fs => f.hdr.ty ≠ typeGoaway ∧ Continues block f ∧ Orderly (interpret block f).1 fs

/-- The effect of the first `n` octets of a longer frame: all of it, with the rest to be
skipped, as soon as the header of a frame without stored payload is there. -/
def cutFrame (conn : H2Conn) (dir : IoDir) (f : Frame) (n : ℕ) : H2Conn × Emitted :=
  if headerLen ≤ n ∧ skipPayload f.hdr then
    let q := skipFrame conn dir f.hdr
    (setBuf q.1 dir [] (f.bytes.length - n),q.2)
  else (setBuf conn dir (f.bytes.take n) 0,.empty)

/-- The effect of the first `n` octets of a sequence of frames, octet `i` of which
arrives at time `τ i`, up to the frame that ends the connection. -/
def deliver (dir : IoDir) : H2Conn → (ℕ → ℕ) → List Frame → ℕ → H2Conn × Emitted
  | conn, _, [], _ => (conn,.empty)
  | conn, τ, f :: fs, n =>
    if f.bytes.length ≤ n then
      let q := frameStep conn dir f (τ (f.bytes.length - 1))
      if q.2.outcome.halted then q
      else
        let r := deliver dir q.1 (fun i => τ (f.bytes.length + i)) fs (n - f.bytes.length)
        (r.1,q.2 ++ r.2)
    else cutFrame conn dir f n

theorem deliver_whole (dir : IoDir) (conn : H2Conn) (τ : ℕ → ℕ) {f : Frame} (fs : List Frame)
    {n : ℕ} (h : f.bytes.length ≤ n)
    (hlive : (frameStep conn dir f (τ (f.bytes.length - 1))).2.outcome.halted = false) :
    deliver dir conn τ (f :: fs) n =
      ((deliver dir (frameStep conn dir f (τ (f.bytes.length - 1))).1
          (fun i => τ (f.bytes.length + i)) fs (n - f.bytes.length)).1,
        (frameStep conn dir f (τ (f.bytes.length - 1))).2 ++
          (deliver dir (frameStep conn dir f (τ (f.bytes.length - 1))).1
            (fun i => τ (f.bytes.length + i)) fs (n - f.bytes.length)).2) := by
  rw [deliver,if_pos h]
  simp only [hlive,Bool.false_eq_true,if_false]

theorem deliver_ended (dir : IoDir) (conn : H2Conn) (τ : ℕ → ℕ) {f : Frame} (fs : List Frame)
    {n : ℕ} (h : f.bytes.length ≤ n)
    (hend : (frameStep conn dir f (τ (f.bytes.length - 1))).2.outcome.halted = true) :
    deliver dir conn τ (f :: fs) n = frameStep conn dir f (τ (f.bytes.length - 1)) := by
  rw [deliver,if_pos h]
  simp only [hend,if_true]

theorem deliver_cut (dir : IoDir) (conn : H2Conn) (τ : ℕ → ℕ) {f : Frame} (fs : List Frame)
    {n : ℕ} (h : n < f.bytes.length) :
    deliver dir conn τ (f :: fs) n = cutFrame conn dir f n := by
  rw [deliver,if_neg (by omega)]

theorem skipFrame_eq {conn : H2Conn} {dir : IoDir} {f : Frame} (h : skipPayload f.hdr = true)
    (ts : ℕ) : skipFrame conn dir f.hdr = frameStep conn dir f ts := by
  simp [frameStep,h]

/-- `q` has the effect `r`; it also leads to the same connection unless that is over. -/
structure Agrees (q r : H2Conn × Emitted) : Prop where
  emitted : q.2 = r.2
  conn : r.2.outcome.halted = false → q.1 = r.1

theorem Agrees.eq {q r : H2Conn × Emitted} (h : Agrees q r) (hlive : r.2.outcome.halted = false) :
    q = r := Prod.ext (h.conn hlive) h.emitted

theorem drainLoop_short (conn : H2Conn) (dir : IoDir) (ts : ℕ) {buf : List UInt8} (acc : Emitted)
    (h : buf.length < headerLen) : drainLoop conn dir ts buf acc = (conn,buf,acc) := by
  rw [drainLoop,if_pos h]

/-- A whole frame in front of the buffer is taken off with its effect. -/
theorem drainLoop_whole {conn : H2Conn} {dir : IoDir} {ts : ℕ} {f : Frame} {acc : Emitted}
    (rest : List UInt8) (hacc : acc.outcome.halted = false) :
    drainLoop conn dir ts (f.bytes ++ rest) acc =
      if (frameStep conn dir f ts).2.outcome.halted then
        ((frameStep conn dir f ts).1,rest,acc ++ (frameStep conn dir f ts).2)
      else drainLoop (frameStep conn dir f ts).1 dir ts rest (acc ++ (frameStep conn dir f ts).2) := by
  have hlen := f.headerLen_le
  have hwhole := f.whole
  have hparse : FrameHeader.parse (f.bytes ++ rest) = some f.hdr := by
    rw [FrameHeader.parse_leads (List.prefix_append _ _) hlen,f.parsed]
  have hpay : ((f.bytes ++ rest).take f.hdr.totalLen).drop headerLen = f.payload := by
    rw [← hwhole,List.take_left]
    rfl
  have hdrop : (f.bytes ++ rest).drop f.hdr.totalLen = rest := by
    rw [← hwhole,List.drop_left]
  have hsize : f.hdr.totalLen ≤ (f.bytes ++ rest).length := by
    rw [List.length_append]
    omega
  have hgo : (acc ++ (frameStep conn dir f ts).2).outcome.halted =
      (frameStep conn dir f ts).2.outcome.halted := by
    simp [hacc]
  rw [drainLoop,if_neg (by omega),hparse]
  simp only [hpay,hdrop]
  by_cases hs : skipPayload f.hdr = true
  · rw [if_pos hs,if_pos hsize,skipFrame_eq hs ts,hgo]
  · have happ : applyHeadersOrControl conn dir f.hdr f.payload ts = frameStep conn dir f ts := by
      simp [frameStep,hs]
    rw [if_neg hs,if_neg (by omega),happ,hgo]

theorem drainLoop_cut {conn : H2Conn} {dir : IoDir} (ts : ℕ) {f : Frame} (acc : Emitted) {k : ℕ}
    (hclean : Clean conn dir) (hk : k < f.bytes.length) :
    ∃ c buf, drainLoop conn dir ts (f.bytes.take k) acc =
        (c,buf,acc ++ (cutFrame conn dir f k).2) ∧
      setLeftover c dir buf = (cutFrame conn dir f k).1 := by
  have hwhole := f.whole
  have hbuf : (f.bytes.take k).length = k := by
    rw [List.length_take]
    omega
  have hkeep : setLeftover conn dir (f.bytes.take k) = setBuf conn dir (f.bytes.take k) 0 := by
    rw [setLeftover_eq,hclean.skip]
  rw [cutFrame]
  by_cases hhead : headerLen ≤ k
  · have hparse : FrameHeader.parse (f.bytes.take k) = some f.hdr := by
      rw [← f.parsed]
      exact (FrameHeader.parse_leads (List.take_prefix k f.bytes) (by omega)).symm
    by_cases hs : skipPayload f.hdr = true
    · have hset : conn.setPipe dir {conn.pipe dir with skip := f.hdr.totalLen - k} =
          setBuf conn dir [] (f.bytes.length - k) := by
        simp only [setBuf,← hwhole,hclean.leftover]
      rw [if_pos ⟨hhead,hs⟩,skipFrame_eq hs ts]
      refine ⟨setBuf (frameStep conn dir f ts).1 dir [] (f.bytes.length - k),[],?_,?_⟩
      · rw [drainLoop,if_neg (by omega),hparse]
        simp only [hbuf,hset]
        rw [if_pos hs,if_neg (by omega),skipFrame_eq hs ts,frameStep_setBuf]
        split_ifs
        · rfl
        · rw [drainLoop_short _ _ _ _ (by simp [headerLen])]
      · rw [setLeftover_eq,setBuf_setBuf,pipe_setBuf]
    · rw [if_neg (by simp [hs])]
      refine ⟨conn,f.bytes.take k,?_,hkeep⟩
      rw [drainLoop,if_neg (by omega),hparse]
      simp only [hbuf]
      rw [if_neg hs,if_pos (by omega),Emitted.append_empty]
  · rw [if_neg (by simp [hhead])]
    refine ⟨conn,f.bytes.take k,?_,hkeep⟩
    rw [drainLoop_short _ _ _ _ (by omega),Emitted.append_empty]

/-- The loop over the first octets of a sequence of frames. -/
theorem drainLoop_deliver {dir : IoDir} (ts : ℕ) {fs : List Frame} {conn : H2Conn}
    (hclean : Clean conn dir) (k : ℕ) {acc : Emitted} (hacc : acc.outcome.halted = false) :
    ∃ c buf, drainLoop conn dir ts ((Frame.wire fs).take k) acc =
        (c,buf,acc ++ (deliver dir conn (fun _ => ts) fs k).2) ∧
      ((deliver dir conn (fun _ => ts) fs k).2.outcome.halted = false →
        setLeftover c dir buf = (deliver dir conn (fun _ => ts) fs k).1) := by
  induction fs generalizing conn k acc with
  | nil =>
    refine ⟨conn,[],?_,fun _ => ?_⟩
    · rw [Frame.wire_nil,List.take_nil,drainLoop_short _ _ _ _ (by simp [headerLen]),deliver,
        Emitted.append_empty]
    · rw [setLeftover_eq,hclean.skip,hclean,deliver]
  | cons f fs ih =>
    rw [Frame.wire_cons,List.take_append]
    by_cases hfull : f.bytes.length ≤ k
    · rw [List.take_of_length_le hfull,drainLoop_whole _ hacc]
      cases hlive : (frameStep conn dir f ts).2.outcome.halted with
      | true =>
        rw [if_pos rfl,deliver_ended dir conn (fun _ => ts) fs hfull hlive]
        exact ⟨_,_,rfl,fun h => by simp [hlive] at h⟩
      | false =>
        rw [if_neg (by simp),deliver_whole dir conn (fun _ => ts) fs hfull hlive,
          ← Emitted.append_assoc]
        obtain ⟨c,buf,hloop,hc⟩ := ih (hclean.frameStep f ts) (k - f.bytes.length)
          (show (acc ++ (frameStep conn dir f ts).2).outcome.halted = false by simp [hacc,hlive])
        exact ⟨c,buf,hloop,fun h => hc (by simpa [hlive] using h)⟩
    · have hrest : k - f.bytes.length = 0 := by omega
      rw [hrest,List.take_zero,List.append_nil,deliver_cut _ _ _ _ (by omega)]
      obtain ⟨c,buf,hloop,hc⟩ := drainLoop_cut ts acc hclean (show k < f.bytes.length by omega)
      exact ⟨c,buf,hloop,fun _ => hc⟩

theorem deliver_zero {dir : IoDir} {conn : H2Conn} (hclean : Clean conn dir) (τ : ℕ → ℕ)
    (fs : List Frame) : deliver dir conn τ fs 0 = (conn,.empty) := by
  cases fs with
  | nil => rfl
  | cons f fs =>
    have hlen := f.headerLen_le
    simp only [headerLen] at hlen
    rw [deliver_cut _ _ _ _ (by omega),cutFrame,if_neg (by simp [headerLen]),List.take_zero,hclean]

theorem deliver_live {dir : IoDir} {fs : List Frame} {conn : H2Conn}
    (ho : Orderly (conn.pipe dir).headerBlock fs) (τ : ℕ → ℕ) (n : ℕ) :
    (deliver dir conn τ fs n).2.outcome.halted = false := by
  induction fs generalizing conn τ n with
  | nil => rfl
  | cons f fs ih =>
    obtain ⟨hg,hc,ho⟩ := ho
    by_cases hfull : f.bytes.length ≤ n
    · have hlive := frameStep_live (τ (f.bytes.length - 1)) hg hc
      rw [deliver_whole _ _ _ _ hfull hlive,Emitted.outcome_append,halted_mergeOutcome,hlive,
        ih (by rw [frameStep_headerBlock]; exact ho)]
      rfl
    · rw [deliver_cut _ _ _ _ (by omega),cutFrame]
      split_ifs with hs
      · rw [skipFrame_eq hs.2 0]
        exact frameStep_live _ hg hc
      · rfl

theorem deliver_after_end {dir : IoDir} {fs : List Frame} {conn : H2Conn} {τ : ℕ → ℕ} {n k : ℕ}
    (hend : (deliver dir conn τ fs n).2.outcome.halted = true) (hk : n ≤ k) :
    (deliver dir conn τ fs k).2 = (deliver dir conn τ fs n).2 := by
  induction fs generalizing conn τ n k with
  | nil => rfl
  | cons f fs ih =>
    by_cases hfull : f.bytes.length ≤ n
    · cases hlive : (frameStep conn dir f (τ (f.bytes.length - 1))).2.outcome.halted with
      | true => rw [deliver_ended _ _ _ _ hfull hlive,deliver_ended _ _ _ _ (by omega) hlive]
      | false =>
        rw [deliver_whole _ _ _ _ hfull hlive,Emitted.outcome_append,halted_mergeOutcome,hlive,
          Bool.false_or] at hend
        rw [deliver_whole (n := n) _ _ _ _ hfull hlive,
          deliver_whole (n := k) _ _ _ _ (hfull.trans hk) hlive]
        exact congrArg (_ ++ ·) (ih hend (Nat.sub_le_sub_right hk _))
    · rw [deliver_cut (n := n) _ _ _ _ (by omega),cutFrame] at hend ⊢
      split_ifs at hend ⊢ with hs
      · rw [skipFrame_eq hs.2 (τ (f.bytes.length - 1))] at hend ⊢
        by_cases hfull' : f.bytes.length ≤ k
        · rw [deliver_ended _ _ _ _ hfull' hend]
        · rw [deliver_cut _ _ _ _ (by omega),cutFrame,if_pos ⟨by omega,hs.2⟩,
            skipFrame_eq hs.2 (τ (f.bytes.length - 1))]
      · simp at hend

theorem deliver_congr {dir : IoDir} {fs : List Frame} {conn : H2Conn} {τ τ' : ℕ → ℕ} {n : ℕ}
    (h : ∀ i < n, τ i = τ' i) : deliver dir conn τ fs n = deliver dir conn τ' fs n := by
  induction fs generalizing conn τ τ' n with
  | nil => rfl
  | cons f fs ih =>
    have hlen := f.headerLen_le
    simp only [headerLen] at hlen
    by_cases hfull : f.bytes.length ≤ n
    · simp only [deliver,if_pos hfull,h (f.bytes.length - 1) (by omega)]
      rw [ih (fun i hi => h _ (by omega))]
    · rw [deliver_cut _ _ _ _ (by omega),deliver_cut _ _ _ _ (by omega)]

/-- Inside the first frame, no time but that of the octets to come matters. -/
theorem deliver_late {dir : IoDir} {f : Frame} {fs : List Frame} {conn : H2Conn} {τ : ℕ → ℕ}
    {n k ts : ℕ} (hn : n < f.bytes.length) (h : ∀ i, n ≤ i → i < k → τ i = ts) :
    deliver dir conn τ (f :: fs) k = deliver dir conn (fun _ => ts) (f :: fs) k := by
  by_cases hfull : f.bytes.length ≤ k
  · simp only [deliver,if_pos hfull,h (f.bytes.length - 1) (by omega) (by omega)]
    rw [deliver_congr (fun i hi => h (f.bytes.length + i) (by omega) (by omega))]
  · rw [deliver_cut _ _ _ _ (by omega),deliver_cut _ _ _ _ (by omega)]

/-- The three octets with which the preface begins, read as a frame length. -/
def prefaceLength : ℕ := 0x505249

theorem octets_pri : octets "PRI" = [0x50,0x52,0x49] := by decide +kernel

theorem frame_not_pri {f : Frame} (h : f.hdr.length ≠ prefaceLength) (rest : List UInt8) :
    startsWith (f.bytes ++ rest) (octets "PRI") = false := by
  rw [Bool.eq_false_iff,Ne,startsWith_iff,octets_pri]
  rintro ⟨tail,ht⟩
  have hlen := f.headerLen_le
  have hparse := FrameHeader.parse_leads (List.prefix_append f.bytes rest) hlen
  rw [f.parsed,← ht] at hparse
  simp only [FrameHeader.parse] at hparse
  split_ifs at hparse
  apply h
  rw [← Option.some.inj hparse]
  simp [prefaceLength]

theorem wire_not_pri {fs : List Frame} (h : ∀ f ∈ fs, f.hdr.length ≠ prefaceLength) (k : ℕ) :
    startsWith ((Frame.wire fs).take k) (octets "PRI") = false := by
  cases hp : startsWith ((Frame.wire fs).take k) (octets "PRI") with
  | false => rfl
  | true =>
    have hall := startsWith_append hp ((Frame.wire fs).drop k)
    rw [List.take_append_drop] at hall
    cases fs with
    | nil => rw [octets_pri] at hall; simp [startsWith] at hall
    | cons f fs =>
      rw [Frame.wire_cons,frame_not_pri (h f (List.mem_cons_self ..))] at hall
      exact hall.symm

theorem startsWith_pri {buf : List UInt8} (h : startsWith buf clientPreface = true) :
    startsWith buf (octets "PRI") = true := by
  have hpri : octets "PRI" <+: clientPreface := by decide +kernel
  exact startsWith_iff.mpr (hpri.trans (startsWith_iff.mp h))

theorem not_preface {buf : List UInt8} (h : startsWith buf (octets "PRI") = false) :
    waitingPreface buf = false ∧ stripPreface buf = buf := by
  refine ⟨by simp [waitingPreface,h],?_⟩
  simp only [stripPreface]
  split_ifs with hp
  · rw [startsWith_pri hp] at h
    simp at h
  · rfl

theorem drainFrames_nil (conn : H2Conn) (dir : IoDir) (n ts : ℕ) :
    drainFrames (setBuf conn dir [] n) dir ts = (setBuf conn dir [] n,.empty) := by
  obtain ⟨hw,hs⟩ := not_preface (show startsWith [] (octets "PRI") = false by rw [octets_pri]; rfl)
  simp only [drainFrames,pipe_setBuf,hw,hs]
  rw [if_neg (by simp),drainLoop_short _ _ _ _ (by simp [headerLen])]
  simp [setLeftover_eq]

theorem drainFrames_agrees {dir : IoDir} {fs : List Frame} {conn : H2Conn} {buf : List UInt8}
    {k : ℕ} (ts : ℕ) (hclean : Clean conn dir) (hw : waitingPreface buf = false)
    (hs : stripPreface buf = (Frame.wire fs).take k) :
    Agrees (drainFrames (setBuf conn dir buf 0) dir ts) (deliver dir conn (fun _ => ts) fs k) := by
  obtain ⟨c,rest,hloop,hc⟩ := drainLoop_deliver ts hclean k
    (show Emitted.empty.outcome.halted = false from rfl)
  have hset : setLeftover (setBuf conn dir buf 0) dir [] = conn := by
    rw [setLeftover_eq,setBuf_setBuf,pipe_setBuf,hclean]
  have hdrain : drainFrames (setBuf conn dir buf 0) dir ts =
      (setLeftover c dir rest,(deliver dir conn (fun _ => ts) fs k).2) := by
    simp only [drainFrames,pipe_setBuf,hw,hs]
    rw [if_neg (by simp),hset,hloop,Emitted.empty_append]
  rw [hdrain]
  exact ⟨rfl,hc⟩

/-- `drain_frames` on the first octets of a sequence of frames. -/
theorem drainFrames_deliver {dir : IoDir} {fs : List Frame} {conn : H2Conn}
    (hclean : Clean conn dir) (hpri : ∀ f ∈ fs, f.hdr.length ≠ prefaceLength) (k ts : ℕ) :
    Agrees (drainFrames (setBuf conn dir ((Frame.wire fs).take k) 0) dir ts)
      (deliver dir conn (fun _ => ts) fs k) := by
  obtain ⟨hw,hs⟩ := not_preface (wire_not_pri hpri k)
  exact drainFrames_agrees ts hclean hw hs

end H2
end ObsAgent
