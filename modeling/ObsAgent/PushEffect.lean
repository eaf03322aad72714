import ObsAgent.Conn

/-! What a call of `push_bytes` can do to a connection, whatever octets it gets: steps
that only touch the pipe of its direction, resets, and decoded header blocks. -/
namespace ObsAgent
namespace H2

inductive Moves (dir : IoDir) (tsNs : ℕ) : H2Conn → H2Conn → Emitted → Prop
  | pipe (c : H2Conn) (p : DirPipe) (goaway desync : Bool) (lost : ℕ) :
      Moves dir tsNs c (c.setPipe dir p)
        (.counted {emptyOutcome with goaway := goaway, desync := desync, missingPath := lost})
  | reset (c : H2Conn) (sid : ℕ) :
      Moves dir tsNs c {c with streams := c.streams.remove sid} ⟨[],emptyOutcome,[.reset sid]⟩
  | block (c : H2Conn) {sid : ℕ} (decoded : Hpack.Pseudo) : sid ≠ 0 →
      Moves dir tsNs c {c with streams := (pairBlock c.streams dir sid decoded tsNs).1}
        (pairBlock c.streams dir sid decoded tsNs).2
  | trans {a b c : H2Conn} {e e' : Emitted} : Moves dir tsNs a b e → Moves dir tsNs b c e' →
      Moves dir tsNs a c (e ++ e')

section

variable {dir : IoDir} {ts : ℕ}

theorem moves_setPipe (c : H2Conn) (p : DirPipe) : Moves dir ts c (c.setPipe dir p) .empty :=
  Moves.pipe c p false false 0

theorem moves_counted (c : H2Conn) (goaway desync : Bool) (lost : ℕ) : Moves dir ts c c
    (.counted {emptyOutcome with goaway := goaway, desync := desync, missingPath := lost}) := by
  have h : Moves dir ts c (c.setPipe dir (c.pipe dir)) _ :=
    Moves.pipe c (c.pipe dir) goaway desync lost
  rwa [H2Conn.setPipe_pipe] at h

theorem moves_refl (c : H2Conn) : Moves dir ts c c .empty := moves_counted c false false 0

theorem Moves.after_setPipe {c b : H2Conn} {p : DirPipe} {e : Emitted}
    (h : Moves dir ts (c.setPipe dir p) b e) : Moves dir ts c b e := by
  simpa using (moves_setPipe c p).trans h

theorem Moves.then_setPipe {a b : H2Conn} {e : Emitted} (h : Moves dir ts a b e) (p : DirPipe) :
    Moves dir ts a (b.setPipe dir p) e := by
  simpa using h.trans (moves_setPipe b p)

theorem onHeaderBlock_moves (c : H2Conn) (sid : ℕ) (frag : List UInt8) :
    Moves dir ts c (onHeaderBlock c dir sid frag ts).1 (onHeaderBlock c dir sid frag ts).2 := by
  simp only [onHeaderBlock]
  split_ifs with h0
  · exact moves_refl c
  · split
    · exact Moves.pipe c _ false false 1
    · rename_i decoder decoded hdec
      have hpair : Moves dir ts (c.setPipe dir {c.pipe dir with decoder := decoder}) _ _ :=
        Moves.block _ decoded h0
      rw [H2Conn.streams_setPipe] at hpair
      exact hpair.after_setPipe

theorem applyControl_moves (c : H2Conn) (hdr : FrameHeader) :
    Moves dir ts c (applyControl c dir hdr).1 (applyControl c dir hdr).2 := by
  simp only [applyControl]
  split_ifs
  · exact Moves.reset c _
  · exact moves_counted c true false 0
  · exact moves_setPipe c _
  · exact moves_refl c

theorem skipFrame_moves (c : H2Conn) (hdr : FrameHeader) :
    Moves dir ts c (skipFrame c dir hdr).1 (skipFrame c dir hdr).2 := by
  simp only [skipFrame]
  split_ifs
  · exact (moves_counted c false false 1).trans (applyControl_moves c hdr)
  · exact (moves_refl c).trans (applyControl_moves c hdr)

theorem applyContinuation_moves (c : H2Conn) (hdr : FrameHeader) (payload : List UInt8) :
    Moves dir ts c (applyContinuation c dir hdr payload ts).1
      (applyContinuation c dir hdr payload ts).2 := by
  simp only [applyContinuation]
  split
  · exact moves_refl c
  · split_ifs
    · exact Moves.pipe c _ false true 0
    · exact Moves.pipe c _ false false 1
    · exact (onHeaderBlock_moves _ _ _).after_setPipe
    · rw [H2Conn.setPipe_setPipe]
      exact moves_setPipe c _

theorem applyHeadersOrControl_moves (c : H2Conn) (hdr : FrameHeader) (payload : List UInt8) :
    Moves dir ts c (applyHeadersOrControl c dir hdr payload ts).1
      (applyHeadersOrControl c dir hdr payload ts).2 := by
  simp only [applyHeadersOrControl]
  split_ifs
  · split
    · exact moves_refl c
    · exact onHeaderBlock_moves c _ _
  · split
    · exact moves_refl c
    · exact moves_setPipe c _
  · exact applyContinuation_moves c hdr payload
  · exact Moves.reset c _
  · exact moves_counted c true false 0
  · exact moves_refl c

/-- What a loop has done when it returns `total`, having had `acc` before. -/
def Adds (dir : IoDir) (ts : ℕ) (a b : H2Conn) (acc total : Emitted) : Prop :=
  ∃ e, total = acc ++ e ∧ Moves dir ts a b e

theorem Adds.one {a b : H2Conn} {e : Emitted} (h : Moves dir ts a b e) (acc : Emitted) :
    Adds dir ts a b acc (acc ++ e) := ⟨e,rfl,h⟩

theorem Adds.none (a : H2Conn) (acc : Emitted) : Adds dir ts a a acc acc :=
  ⟨.empty,by simp,moves_refl a⟩

theorem Adds.before {a b c : H2Conn} {acc e total : Emitted} (h : Moves dir ts a b e)
    (h' : Adds dir ts b c (acc ++ e) total) : Adds dir ts a c acc total := by
  obtain ⟨e',rfl,hm⟩ := h'
  exact ⟨e ++ e',Emitted.append_assoc _ _ _,h.trans hm⟩

theorem drainLoop_adds (c : H2Conn) (buf : List UInt8) (acc : Emitted) :
    Adds dir ts c (drainLoop c dir ts buf acc).1 acc (drainLoop c dir ts buf acc).2.2 := by
  fun_induction drainLoop c dir ts buf acc with
  | case1 c _ acc => exact Adds.none c acc
  | case2 c _ acc => exact Adds.one (moves_counted c false true 0) acc
  | case3 c _ acc _ hdr => exact Adds.one (skipFrame_moves c hdr) acc
  | case4 c _ acc _ hdr _ _ _ _ _ _ ih => exact (Adds.before (skipFrame_moves c hdr) ih)
  | case5 c _ acc _ hdr => exact Adds.one (skipFrame_moves _ hdr).after_setPipe acc
  | case6 c _ acc _ hdr _ _ _ _ _ _ _ ih =>
    exact Adds.before (skipFrame_moves _ hdr).after_setPipe ih
  | case7 c _ acc => exact Adds.none c acc
  | case8 c _ acc _ hdr => exact Adds.one (applyHeadersOrControl_moves c hdr _) acc
  | case9 c _ acc _ hdr _ _ _ _ _ _ _ ih =>
    exact Adds.before (applyHeadersOrControl_moves c hdr _) ih

theorem drainFrames_moves (c : H2Conn) :
    Moves dir ts c (drainFrames c dir ts).1 (drainFrames c dir ts).2 := by
  simp only [drainFrames]
  split_ifs
  · exact moves_refl c
  · obtain ⟨e,he,hm⟩ := drainLoop_adds (setLeftover c dir []) (stripPreface (c.pipe dir).leftover)
      .empty
    rw [Emitted.empty_append] at he
    rw [he]
    exact hm.after_setPipe.then_setPipe _

theorem pushLoop_adds (c : H2Conn) (src : List UInt8) (acc : Emitted) :
    Adds dir ts c (pushLoop c dir src ts acc).1 acc (pushLoop c dir src ts acc).2 := by
  fun_induction pushLoop c dir src ts acc with
  | case1 c _ acc => exact Adds.one (drainFrames_moves _).after_setPipe acc
  | case2 c _ acc =>
    rw [Emitted.append_assoc]
    exact Adds.one ((drainFrames_moves _).after_setPipe.trans (Moves.pipe _ _ false true 0)) acc
  | case3 c _ acc _ _ _ _ _ _ _ ih => exact Adds.before (drainFrames_moves _).after_setPipe ih
  | case4 c _ acc =>
    exact Adds.one (drainFrames_moves _).after_setPipe.after_setPipe acc
  | case5 c _ acc _ _ _ _ _ _ _ _ _ ih =>
    exact Adds.before (drainFrames_moves _).after_setPipe.after_setPipe ih

/-- Every call of `push_bytes` is made of moves. -/
theorem pushBytes_moves (c : H2Conn) (src : List UInt8) :
    Moves dir ts c (pushBytes c dir src ts).1 (pushBytes c dir src ts).2 := by
  obtain ⟨e,he,hm⟩ := pushLoop_adds c src .empty
  rw [Emitted.empty_append] at he
  rw [pushBytes,he]
  exact hm

end

end H2
end ObsAgent
