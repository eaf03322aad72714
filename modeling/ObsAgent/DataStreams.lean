import ObsAgent.Payloads

/-! Bodies on the wire.  The payloads of DATA frames are told by the octets that a socket moves in
each direction.  Two runs whose octets differ only there come to the same, as long as the calls are
captured whole, connections are taken up between frames and the detectors read no payload. -/
namespace ObsAgent

open Kernel Http1 H2

namespace H2

def isData (hdr : FrameHeader) : Bool := hdr.ty = typeData

theorem skipPayload_of_isData (hdr : FrameHeader) (h : isData hdr = true) :
    skipPayload hdr = true := by
  have hty : hdr.ty = typeData := of_decide_eq_true h
  rw [skipPayload,hty,if_neg (by decide)]

/-- Frames up to the end, none of them cut. -/
def wholeFrames (buf : List UInt8) : Bool :=
  if buf = [] then true
  else if prefaceHeader buf then false
  else
    match _h : FrameHeader.parse buf with
    | none => false
    | some hdr => hdr.totalLen ≤ buf.length && wholeFrames (buf.drop hdr.totalLen)
termination_by buf.length
decreasing_by
  have hlen := FrameHeader.length_of_parse _h
  have htotal := hdr.headerLen_le_totalLen
  simp only [headerLen] at hlen htotal
  simp only [List.length_drop]
  omega

/-- A stream that ends between two frames. -/
def betweenFrames (buf : List UInt8) : Bool := wholeFrames (stripPreface buf)

theorem first_of_wholeFrames {b : List UInt8} (hne : b ≠ []) (h : wholeFrames b = true) :
    prefaceHeader b = false ∧ ∃ hdr, FrameHeader.parse b = some hdr ∧ hdr.totalLen ≤ b.length ∧
      wholeFrames (b.drop hdr.totalLen) = true := by
  rw [wholeFrames,if_neg hne] at h
  split_ifs at h with hp
  split at h
  · cases h
  · next hdr hparse =>
    rw [Bool.and_eq_true,decide_eq_true_eq] at h
    exact ⟨by simpa using hp,hdr,hparse,h.1,h.2⟩

section Behind

variable {hides : FrameHeader → Bool} {m m' f f' : List UInt8}

theorem showFrames_behind (hlen : m.length = m'.length) (hm : wholeFrames m = true)
    (h : showFrames hides (m ++ f) = showFrames hides (m' ++ f')) :
    showFrames hides f = showFrames hides f' := by
  induction hn : m.length using Nat.strong_induction_on generalizing m m' with
  | _ n ih =>
    by_cases hnil : m = []
    · subst hnil
      rwa [List.length_eq_zero_iff.mp hlen.symm] at h
    obtain ⟨hp,hdr,hparse,hle,hrest⟩ := first_of_wholeFrames hnil hm
    rcases showFrames_inv h with heq | ⟨hdr',-,-,-,hb,-,-,hnext⟩
    · rw [(List.append_inj heq hlen).2]
    have hpos := FrameHeader.length_of_parse hparse
    have hsame : hdr' = hdr := by
      rw [FrameHeader.parse_leads (List.prefix_append m f) hpos,hparse] at hb
      exact (Option.some.inj hb).symm
    have htotal := hdr.headerLen_le_totalLen
    simp only [headerLen] at hpos htotal
    rw [hsame,List.drop_append_of_le_length hle,List.drop_append_of_le_length (hlen ▸ hle)] at hnext
    exact ih _ (by simp; omega) (by simp [hlen]) hrest hnext rfl

theorem showStream_behind (hlen : m.length = m'.length) (hm : betweenFrames m = true)
    (h : showStream hides (m ++ f) = showStream hides (m' ++ f')) :
    showStream hides f = showStream hides f' := by
  by_cases hnil : m = []
  · subst hnil
    rwa [List.length_eq_zero_iff.mp hlen.symm] at h
  rw [betweenFrames,stripPreface] at hm
  split_ifs at hm with hstart
  · have hstart' := start_of_seen h (startsWith_append hstart f)
    have hle := (startsWith_iff.mp hstart).length_le
    have hcut : ∀ u v : List UInt8, u.length = m.length →
        (u ++ v).drop clientPreface.length = u.drop clientPreface.length ++ v := fun u v hu =>
      List.drop_append_of_le_length (hu ▸ hle)
    rw [showStream_start (startsWith_append hstart f),showStream_start hstart',hcut m f rfl,
      hcut m' f' hlen.symm] at h
    exact showStream_of_showFrames
      (showFrames_behind (by simp [hlen]) hm (List.append_cancel_left h))
  · obtain ⟨hp,hdr,hparse,-,-⟩ := first_of_wholeFrames hnil hm
    have hpos := FrameHeader.length_of_parse hparse
    have hplain : startsWith (m ++ f) clientPreface = false := by
      refine not_start_of_header (Eq.trans (prefaceHeader_congr ?_) hp) (by simp; omega)
      exact List.take_append_of_le_length hpos
    have hplain' : startsWith (m' ++ f') clientPreface = false := by
      rw [Bool.eq_false_iff]
      intro hs
      rw [start_of_seen h.symm hs] at hplain
      cases hplain
    rw [showStream_plain hplain,showStream_plain hplain'] at h
    exact showStream_of_showFrames (showFrames_behind hlen hm h)

/-- A connection that is taken up between frames sees no payload of a DATA frame. -/
theorem new_seesSame (hlen : m.length = m'.length) (hm : betweenFrames m = true)
    (h : showStream isData (m ++ f) = showStream isData (m' ++ f')) :
    DirPipe.new.SeesSame f f' :=
  seesSame_of_buffer rfl (showStream_mono skipPayload_of_isData (showStream_behind hlen hm h))

end Behind

/-- What a call makes of its connection: the one that was there, or a new one, with the octets
pushed. -/
def Carried (r : H2Registry) (ev : SockIoEvent) (dir : IoDir) (now : Instant) (conn' : H2Conn) :
    Prop :=
  ∃ conn, (r.conns.get ev.connKey = some conn ∨ conn = .new now ∧
      (r.conns.get ev.connKey = none ∨ startsWith ev.chunk clientPreface = true)) ∧
    (pushBytes {conn with atTime := now} dir ev.chunk ev.tsNs).2.outcome.halted = false ∧
    conn' = (pushBytes {conn with atTime := now} dir ev.chunk ev.tsNs).1

section Conn

variable {r : H2Registry} {ev : SockIoEvent} {dir : IoDir} {conn' : H2Conn} {clientOnly : Bool}
  {now : Instant}

theorem conn_of_feedConn {conn : H2Conn}
    (h : (r.feedConn ev.connKey conn dir ev now clientOnly).1.conns.get ev.connKey = some conn') :
    (pushBytes {conn with atTime := now} dir ev.chunk ev.tsNs).2.outcome.halted = false ∧
      conn' = (pushBytes {conn with atTime := now} dir ev.chunk ev.tsNs).1 := by
  have hself := congrArg Prod.fst (feedConn_self r conn dir ev now clientOnly)
  rw [h] at hself
  simp only [Socket.pushConn] at hself
  split_ifs at hself with hend
  exact ⟨Bool.eq_false_iff.mpr hend,Option.some.inj hself⟩

theorem conn_of_feed (hdir : IoDir.fromU8 ev.dir = some dir) (hret : 0 ≤ ev.ret) (hlen : ev.plen ≠ 0)
    (h : (r.feed ev now clientOnly).1.conns.get ev.connKey = some conn') :
    Carried r ev dir now conn' := by
  have hgo : ¬(ev.ret < 0 ∨ ev.plen = 0) := by omega
  have hforget := get_forget_self r ev.connKey ev.chunk
  simp only [H2Registry.feed,hdir,if_neg hgo] at h
  cases hconn : (r.forget ⟨ev.tgid,ev.fd⟩ ev.chunk).conns.get ⟨ev.tgid,ev.fd⟩ with
  | some conn =>
    have hheld := hconn.symm.trans hforget
    rw [hconn] at h
    split_ifs at hheld
    exact ⟨conn,.inl hheld.symm,conn_of_feedConn h⟩
  | none =>
    have hwhy : r.conns.get ev.connKey = none ∨ startsWith ev.chunk clientPreface = true := by
      have hnone := hconn.symm.trans hforget
      split_ifs at hnone with hstart
      · exact .inr hstart
      · exact .inl hnone.symm
    rw [hconn] at h
    dsimp only at h
    split_ifs at h with hfull hlooks
    · cases hconn.symm.trans h
    · exact ⟨.new now,.inr ⟨rfl,hwhy⟩,conn_of_feedConn h⟩
    · cases hconn.symm.trans h

theorem conn_of_ingest (hdir : IoDir.fromU8 ev.dir = some dir) (hret : 0 ≤ ev.ret)
    (h : (r.ingest ev clientOnly now true).1.conns.get ev.connKey = some conn') :
    (ev.plen = 0 ∧ r.conns.get ev.connKey = some conn') ∨ Carried r ev dir now conn' := by
  have hmarked : ∀ d : H2Registry, d.isMarked ev.tgid ev.fd = (d.conns.get ev.connKey).isSome :=
    fun d => rfl
  simp only [H2Registry.ingest,Bool.not_true,Bool.false_eq_true,if_false] at h
  by_cases hgone : (r.isMarked ev.tgid ev.fd && looksLikeHttp11 ev.chunk) = true
  · -- nothing is left of a connection that turns out to be HTTP/1.1
    have hlooks := (Bool.and_eq_true_iff.mp hgone).2
    have hnone := isMarked_dropConn r ev.tgid ev.fd
    simp only [if_pos hgone,hnone,looksLikeH2_of_http11 hlooks,Bool.or_self,Bool.false_eq_true,
      if_false] at h
    rw [hmarked,h] at hnone
    cases hnone
  simp only [if_neg hgone] at h
  split_ifs at h with hroute
  · rw [Agent.conns_takeUnmark] at h
    by_cases hempty : ev.plen = 0
    · simp only [H2Registry.feed,hdir,hempty,or_true,if_true] at h
      exact .inl ⟨hempty,h⟩
    · exact .inr (conn_of_feed hdir hret hempty h)
  · rw [Bool.not_eq_true,Bool.or_eq_false_iff,hmarked,h] at hroute
    cases hroute.1

end Conn

theorem pushBytes_seen {conn : H2Conn} (hconn : conn.Bounded) {dir : IoDir} {src src' : List UInt8}
    {now : Instant} {ts : ℕ} (f f' g g' : IoDir → List UInt8) (hlen : src.length = src'.length)
    (hf : f dir = src ++ g dir ∧ f' dir = src' ++ g' dir)
    (hflip : f dir.flip = g dir.flip ∧ f' dir.flip = g' dir.flip)
    (h : ∀ d, (conn.pipe d).SeesSame (f d) (f' d))
    (hlive : (pushBytes {conn with atTime := now} dir src ts).2.outcome.halted = false) (d : IoDir) :
    ((pushBytes {conn with atTime := now} dir src ts).1.pipe d).SeesSame (g d) (g' d) := by
  have hpipe : ∀ d, ({conn with atTime := now} : H2Conn).pipe d = conn.pipe d := by
    intro d
    cases d <;> rfl
  have hmoves : Moves dir ts {conn with atTime := now} _ _ := pushBytes_moves _ src
  have hmine : (({conn with atTime := now} : H2Conn).pipe dir).SeesSame (src ++ g dir)
      (src' ++ g' dir) := by
    rw [hpipe,← hf.1,← hf.2]
    exact h dir
  by_cases hd : d = dir
  · subst hd
    exact (pushLoop_seen ((hconn.atTime now).pipes d) hlen hmine ts .empty).2 hlive
  · obtain rfl : d = dir.flip := by cases d <;> cases dir <;> trivial
    rw [moves_flip hmoves,hpipe,← hflip.1,← hflip.2]
    exact h dir.flip

end H2

/-- The step with other octets in its event. -/
def AgentStep.withBuf : AgentStep → PrefixBuf → AgentStep
  | .io ev fromTls clientOnly now allowed, other =>
    .io (ev.withBuf other) fromTls clientOnly now allowed
  | .tick now isLive, _ => .tick now isLive

def AgentStep.octetsOn (key : ConnKey) (dir : IoDir) : AgentStep → List UInt8
  | .io ev _ _ _ _ => if ev.connKey = key ∧ IoDir.fromU8 ev.dir = some dir then ev.chunk else []
  | .tick _ _ => []

/-- The octets that a run moves over a socket in one direction. -/
def streamOn (key : ConnKey) (dir : IoDir) (steps : List AgentStep) : List UInt8 :=
  steps.flatMap (AgentStep.octetsOn key dir)

theorem streamOn_cons (key : ConnKey) (dir : IoDir) (e : AgentStep) (steps : List AgentStep) :
    streamOn key dir (e :: steps) = e.octetsOn key dir ++ streamOn key dir steps := List.flatMap_cons

theorem streamOn_append (key : ConnKey) (dir : IoDir) (steps steps' : List AgentStep) :
    streamOn key dir (steps ++ steps') = streamOn key dir steps ++ streamOn key dir steps' :=
  List.flatMap_append

/-- Both directions of a socket are between frames. -/
def atRest (key : ConnKey) (steps : List AgentStep) : Bool :=
  betweenFrames (streamOn key .read steps) && betweenFrames (streamOn key .write steps)

theorem betweenFrames_of_atRest {key : ConnKey} {steps : List AgentStep}
    (h : atRest key steps = true) (dir : IoDir) : betweenFrames (streamOn key dir steps) = true := by
  obtain ⟨hread,hwrite⟩ := Bool.and_eq_true_iff.mp h
  cases dir
  · exact hread
  · exact hwrite

/-- A call on the socket is captured whole, and one that can open a connection comes between
frames. -/
def AgentStep.Tracked (key : ConnKey) (past : List AgentStep) (s : Agent) : AgentStep → Prop
  | .io ev _ _ _ allowed => ev.connKey = key →
    (IoDir.fromU8 ev.dir).isSome = true ∧ ev.ret = ev.plen ∧
      (allowed = true →
        s.h2.isMarked key.tgid key.fd = false ∨ startsWith ev.chunk clientPreface = true →
          atRest key past = true)
  | .tick _ _ => True

/-- On the socket, the detectors read no skipped payload. -/
def AgentStep.Unmistaken (key : ConnKey) (s : Agent) : AgentStep → Prop
  | .io ev _ _ _ allowed => ev.connKey = key → allowed = true →
    (s.h2.reader ev).Unmistaken ev.chunk
  | .tick _ _ => True

instance (key : ConnKey) (past : List AgentStep) (s : Agent) :
    (e : AgentStep) → Decidable (e.Tracked key past s)
  | .io .. => inferInstanceAs (Decidable (_ → _))
  | .tick .. => inferInstanceAs (Decidable True)

instance (key : ConnKey) (s : Agent) : (e : AgentStep) → Decidable (e.Unmistaken key s)
  | .io .. => inferInstanceAs (Decidable (_ → _))
  | .tick .. => inferInstanceAs (Decidable True)

def Agent.Tracked (key : ConnKey) : List AgentStep → Agent → List AgentStep → Prop
  | _,_,[] => True
  | past,s,e :: steps => e.Tracked key past s ∧ Tracked key (past ++ [e]) (s.publish e).1 steps

def Agent.Unmistaken (key : ConnKey) (s : Agent) (steps : List AgentStep) : Prop :=
  Machine.Along publish (fun s e => e.Unmistaken key s) s steps

/-- The two runs hold the same registry; the octets of the socket, from the first on, differ only in
the payloads of DATA frames, and its connection sees none of these in what is to come. -/
structure Agent.Twins (key : ConnKey) (past past' : List AgentStep)
    (ts : List (AgentStep × PrefixBuf)) (s s' : Agent) : Prop where
  same : s.h2 = s'.h2
  bounded : s.h2.Bounded
  others : ∀ t ∈ ts, t.1.concerns key = false → t.1.withBuf t.2 = t.1
  lengths : ∀ dir, (streamOn key dir past).length = (streamOn key dir past').length
  data : ∀ dir, showStream isData (streamOn key dir past ++ streamOn key dir (ts.map Prod.fst)) =
    showStream isData (streamOn key dir past' ++ streamOn key dir (ts.map fun t => t.1.withBuf t.2))
  tracked : Agent.Tracked key past s (ts.map Prod.fst)
  first : s.Unmistaken key (ts.map Prod.fst)
  second : s'.Unmistaken key (ts.map fun t => t.1.withBuf t.2)
  aligned : ∀ conn, s.h2.conns.get key = some conn → ∀ dir, (conn.pipe dir).SeesSame
    (streamOn key dir (ts.map Prod.fst)) (streamOn key dir (ts.map fun t => t.1.withBuf t.2))

theorem AgentStep.octetsOn_withBuf_length (key : ConnKey) (dir : IoDir) (e : AgentStep)
    (other : PrefixBuf) : ((e.withBuf other).octetsOn key dir).length =
      (e.octetsOn key dir).length := by
  cases e with
  | tick now isLive => rfl
  | io ev fromTls clientOnly now allowed =>
    have hkey : (ev.withBuf other).connKey = ev.connKey := rfl
    simp only [AgentStep.withBuf,octetsOn,hkey,SockIoEvent.withBuf_dir]
    split_ifs <;> simp

section Twins

variable {key : ConnKey} {past past' : List AgentStep} {e : AgentStep} {other : PrefixBuf}
  {ts : List (AgentStep × PrefixBuf)} {s s' : Agent}

theorem Agent.Twins.next (h : Agent.Twins key past past' ((e,other) :: ts) s s')
    (hsame : (s.step e).1.h2 = (s'.step (e.withBuf other)).1.h2)
    (haligned : ∀ conn, (s.step e).1.h2.conns.get key = some conn → ∀ dir, (conn.pipe dir).SeesSame
      (streamOn key dir (ts.map Prod.fst)) (streamOn key dir (ts.map fun t => t.1.withBuf t.2))) :
    Agent.Twins key (past ++ [e]) (past' ++ [e.withBuf other]) ts (s.publish e).1
      (s'.publish (e.withBuf other)).1 where
  same := hsame
  bounded := Agent.bounded_step h.bounded e
  others t ht := h.others t (List.mem_cons_of_mem _ ht)
  lengths dir := by
    have hlen := e.octetsOn_withBuf_length key dir other
    have hpast := h.lengths dir
    simp only [streamOn,List.flatMap_append,List.flatMap_singleton,List.length_append] at hpast ⊢
    omega
  data dir := by
    have hdata := h.data dir
    simp only [List.map_cons,streamOn_cons,← List.append_assoc] at hdata
    rw [streamOn_append,streamOn_append]
    simpa [streamOn] using hdata
  tracked := h.tracked.2
  first := h.first.2
  second := h.second.2
  aligned := haligned

/-- A step that does not move the socket's octets leaves at most its connection. -/
theorem Agent.Twins.idle (h : Agent.Twins key past past' ((e,other) :: ts) s s')
    (hsame : (s.step e).1.h2 = (s'.step (e.withBuf other)).1.h2)
    (hnone : ∀ dir, e.octetsOn key dir = [])
    (hkept : ∀ conn, (s.step e).1.h2.conns.get key = some conn → s.h2.conns.get key = some conn) :
    Agent.Twins key (past ++ [e]) (past' ++ [e.withBuf other]) ts (s.publish e).1
      (s'.publish (e.withBuf other)).1 := by
  refine h.next hsame fun conn hconn dir => ?_
  have hnone' : (e.withBuf other).octetsOn key dir = [] := by
    rw [← List.length_eq_zero_iff,AgentStep.octetsOn_withBuf_length,hnone,List.length_nil]
  have hsees := h.aligned conn (hkept conn hconn) dir
  simpa only [List.map_cons,streamOn_cons,hnone,hnone',List.nil_append] using hsees

end Twins

section Call

variable {past past' : List AgentStep} {ev : SockIoEvent} {other : PrefixBuf}
  {fromTls clientOnly : Bool} {now : Instant} {ts : List (AgentStep × PrefixBuf)} {s s' : Agent}
  (h : Agent.Twins ev.connKey past past' ((.io ev fromTls clientOnly now true,other) :: ts) s s')

include h

/-- A connection that the call can open sees the same from the call on. -/
theorem Agent.Twins.opened
    (hwhy : s.h2.conns.get ev.connKey = none ∨ startsWith ev.chunk clientPreface = true)
    (dir : IoDir) : DirPipe.new.SeesSame
      (streamOn ev.connKey dir (((.io ev fromTls clientOnly now true,other) :: ts).map Prod.fst))
      (streamOn ev.connKey dir
        (((.io ev fromTls clientOnly now true,other) :: ts).map fun t => t.1.withBuf t.2)) := by
  obtain ⟨_,_,hrest⟩ := h.tracked.1 rfl
  have hmarked : s.h2.isMarked ev.tgid ev.fd = false ∨
      startsWith ev.chunk clientPreface = true := hwhy.imp_left fun hnone => by
    rw [H2Registry.isMarked,FiniteMap.contains]
    exact congrArg Option.isSome hnone
  exact new_seesSame (h.lengths dir) (betweenFrames_of_atRest (hrest rfl hmarked) dir) (h.data dir)

theorem Agent.Twins.reader {dir : IoDir} (hdir : IoDir.fromU8 ev.dir = some dir) :
    (s.h2.reader ev).SeesSame
      (streamOn ev.connKey dir (((.io ev fromTls clientOnly now true,other) :: ts).map Prod.fst))
      (streamOn ev.connKey dir
        (((.io ev fromTls clientOnly now true,other) :: ts).map fun t => t.1.withBuf t.2)) := by
  cases hconn : s.h2.conns.get ev.connKey with
  | none =>
    simp only [H2Registry.reader,hdir,hconn]
    exact h.opened (.inl hconn) dir
  | some conn =>
    simp only [H2Registry.reader,hdir,hconn]
    exact h.aligned conn hconn dir

theorem Agent.Twins.call :
    s.h2.ingest (ev.withBuf other) clientOnly now true = s.h2.ingest ev clientOnly now true ∧
      ∀ conn, (s.h2.ingest ev clientOnly now true).1.conns.get ev.connKey = some conn →
        ∀ dir, (conn.pipe dir).SeesSame (streamOn ev.connKey dir (ts.map Prod.fst))
          (streamOn ev.connKey dir (ts.map fun t => t.1.withBuf t.2)) := by
  obtain ⟨hdir,hret,_⟩ := h.tracked.1 rfl
  obtain ⟨dir,hdir⟩ := Option.isSome_iff_exists.mp hdir
  have hkey : (ev.withBuf other).connKey = ev.connKey := rfl
  have hlen : ev.chunk.length = (ev.withBuf other).chunk.length := by simp
  -- the streams from this call on, and behind it
  let f := fun d => streamOn ev.connKey d
    (((.io ev fromTls clientOnly now true,other) :: ts).map Prod.fst)
  let f' := fun d => streamOn ev.connKey d
    (((.io ev fromTls clientOnly now true,other) :: ts).map fun t => t.1.withBuf t.2)
  let g := fun d => streamOn ev.connKey d (ts.map Prod.fst)
  let g' := fun d => streamOn ev.connKey d (ts.map fun t => t.1.withBuf t.2)
  have hmine : f dir = ev.chunk ++ g dir ∧ f' dir = (ev.withBuf other).chunk ++ g' dir := by
    simp [f,f',g,g',streamOn_cons,AgentStep.octetsOn,AgentStep.withBuf,hkey,hdir]
  have hflip : f dir.flip = g dir.flip ∧ f' dir.flip = g' dir.flip := by
    have hne : dir ≠ dir.flip := by cases dir <;> decide
    simp [f,f',g,g',streamOn_cons,AgentStep.octetsOn,AgentStep.withBuf,hkey,hdir,hne]
  have hreader : (s.h2.reader ev).SeesSame (f dir) (f' dir) := h.reader hdir
  rw [hmine.1,hmine.2] at hreader
  have hother : (s.h2.reader ev).Unmistaken (ev.withBuf other).chunk := by
    have hsecond := h.second.1 rfl rfl
    rw [← h.same] at hsecond
    exact hsecond
  refine ⟨ingest_seen h.bounded (hreader.front hlen) (h.first.1 rfl rfl) hother clientOnly now true,
    fun conn hconn d => ?_⟩
  rcases conn_of_ingest hdir (by omega) hconn with ⟨hempty,hheld⟩ | ⟨c,hc,hlive,rfl⟩
  · -- nothing was captured
    have hnil : ∀ u : List UInt8, u.length = ev.plen → u = [] := fun u hu =>
      List.length_eq_zero_iff.mp (hu.trans hempty)
    have hsees := h.aligned conn hheld d
    simp only [List.map_cons,streamOn_cons,AgentStep.octetsOn,AgentStep.withBuf,
      hnil ev.chunk (by simp),hnil (ev.withBuf other).chunk (by simp),ite_self,List.nil_append]
      at hsees
    exact hsees
  · rcases hc with hheld | ⟨rfl,hwhy⟩
    · exact pushBytes_seen (h.bounded.conns _ _ hheld) f f' g g' hlen hmine hflip (h.aligned c hheld)
        hlive d
    · refine pushBytes_seen (bounded_newConn now) f f' g g' hlen hmine hflip (fun d => ?_) hlive d
      rw [H2Conn.pipe_new]
      exact h.opened hwhy d

end Call

theorem Agent.Twins.step {key : ConnKey} {past past' : List AgentStep} {t : AgentStep × PrefixBuf}
    {ts : List (AgentStep × PrefixBuf)} {s s' : Agent}
    (h : Agent.Twins key past past' (t :: ts) s s') :
    Agent.Twins key (past ++ [t.1]) (past' ++ [t.1.withBuf t.2]) ts (s.publish t.1).1
        (s'.publish (t.1.withBuf t.2)).1 ∧
      (s.publish t.1).2.filterMap Published.http2Exchange =
        (s'.publish (t.1.withBuf t.2)).2.filterMap Published.http2Exchange := by
  obtain ⟨e,other⟩ := t
  cases e with
  | tick now isLive =>
    refine ⟨h.idle ?_ (fun _ => rfl) fun conn hconn => ?_,rfl⟩
    · simp only [AgentStep.withBuf,Agent.step,Agent.tick,clearAll_h2,h.same]
    · have htick : (Agent.socket _ key now).conn = (Socket.tick _ now _).conn :=
        congrArg Socket.conn (s.tick_socket now key isLive)
      have hkept := (Option.filter_eq_some_iff.mp (htick.symm.trans hconn)).1
      exact (Option.filter_eq_some_iff.mp hkept).1
  | io ev fromTls clientOnly now allowed =>
    obtain ⟨hh2,hout⟩ := s.ingestHttpIo_h2 ev fromTls clientOnly now allowed
    obtain ⟨hh2',hout'⟩ := s'.ingestHttpIo_h2 (ev.withBuf other) fromTls clientOnly now allowed
    rw [← h.same] at hh2' hout'
    by_cases hkey : ev.connKey = key
    · subst hkey
      have hheld : ∀ conn, (s.step (.io ev fromTls clientOnly now allowed)).1.h2.conns.get
          ev.connKey = some conn →
          (s.h2.ingest ev clientOnly now allowed).1.conns.get ev.connKey = some conn :=
        fun conn hconn => (congrArg (fun r : H2Registry => r.conns.get ev.connKey) hh2).symm.trans hconn
      cases allowed with
      | false =>
        have hdenied : s.h2.ingest (ev.withBuf other) clientOnly now false =
          s.h2.ingest ev clientOnly now false := rfl
        rw [hdenied] at hh2' hout'
        refine ⟨h.next (hh2.trans hh2'.symm) fun conn hconn => ?_,hout.trans hout'.symm⟩
        have hnone := Agent.get_dropConn s.h2 ev.connKey ev.connKey
        rw [if_pos rfl] at hnone
        cases hnone.symm.trans (hheld conn hconn)
      | true =>
        obtain ⟨hsame,haligned⟩ := h.call
        rw [hsame] at hh2' hout'
        exact ⟨h.next (hh2.trans hh2'.symm) fun conn hconn => haligned conn (hheld conn hconn),
          hout.trans hout'.symm⟩
    · have hbuf : ev.withBuf other = ev := by
        have hstep := h.others _ List.mem_cons_self (by simp [AgentStep.concerns,hkey])
        exact (AgentStep.io.inj hstep).1
      rw [hbuf] at hh2' hout'
      have hsocket := congrArg Socket.conn
        (s.ingestHttpIo_other ev fromTls clientOnly now allowed (Ne.symm hkey))
      refine ⟨h.idle ?_ (fun dir => by simp [AgentStep.octetsOn,hkey]) fun conn hconn => ?_,?_⟩
      · rw [AgentStep.withBuf,hbuf]
        exact hh2.trans hh2'.symm
      · exact hsocket.symm.trans hconn
      · rw [AgentStep.withBuf,hbuf]
        exact hout.trans hout'.symm

/-- Two runs, from the first call on a socket on, whose octets on it differ only inside the payloads
of DATA frames give the same HTTP/2 exchanges and leave the same registry, if its calls are captured
whole, its connection is taken up between frames and the detectors read no skipped payload.  And in
every state a chunk of skipped payload leaves its connection if the detectors do not take it for
something else. -/
theorem data_payloads_unseen (reached : List AgentStep) (key : ConnKey)
    (ts : List (AgentStep × PrefixBuf))
    (hopen : (Machine.final Agent.publish .start reached).h2.isMarked key.tgid key.fd = false)
    (hothers : ∀ t ∈ ts, t.1.concerns key = false → t.1.withBuf t.2 = t.1)
    (hdata : ∀ dir, showStream isData (streamOn key dir (ts.map Prod.fst)) =
      showStream isData (streamOn key dir (ts.map fun t => t.1.withBuf t.2)))
    (htracked : Agent.Tracked key [] (Machine.final Agent.publish .start reached)
      (ts.map Prod.fst))
    (hfirst : (Machine.final Agent.publish .start reached).Unmistaken key (ts.map Prod.fst))
    (hsecond : (Machine.final Agent.publish .start reached).Unmistaken key
      (ts.map fun t => t.1.withBuf t.2)) :
    let s := Machine.final Agent.publish .start reached
    ((Machine.outputs Agent.publish s (ts.map Prod.fst)).filterMap Published.http2Exchange =
        (Machine.outputs Agent.publish s (ts.map fun t => t.1.withBuf t.2)).filterMap
          Published.http2Exchange ∧
      (Machine.final Agent.publish s (ts.map Prod.fst)).h2 =
        (Machine.final Agent.publish s (ts.map fun t => t.1.withBuf t.2)).h2) ∧
    ∀ (ev : SockIoEvent) (fromTls clientOnly : Bool) (now : Instant) (dir : IoDir) (conn : H2Conn),
      IoDir.fromU8 ev.dir = some dir → 0 ≤ ev.ret → 0 < ev.plen →
      s.h2.conns.get ev.connKey = some conn → ev.plen ≤ (conn.pipe dir).skip →
      (conn.pipe dir).Unmistaken ev.chunk →
        (s.step (.io ev fromTls clientOnly now true)).1.h2.conns.get ev.connKey =
          some (setBuf {conn with atTime := now} dir [] ((conn.pipe dir).skip - ev.plen)) := by
  have hbounded := Agent.bounded_final reached
  refine ⟨?_,fun ev fromTls clientOnly now dir conn hdir hret hlen hconn hle hu => ?_⟩
  · have hstart : Agent.Twins key [] [] ts (Machine.final Agent.publish .start reached)
        (Machine.final Agent.publish .start reached) :=
      { same := rfl
        bounded := hbounded
        others := hothers
        lengths := fun _ => rfl
        data := hdata
        tracked := htracked
        first := hfirst
        second := hsecond
        aligned := fun conn hconn => by
          rw [H2Registry.isMarked,FiniteMap.contains,hconn] at hopen
          cases hopen }
    obtain ⟨hout,_,_,hend⟩ := Machine.lockstep Agent.publish
      (R := fun ts s s' => ∃ past past', Agent.Twins key past past' ts s s')
      (by
        rintro _ _ _ _ ⟨past,past',h⟩
        exact ⟨⟨_,_,h.step.1⟩,h.step.2⟩) ⟨[],[],hstart⟩
    exact ⟨hout,hend.same⟩
  · rw [Agent.step,(Agent.ingestHttpIo_h2 _ ev fromTls clientOnly now true).1]
    exact ingest_skipped hbounded hdir hret hlen hconn hle hu clientOnly now

/-- The first call of an HTTP/2 connection announces a body of 24 octets. -/
def bodyAnnounced : AgentStep :=
  .io (someSocket.moved .write (clientPreface ++ [0,0,4,1,4,0,0,0,1,0x82,0x44,0x01,0x2f] ++
    [0,0,24,0,1,0,0,0,1]) 1) false false 0 true

def twoBodies : List (AgentStep × PrefixBuf) :=
  [(bodyAnnounced,fillPrefix (clientPreface ++ [0,0,4,1,4,0,0,0,1,0x82,0x44,0x01,0x2f] ++
      [0,0,24,0,1,0,0,0,1])),
    (.io (someSocket.moved .write (octets "name=a&name=") 2) false false 1 true,
      fillPrefix (octets "name=b&name=")),
    (.io (someSocket.moved .write (octets "b&name=c&n=1") 3) false false 2 true,
      fillPrefix (octets "c&name=d&n=2")),
    (.io (someSocket.moved .read [0,0,1,1,4,0,0,0,1,0x88] 4) false false 3 true,
      fillPrefix [0,0,1,1,4,0,0,0,1,0x88])]

theorem data_payloads_unseen_two_bodies :
    ((Machine.outputs Agent.publish .start (twoBodies.map Prod.fst)).filterMap
        Published.http2Exchange).length = 1 ∧
      (Machine.final Agent.publish .start (twoBodies.map Prod.fst)).h2 =
        (Machine.final Agent.publish .start (twoBodies.map fun t => t.1.withBuf t.2)).h2 := by
  have hmine : ∀ t ∈ twoBodies, t.1.concerns ⟨42,3⟩ = true := by decide +kernel
  refine ⟨by decide +kernel,(data_payloads_unseen [] ⟨42,3⟩ twoBodies rfl
    (fun t ht hno => absurd (hno.symm.trans (hmine t ht)) Bool.false_ne_true) ?_
    ⟨by decide +kernel,by decide +kernel,by decide +kernel,by decide +kernel,trivial⟩
    ⟨by decide +kernel,by decide +kernel,by decide +kernel,by decide +kernel,trivial⟩
    ⟨by decide +kernel,by decide +kernel,by decide +kernel,by decide +kernel,trivial⟩).1.2⟩
  rintro (_ | _) <;> decide +kernel

/-- A body that begins like a request drops the connection, and one like the preface resets it.  The
octets of the runs differ only inside the DATA frame, and all calls are captured whole. -/
theorem body_like_start_line_unmarks :
    let run := fun body : List UInt8 =>
      [bodyAnnounced,AgentStep.io (someSocket.moved .write body 2) false false 1 true]
    let pending := fun body : List UInt8 =>
      ((Machine.final Agent.publish .start (run body)).h2.conns.get ⟨42,3⟩).map fun c => c.streams.len
    let agree := fun body body' : List UInt8 => ∀ dir, showStream isData (streamOn ⟨42,3⟩ dir (run body)) =
      showStream isData (streamOn ⟨42,3⟩ dir (run body'))
    (∀ body ∈ [octets "SET /x=1&y",octets "GET /x=1&y",octets "SET /x=1&y=1&z=1&v=1&w=1"],
      Agent.Tracked ⟨42,3⟩ [] .start (run body)) ∧
    (agree (octets "SET /x=1&y") (octets "GET /x=1&y") ∧
      pending (octets "SET /x=1&y") = some 1 ∧ pending (octets "GET /x=1&y") = none) ∧
    agree (octets "SET /x=1&y=1&z=1&v=1&w=1") clientPreface ∧
      pending (octets "SET /x=1&y=1&z=1&v=1&w=1") = some 1 ∧ pending clientPreface = some 0 := by
  intro run pending agree
  refine ⟨?_,⟨?_,by decide +kernel,by decide +kernel⟩,?_,by decide +kernel,by decide +kernel⟩
  · intro body hbody
    simp only [List.mem_cons,List.not_mem_nil,or_false] at hbody
    rcases hbody with rfl | rfl | rfl
    all_goals exact ⟨by decide +kernel,by decide +kernel,trivial⟩
  · rintro (_ | _) <;> decide +kernel
  · rintro (_ | _) <;> decide +kernel

end ObsAgent
