import ObsAgent.Chunking
import ObsAgent.Registry

/-! Calls longer than the capture.  The kernel passes on the first 256 octets of a call
and nothing tells the demultiplexer how many were left out, so the rest of a frame that
is cut there is looked for in the next call. -/
namespace ObsAgent
namespace H2

structure Call where
  dir : IoDir
  frames : List Frame
  tsNs : ℕ
  now : Instant

/-- The event of a call with these octets on a socket: its length, and its first octets. -/
def Call.event (c : Call) (sock : SockIoEvent) (bytes : List UInt8) : SockIoEvent :=
  sock.moved c.dir bytes c.tsNs

/-- The calls of a connection as registry operations; the first begins with the preface. -/
def connection (sock : SockIoEvent) (first : Call) (rest : List Call) : List RegOp :=
  .feed (first.event sock (clientPreface ++ Frame.wire first.frames)) first.now false ::
    rest.map fun c => .feed (c.event sock (Frame.wire c.frames)) c.now false

/-- All frames of a call, whatever was captured of them. -/
def readFrames (conn : H2Conn) (dir : IoDir) (tsNs : ℕ) : List Frame → H2Conn × Emitted
  | [] => (conn,.empty)
  | f :: fs =>
    let q := frameStep conn dir f tsNs
    let r := readFrames q.1 dir tsNs fs
    (r.1,q.2 ++ r.2)

def readCalls (conn : H2Conn) : List Call → H2Conn × Emitted
  | [] => (conn,.empty)
  | c :: cs =>
    let q := readFrames conn c.dir c.tsNs c.frames
    let r := readCalls q.1 cs
    (r.1,q.2 ++ r.2)

def H2Exchange.summary (x : H2Exchange) : ℕ × String × String × ℕ :=
  (x.streamId,x.method,x.path,x.status)

/-- The agent's exchanges are those of the complete streams. -/
def ReadsAll (sock : SockIoEvent) (first : Call) (rest : List Call) : Prop :=
  (H2Registry.default.exchanges (connection sock first rest)).map H2Exchange.summary =
    (readCalls (.new first.now) (first :: rest)).2.out.map H2Exchange.summary

/-- A property of every frame with its offset in the call. -/
def EachAt (p : ℕ → Frame → Prop) : ℕ → List Frame → Prop
  | _, [] => True
  | off, f :: fs => p off f ∧ EachAt p (off + f.bytes.length) fs

/-- Header blocks come in one frame, inside the capture; no GOAWAY, no length that
spells the preface. -/
def Placed (off : ℕ) (f : Frame) : Prop :=
  (f.hdr.ty = typeHeaders →
    f.hdr.flags &&& flagEndHeaders ≠ 0 ∧ off + f.bytes.length ≤ sockIoPrefixLen) ∧
  f.hdr.length ≠ prefaceLength ∧ f.hdr.ty ≠ typeGoaway

def WellPlaced (first : Call) (rest : List Call) : Prop :=
  EachAt Placed clientPreface.length first.frames ∧ ∀ c ∈ rest, EachAt Placed 0 c.frames

/-- A reset shows at least its header. -/
def ShowsReset (off : ℕ) (f : Frame) : Prop :=
  f.hdr.ty = typeRstStream → off + headerLen ≤ sockIoPrefixLen

/-- The first `k` octets of the frames are whole frames, or all there is. -/
def EndsOnFrame : List Frame → ℕ → Prop
  | [], _ => True
  | f :: fs, k => k = 0 ∨ f.bytes.length ≤ k ∧ EndsOnFrame fs (k - f.bytes.length)

/-- A call is cut on a frame boundary, or no octet follows it in its direction. -/
def SafelyCut (off : ℕ) (c : Call) (later : List Call) : Prop :=
  EachAt ShowsReset off c.frames ∧
    (EndsOnFrame c.frames (sockIoPrefixLen - off) ∨
      ∀ d ∈ later, d.dir = c.dir → d.frames = [])

def AllSafelyCut : List Call → Prop
  | [] => True
  | c :: cs => SafelyCut 0 c cs ∧ AllSafelyCut cs

instance decidableEachAt (p : ℕ → Frame → Prop) [∀ off f, Decidable (p off f)] :
    (off : ℕ) → (fs : List Frame) → Decidable (EachAt p off fs)
  | _, [] => .isTrue trivial
  | off, f :: fs =>
    have := decidableEachAt p (off + f.bytes.length) fs
    inferInstanceAs (Decidable (p off f ∧ EachAt p (off + f.bytes.length) fs))

instance (off : ℕ) (f : Frame) : Decidable (Placed off f) := inferInstanceAs (Decidable (_ ∧ _))

instance (off : ℕ) (f : Frame) : Decidable (ShowsReset off f) := inferInstanceAs (Decidable (_ → _))

/-- Two connections a frame of this direction cannot tell apart. -/
structure Alike (dir : IoDir) (a b : H2Conn) : Prop where
  pipe : a.pipe dir = b.pipe dir
  streams : a.streams = b.streams

theorem Alike.frameStep {dir : IoDir} {a b : H2Conn} (h : Alike dir a b) (f : Frame) (ts : ℕ) :
    Alike dir (frameStep a dir f ts).1 (frameStep b dir f ts).1 ∧
      (frameStep a dir f ts).2 = (frameStep b dir f ts).2 := by
  obtain ⟨hp,hs⟩ := h
  rw [frameStep_eq,frameStep_eq,hp]
  generalize interpret (b.pipe dir).headerBlock f = q
  cases q.2 with
  | decode sid frag =>
    simp only [perform,onHeaderBlock,setBlock,hp,hs,H2Conn.pipe_setPipe,H2Conn.streams_setPipe,
      H2Conn.setPipe_setPipe]
    split_ifs
    · exact ⟨⟨by simp,by simp [hs]⟩,rfl⟩
    · split
      · exact ⟨⟨by simp,by simp [hs]⟩,rfl⟩
      · exact ⟨⟨by cases dir <;> rfl,rfl⟩,rfl⟩
  | reset sid =>
    refine ⟨⟨?_,?_⟩,rfl⟩
    · cases dir <;> simp [perform,setBlock,H2Conn.pipe,H2Conn.setPipe] at hp ⊢ <;> simp [hp]
    · simp [perform,setBlock,hs]
  | _ => exact ⟨⟨by simp [perform,setBlock,hp],by simp [perform,setBlock,hs]⟩,rfl⟩

theorem frameStep_flip (conn : H2Conn) (dir : IoDir) (f : Frame) (ts : ℕ) :
    (frameStep conn dir f ts).1.pipe dir.flip = conn.pipe dir.flip := by
  rw [frameStep_eq]
  generalize interpret (conn.pipe dir).headerBlock f = q
  cases q.2 with
  | decode sid frag =>
    simp only [perform,onHeaderBlock,setBlock]
    split_ifs
    · simp
    · split
      · simp
      · cases dir <;> rfl
  | reset sid => cases dir <;> rfl
  | _ => simp [perform,setBlock]

theorem interpret_placed {off : ℕ} {f : Frame} (h : Placed off f) : (interpret none f).1 = none := by
  by_cases hH : f.hdr.ty = typeHeaders
  · simp only [interpret,hH,if_true,if_pos (h.1 hH).1]
    split_ifs
    · rfl
    · cases headersFragment f.hdr.flags f.payload <;> rfl
  · simp only [interpret,hH,if_false]
    split_ifs <;> rfl

theorem orderly_placed {off : ℕ} {fs : List Frame} (h : EachAt Placed off fs) : Orderly none fs := by
  induction fs generalizing off with
  | nil => trivial
  | cons f fs ih =>
    obtain ⟨hf,hfs⟩ := h
    refine ⟨hf.2.2,fun _ b hb => by simp at hb,?_⟩
    rw [interpret_placed hf]
    exact ih hfs

theorem noPreface_placed {off : ℕ} {fs : List Frame} (h : EachAt Placed off fs) :
    ∀ f ∈ fs, f.hdr.length ≠ prefaceLength := by
  induction fs generalizing off with
  | nil => simp
  | cons f fs ih =>
    rw [List.forall_mem_cons]
    exact ⟨h.1.2.1,ih h.2⟩

theorem frameStep_idle {conn : H2Conn} {dir : IoDir} {f : Frame} (ts : ℕ)
    (hb : (conn.pipe dir).headerBlock = none) (hH : f.hdr.ty ≠ typeHeaders)
    (hR : f.hdr.ty ≠ typeRstStream) (hG : f.hdr.ty ≠ typeGoaway) :
    (frameStep conn dir f ts).1 = conn ∧ (frameStep conn dir f ts).2.out = [] := by
  have hself := setBlock_self conn dir
  rw [hb] at hself
  rw [frameStep_eq,hb]
  simp only [interpret,hH,hR,hG,if_false]
  split_ifs <;> simp [perform,hself,Emitted.empty,Emitted.missing,Emitted.counted]

theorem readFrames_idle {conn : H2Conn} {dir : IoDir} (ts : ℕ) {off : ℕ} {fs : List Frame}
    (hb : (conn.pipe dir).headerBlock = none) (hp : EachAt Placed off fs)
    (hr : EachAt ShowsReset off fs) (hoff : sockIoPrefixLen ≤ off) :
    (readFrames conn dir ts fs).1 = conn ∧ (readFrames conn dir ts fs).2.out = [] := by
  induction fs generalizing off with
  | nil => exact ⟨rfl,rfl⟩
  | cons f fs ih =>
    have hlen := f.headerLen_le
    simp only [headerLen] at hlen
    have hH : f.hdr.ty ≠ typeHeaders := fun h => by have := (hp.1.1 h).2; omega
    have hR : f.hdr.ty ≠ typeRstStream := fun h => by
      have := hr.1 h
      simp only [headerLen] at this
      omega
    obtain ⟨hconn,hout⟩ := frameStep_idle ts hb hH hR hp.1.2.2
    obtain ⟨hconn',hout'⟩ := ih hp.2 hr.2 (by omega)
    simp only [readFrames,hconn,Emitted.out_append,hout,hconn',hout',List.append_nil,and_self]

/-- What the agent made of the captured octets, against the complete reading. -/
structure Captures (dir : IoDir) (a b : H2Conn) (seen whole : H2Conn × Emitted)
    (boundary : Prop) : Prop where
  streams : seen.1.streams = whole.1.streams
  out : seen.2.out = whole.2.out
  agentFlip : seen.1.pipe dir.flip = a.pipe dir.flip
  wholeFlip : whole.1.pipe dir.flip = b.pipe dir.flip
  pipe : boundary → seen.1.pipe dir = whole.1.pipe dir ∧ Clean seen.1 dir ∧
    (seen.1.pipe dir).headerBlock = none

theorem cutFrame_captured {dir : IoDir} {a b : H2Conn} (ts : ℕ) {off k : ℕ} {f : Frame}
    {fs : List Frame} (h : Alike dir a b) (hclean : Clean a dir)
    (hb : (a.pipe dir).headerBlock = none) (hp : EachAt Placed off (f :: fs))
    (hr : EachAt ShowsReset off (f :: fs)) (hk : sockIoPrefixLen ≤ off + k)
    (hcut : k < f.bytes.length) :
    Captures dir a b (cutFrame a dir f k) (readFrames b dir ts (f :: fs))
      (EndsOnFrame (f :: fs) k) := by
  obtain ⟨hpf,hpfs⟩ := hp
  obtain ⟨hrf,hrfs⟩ := hr
  obtain ⟨hnext,hsame⟩ := h.frameStep f ts
  have hH : f.hdr.ty ≠ typeHeaders := fun hH => by have := (hpf.1 hH).2; omega
  have hb' : (b.pipe dir).headerBlock = none := h.pipe ▸ hb
  have hblock : ((frameStep b dir f ts).1.pipe dir).headerBlock = none := by
    rw [frameStep_headerBlock,hb',interpret_placed hpf]
  obtain ⟨hconn,hout⟩ := readFrames_idle ts hblock hpfs hrfs (by omega)
  have hread : (readFrames b dir ts (f :: fs)).1 = (frameStep b dir f ts).1 ∧
      (readFrames b dir ts (f :: fs)).2.out = (frameStep b dir f ts).2.out := by
    simp only [readFrames,hconn,Emitted.out_append,hout,List.append_nil,and_self]
  by_cases hs : headerLen ≤ k ∧ skipPayload f.hdr
  · rw [cutFrame,if_pos hs,skipFrame_eq hs.2 ts]
    refine ⟨by simp [setBuf,hnext.streams,hread],by rw [hread.2,hsame],
      by simp [setBuf,frameStep_flip],by rw [hread.1,frameStep_flip],?_⟩
    rintro (he | he)
    · simp only [headerLen] at hs
      omega
    · omega
  · have hR : f.hdr.ty ≠ typeRstStream := fun hR => by
      have hshow := hrf hR
      refine hs ⟨by omega,?_⟩
      simp [skipPayload,hR,typeRstStream,typeHeaders,typeContinuation]
    obtain ⟨hquiet,hnone⟩ := frameStep_idle ts hb' hH hR hpf.2.2
    rw [hquiet,hnone] at hread
    rw [cutFrame,if_neg hs]
    refine ⟨by simp [setBuf,h.streams,hread],hread.2.symm,by simp [setBuf],by rw [hread.1],?_⟩
    rintro (he | he)
    · rw [he,List.take_zero,hclean,hread.1]
      exact ⟨h.pipe,hclean,hb⟩
    · omega

/-- What is captured of a call has the effect of the whole call on streams and
exchanges, and on the pipe as well when no frame is cut. -/
theorem deliver_captured {dir : IoDir} {a b : H2Conn} (ts : ℕ) {off k : ℕ} {fs : List Frame}
    (h : Alike dir a b) (hclean : Clean a dir) (hb : (a.pipe dir).headerBlock = none)
    (hp : EachAt Placed off fs) (hr : EachAt ShowsReset off fs) (hk : sockIoPrefixLen ≤ off + k) :
    Captures dir a b (deliver dir a (fun _ => ts) fs k) (readFrames b dir ts fs)
      (EndsOnFrame fs k) := by
  induction fs generalizing a b off k with
  | nil => exact ⟨h.streams,rfl,rfl,rfl,fun _ => ⟨h.pipe,hclean,hb⟩⟩
  | cons f fs ih =>
    by_cases hfull : f.bytes.length ≤ k
    · obtain ⟨hnext,hsame⟩ := h.frameStep f ts
      have hblock : ((frameStep a dir f ts).1.pipe dir).headerBlock = none := by
        rw [frameStep_headerBlock,hb,interpret_placed hp.1]
      have hlive : (frameStep a dir f ts).2.outcome.halted = false :=
        frameStep_live ts hp.1.2.2 (fun _ b hb' => by simp [hb] at hb')
      have hlen := f.headerLen_le
      simp only [headerLen] at hlen
      have hrest := ih hnext (hclean.frameStep f ts) hblock hp.2 hr.2
        (k := k - f.bytes.length) (by omega)
      rw [deliver_whole dir a (fun _ => ts) fs hfull hlive]
      refine ⟨hrest.streams,?_,hrest.agentFlip.trans (frameStep_flip a dir f ts),
        hrest.wholeFlip.trans (frameStep_flip b dir f ts),fun he => hrest.pipe ?_⟩
      · simp only [readFrames,Emitted.out_append,hsame,hrest.out]
      · rcases he with he | ⟨_,he⟩
        · omega
        · exact he
    · rw [deliver_cut _ _ _ _ (Nat.not_le.mp hfull)]
      exact cutFrame_captured ts h hclean hb hp hr hk (Nat.not_le.mp hfull)

theorem event_chunk (c : Call) (sock : SockIoEvent) (bytes : List UInt8) :
    (c.event sock bytes).chunk = bytes.take sockIoPrefixLen := sock.moved_chunk _ _ _

theorem event_plen (c : Call) (sock : SockIoEvent) (bytes : List UInt8) :
    (c.event sock bytes).plen = min sockIoPrefixLen bytes.length := by
  rw [← SockIoEvent.chunk_length,event_chunk,List.length_take]

theorem deliver_min (dir : IoDir) (conn : H2Conn) (τ : ℕ → ℕ) (fs : List Frame) (k : ℕ) :
    deliver dir conn τ fs (min k (Frame.wire fs).length) = deliver dir conn τ fs k := by
  induction fs generalizing conn τ k with
  | nil => rfl
  | cons f fs ih =>
    rw [Frame.wire_cons,List.length_append]
    by_cases hfull : f.bytes.length ≤ k
    · simp only [deliver,if_pos hfull,
        if_pos (show f.bytes.length ≤ min k (f.bytes.length + (Frame.wire fs).length) by omega)]
      rw [show min k (f.bytes.length + (Frame.wire fs).length) - f.bytes.length =
          min (k - f.bytes.length) (Frame.wire fs).length by omega,ih]
    · rw [Nat.min_eq_left (by omega)]

/-- Pushing what is captured of a call that starts at a frame boundary. -/
theorem pushBytes_captured (preface : Bool) {dir : IoDir} {conn : H2Conn} {fs : List Frame}
    (hr : Ready conn dir fs) (ts : ℕ) :
    Agrees (pushBytes conn dir ((octetStream preface fs).take sockIoPrefixLen) ts)
      (deliver dir conn (fun _ => ts) fs
        (sockIoPrefixLen - if preface then clientPreface.length else 0)) := by
  have hlen : (octetStream preface fs).length =
      (if preface then clientPreface.length else 0) + (Frame.wire fs).length := by
    cases preface <;> simp [octetStream]
  have hstart := receive_zero hr.clean (fun _ => ts) preface fs
  obtain ⟨d,hd,he⟩ := pushBytes_receive preface hr (fun _ => ts) 0
    (min sockIoPrefixLen (octetStream preface fs).length) ts (by omega) (fun _ _ _ => rfl)
    (by rw [hstart]; rfl)
  have htake : (octetStream preface fs).take (min sockIoPrefixLen (octetStream preface fs).length) =
      (octetStream preface fs).take sockIoPrefixLen := by
    rw [← List.take_take,List.take_length]
  rw [hstart,Nat.zero_add,Emitted.empty_append] at he
  rw [hstart,List.drop_zero,htake,Nat.zero_add,he] at hd
  have hreceive : receive dir conn (fun _ => ts) preface fs
      (min sockIoPrefixLen (octetStream preface fs).length) = deliver dir conn (fun _ => ts) fs
        (sockIoPrefixLen - if preface then clientPreface.length else 0) := by
    have h24 := clientPreface_length
    have h256 : sockIoPrefixLen = 256 := rfl
    rw [hlen]
    cases preface with
    | false => simp only [receive,Bool.false_eq_true,if_false,Nat.zero_add,Nat.sub_zero,deliver_min]
    | true =>
      simp only [if_true]
      rw [receive_whole (by omega),
        show min sockIoPrefixLen (clientPreface.length + (Frame.wire fs).length) -
          clientPreface.length = min (sockIoPrefixLen - clientPreface.length)
            (Frame.wire fs).length by omega,deliver_min]
  rw [hreceive] at hd
  exact hd

/-- Nothing is open in this direction, and the agent's pipe is that of the complete
reading. -/
structure Live (a b : H2Conn) (dir : IoDir) : Prop where
  pipe : a.pipe dir = b.pipe dir
  leftover : (a.pipe dir).leftover = []
  skip : (a.pipe dir).skip = 0
  headerBlock : (a.pipe dir).headerBlock = none

/-- The agent's connection against the complete reading, before the calls to come. -/
structure InStep (a b : H2Conn) (later : List Call) : Prop where
  streams : a.streams = b.streams
  live : ∀ c ∈ later, c.frames ≠ [] → Live a b c.dir

theorem pipe_atTime (conn : H2Conn) (now : Instant) (dir : IoDir) :
    ({conn with atTime := now} : H2Conn).pipe dir = conn.pipe dir := by
  cases dir <;> rfl

/-- One captured call keeps the two in step. -/
theorem InStep.call {a b : H2Conn} {c : Call} {later : List Call} {off : ℕ}
    (h : InStep a b later) (hl : Live a b c.dir) (hp : EachAt Placed off c.frames)
    (hcut : SafelyCut off c later) (now : Instant) :
    let d := deliver c.dir {a with atTime := now} (fun _ => c.tsNs) c.frames (sockIoPrefixLen - off)
    d.2.out = (readFrames b c.dir c.tsNs c.frames).2.out ∧
      InStep d.1 (readFrames b c.dir c.tsNs c.frames).1 later := by
  have hsame := pipe_atTime a now
  obtain ⟨hst,hout,hfa,hfb,hend⟩ := deliver_captured c.tsNs
    (⟨(hsame _).trans hl.pipe,h.streams⟩ : Alike c.dir {a with atTime := now} b)
    (clean_iff.mpr (by rw [hsame]; exact ⟨hl.leftover,hl.skip⟩))
    (by rw [hsame]; exact hl.headerBlock) hp hcut.1 (k := sockIoPrefixLen - off) (by omega)
  refine ⟨hout,hst,fun d hd hne => ?_⟩
  by_cases hdir : d.dir = c.dir
  · have hboundary : EndsOnFrame c.frames (sockIoPrefixLen - off) :=
      hcut.2.resolve_right fun hall => hne (hall d hd hdir)
    obtain ⟨hp',hc',hb'⟩ := hend hboundary
    rw [hdir]
    exact ⟨hp',hc'.leftover,hc'.skip,hb'⟩
  · have hflip : d.dir = c.dir.flip := by
      cases hd' : d.dir <;> cases hc' : c.dir <;> simp_all [IoDir.flip]
    obtain ⟨h1,h2,h3,h4⟩ := h.live d hd hne
    rw [hflip] at h1 h2 h3 h4 ⊢
    exact ⟨by rw [hfa,hfb,hsame,h1],by rw [hfa,hsame,h2],by rw [hfa,hsame,h3],by rw [hfa,hsame,h4]⟩

theorem pushBytes_call (preface : Bool) {a b : H2Conn} {c : Call} (hl : Live a b c.dir)
    (hp : EachAt Placed (if preface then clientPreface.length else 0) c.frames) (now : Instant) :
    pushBytes {a with atTime := now} c.dir ((octetStream preface c.frames).take sockIoPrefixLen)
        c.tsNs =
      deliver c.dir {a with atTime := now} (fun _ => c.tsNs) c.frames
        (sockIoPrefixLen - if preface then clientPreface.length else 0) ∧
    (deliver c.dir {a with atTime := now} (fun _ => c.tsNs) c.frames
      (sockIoPrefixLen - if preface then clientPreface.length else 0)).2.outcome.halted = false := by
  have hr : Ready {a with atTime := now} c.dir c.frames :=
    ⟨clean_iff.mpr (by rw [pipe_atTime]; exact ⟨hl.leftover,hl.skip⟩),noPreface_placed hp⟩
  have ho : Orderly (({a with atTime := now} : H2Conn).pipe c.dir).headerBlock c.frames := by
    rw [pipe_atTime,hl.headerBlock]
    exact orderly_placed hp
  have hlive := deliver_live ho (fun _ => c.tsNs)
    (sockIoPrefixLen - if preface then clientPreface.length else 0)
  exact ⟨(pushBytes_captured preface hr c.tsNs).eq hlive,hlive⟩

theorem wire_pos {fs : List Frame} (h : fs ≠ []) : 0 < (Frame.wire fs).length := by
  cases fs with
  | nil => exact absurd rfl h
  | cons f fs =>
    have hlen := f.headerLen_le
    simp only [headerLen] at hlen
    rw [Frame.wire_cons,List.length_append]
    omega

theorem summary_named (xs : List H2Exchange) (tgid : UInt32) (fd : Int32) (cgroup : ℕ) :
    (xs.map fun x => {x with tgid := tgid, fd := fd, cgroupId := cgroup}).map H2Exchange.summary =
      xs.map H2Exchange.summary := by
  simp [H2Exchange.summary,Function.comp_def]

theorem feed_call (sock : SockIoEvent) {c : Call} {later : List Call} {r : H2Registry}
    {a b : H2Conn} (hconn : r.conns.get ⟨sock.tgid,sock.fd⟩ = some a)
    (h : InStep a b later) (hl : Live a b c.dir) (hne : c.frames ≠ [])
    (hp : EachAt Placed 0 c.frames) (hcut : SafelyCut 0 c later) :
    let q := r.feed (c.event sock (Frame.wire c.frames)) c.now false
    q.2.out.map H2Exchange.summary =
        (readFrames b c.dir c.tsNs c.frames).2.out.map H2Exchange.summary ∧
      ∃ a', q.1.conns.get ⟨sock.tgid,sock.fd⟩ = some a' ∧
        InStep a' (readFrames b c.dir c.tsNs c.frames).1 later := by
  obtain ⟨hpush,hlive⟩ := pushBytes_call false hl (by simpa using hp) c.now
  obtain ⟨hout,hstep⟩ := h.call hl hp hcut c.now
  simp only [Bool.false_eq_true,if_false,Nat.sub_zero,octetStream,List.nil_append] at hpush hlive
  rw [Nat.sub_zero] at hout hstep
  have hpos := wire_pos hne
  have hnew : startsWith (c.event sock (Frame.wire c.frames)).chunk clientPreface = false := by
    rw [event_chunk,Bool.eq_false_iff]
    intro hpre
    have hpri := wire_not_pri (noPreface_placed hp) sockIoPrefixLen
    rw [startsWith_pri hpre] at hpri
    simp at hpri
  have hplen : (c.event sock (Frame.wire c.frames)).plen ≠ 0 := by
    rw [event_plen]
    simp only [sockIoPrefixLen]
    omega
  have hfeed := H2Registry.feed_known (IoDir.fromU8_toU8 c.dir :
    IoDir.fromU8 (c.event sock (Frame.wire c.frames)).dir = some c.dir) (Int.natCast_nonneg _)
    hplen hnew hconn c.now false
  rw [← event_chunk c sock] at hpush
  obtain ⟨hconns,hsent⟩ := H2Registry.feedConn_live r ⟨sock.tgid,sock.fd⟩ hpush hlive
  refine ⟨?_,_,?_,hstep⟩
  · rw [hfeed]
    exact (congrArg _ hsent).trans ((summary_named _ _ _ _).trans (congrArg _ hout))
  · rw [hfeed]
    exact (congrArg (FiniteMap.get · _) hconns).trans (FiniteMap.get_put_self _ _ _)

theorem exchanges_later (sock : SockIoEvent) {calls : List Call} {r : H2Registry} {a b : H2Conn}
    (hconn : r.conns.get ⟨sock.tgid,sock.fd⟩ = some a) (h : InStep a b calls)
    (hp : ∀ c ∈ calls, EachAt Placed 0 c.frames) (hcut : AllSafelyCut calls) :
    (r.exchanges (calls.map fun c => .feed (c.event sock (Frame.wire c.frames)) c.now false)).map
        H2Exchange.summary = (readCalls b calls).2.out.map H2Exchange.summary := by
  induction calls generalizing r a b with
  | nil => rfl
  | cons c calls ih =>
    obtain ⟨hpc,hps⟩ := List.forall_mem_cons.mp hp
    have hlater : InStep a b calls :=
      ⟨h.streams,fun d hd => h.live d (List.mem_cons_of_mem c hd)⟩
    rw [List.map_cons,H2Registry.exchanges_cons,List.map_append]
    simp only [readCalls,Emitted.out_append,List.map_append,H2Registry.step]
    by_cases hne : c.frames = []
    · have hquiet : r.feed (c.event sock (Frame.wire c.frames)) c.now false = (r,.nothing) := by
        have hzero : (c.event sock (Frame.wire c.frames)).plen = 0 := by
          rw [event_plen,hne]
          rfl
        have hdir : (c.event sock (Frame.wire c.frames)).dir = c.dir.toU8 := rfl
        simp [H2Registry.feed,hdir,hzero]
      have hread : readFrames b c.dir c.tsNs c.frames = (b,.empty) := by rw [hne]; rfl
      rw [hquiet,hread]
      simpa [Reply.nothing,Emitted.empty] using ih hconn hlater hps hcut.2
    · obtain ⟨hout,a',ha',hstep⟩ := feed_call sock hconn hlater
        (h.live c (List.mem_cons_self ..) hne) hne hpc hcut.1
      rw [hout,ih ha' hstep hps hcut.2]

/-- Calls that are cut on frame boundaries, or last in their direction, and that show the
header of every reset, lose nothing. -/
theorem exchanges_complete_when_safely_cut (sock : SockIoEvent) (first : Call) (rest : List Call)
    (hp : WellPlaced first rest) (hfirst : SafelyCut clientPreface.length first rest)
    (hrest : AllSafelyCut rest) : ReadsAll sock first rest := by
  have hnew : ∀ dir, Live (H2Conn.new first.now) (H2Conn.new first.now) dir := fun dir => by
    cases dir <;> exact ⟨rfl,rfl,rfl,rfl⟩
  have hstart : InStep (H2Conn.new first.now) (H2Conn.new first.now) rest :=
    ⟨rfl,fun c _ _ => hnew c.dir⟩
  obtain ⟨hpush,hlive⟩ := pushBytes_call true (hnew first.dir) (by simpa using hp.1) first.now
  obtain ⟨hout,hstep⟩ := hstart.call (hnew first.dir) hp.1 hfirst first.now
  simp only [if_true,octetStream] at hpush hlive
  rw [← event_chunk first sock] at hpush
  have h24 := clientPreface_length
  have hplen : (first.event sock (clientPreface ++ Frame.wire first.frames)).plen ≠ 0 := by
    rw [event_plen,List.length_append]
    simp only [sockIoPrefixLen]
    omega
  have hpre : startsWith (first.event sock (clientPreface ++ Frame.wire first.frames)).chunk
      clientPreface = true := by
    rw [event_chunk]
    exact startsWith_take (startsWith_self _ _) (by simp only [sockIoPrefixLen]; omega)
  have hfeed := H2Registry.feed_preface (r := H2Registry.default) (IoDir.fromU8_toU8 first.dir :
    IoDir.fromU8 (first.event sock (clientPreface ++ Frame.wire first.frames)).dir = some first.dir)
    (Int.natCast_nonneg _) hplen hpre (show (0 : ℕ) < maxConns by decide) first.now false
  obtain ⟨hconns,hsent⟩ := H2Registry.feedConn_live
    {H2Registry.default with
      conns := (H2Registry.default.conns.remove ⟨sock.tgid,sock.fd⟩).put ⟨sock.tgid,sock.fd⟩
        (.new first.now)}
    ⟨sock.tgid,sock.fd⟩ hpush hlive
  have hget : (H2Registry.default.feed
      (first.event sock (clientPreface ++ Frame.wire first.frames)) first.now false).1.conns.get
        ⟨sock.tgid,sock.fd⟩ =
          some (deliver first.dir (.new first.now) (fun _ => first.tsNs) first.frames
            (sockIoPrefixLen - clientPreface.length)).1 := by
    rw [hfeed]
    exact (congrArg (FiniteMap.get · _) hconns).trans (FiniteMap.get_put_self _ _ _)
  rw [ReadsAll,connection,H2Registry.exchanges_cons,List.map_append]
  simp only [readCalls,Emitted.out_append,List.map_append,H2Registry.step]
  rw [exchanges_later sock hget hstep hp.2 hrest,hfeed]
  refine congrArg (· ++ _) ?_
  exact (congrArg _ hsent).trans ((summary_named _ _ _ _).trans (congrArg _ hout))

instance (sock : SockIoEvent) (first : Call) (rest : List Call) :
    Decidable (ReadsAll sock first rest) := inferInstanceAs (Decidable (_ = _))

def requestA : Frame :=
  ⟨[0,0,5,1,4,0,0,0,1,0x83,0x04,2,0x2f,0x61],⟨5,1,4,1⟩,by decide +kernel,by decide⟩

def requestB : Frame :=
  ⟨[0,0,5,1,4,0,0,0,3,0x83,0x04,2,0x2f,0x62],⟨5,1,4,3⟩,by decide +kernel,by decide⟩

def longData : Frame :=
  ⟨[0,1,44,0,0,0,0,0,1] ++ List.replicate 300 0,⟨300,0,0,1⟩,by decide +kernel,by decide +kernel⟩

def statusB : Frame := ⟨[0,0,1,1,4,0,0,0,3,0x88],⟨1,1,4,3⟩,by decide +kernel,by decide⟩

theorem exchanges_complete_cut_last :
    ReadsAll someSocket ⟨.write,[requestA,requestB],1,0⟩
      [⟨.write,[longData],2,0⟩,⟨.read,[statusB],3,0⟩] :=
  exchanges_complete_when_safely_cut someSocket _ _ ⟨by decide +kernel,by decide +kernel⟩
    ⟨by decide +kernel,Or.inl (by
      rw [clientPreface_length]
      exact ⟨by decide,Or.inr ⟨by decide,trivial⟩⟩ |> Or.inr)⟩
    ⟨⟨by decide +kernel,Or.inr (by simp)⟩,⟨by decide +kernel,Or.inr (by simp)⟩,trivial⟩

/-- The unseen rest of a DATA frame is taken off the next request. -/
theorem cut_data_swallows_next_request :
    WellPlaced ⟨.write,[requestA],1,0⟩
        [⟨.write,[longData],2,0⟩,⟨.write,[requestB],3,0⟩,⟨.read,[statusB],4,0⟩] ∧
      ¬ ReadsAll someSocket ⟨.write,[requestA],1,0⟩
        [⟨.write,[longData],2,0⟩,⟨.write,[requestB],3,0⟩,⟨.read,[statusB],4,0⟩] :=
  ⟨⟨by decide +kernel,by decide +kernel⟩,by decide +kernel⟩

end H2
end ObsAgent
