import ObsAgent.Frame
import ObsAgent.FiniteMap
import ObsAgent.Hpack

/-! One HTTP/2 connection: per direction an octet buffer, a count of payload octets
still to discard, a header decoder and an open header block; across both directions
the requests that wait for a status.  A call returns what it adds to the caller's
exchanges and counters, together with the header blocks and resets it acted on. -/
namespace ObsAgent
namespace H2

open Hpack (Decoder Pseudo)

def leftoverCap : ℕ := 8*1024
def maxStreams : ℕ := 2048

inductive Protocol
  | h2 | grpc
  deriving DecidableEq, Repr

structure H2Exchange where
  tgid : UInt32
  fd : Int32
  streamId : ℕ
  method : String
  path : String
  status : ℕ
  tStartNs : ℕ
  tEndNs : ℕ
  protocol : Protocol
  reqDir : IoDir
  cgroupId : ℕ
  deriving DecidableEq

structure PendingStream where
  method : String
  path : String
  tStartNs : ℕ
  reqDir : IoDir
  deriving DecidableEq

structure DirPipe where
  leftover : List UInt8
  skip : ℕ
  decoder : Decoder
  headerBlock : Option (ℕ × List UInt8)
  deriving DecidableEq

def DirPipe.new : DirPipe := ⟨[],0,Decoder.default,none⟩

abbrev Streams := FiniteMap ℕ PendingStream

structure H2Conn where
  read : DirPipe
  write : DirPipe
  streams : Streams
  atTime : Instant

namespace H2Conn

def new (now : Instant) : H2Conn := ⟨DirPipe.new,DirPipe.new,∅,now⟩

def pipe (conn : H2Conn) : IoDir → DirPipe
  | .read => conn.read
  | .write => conn.write

def setPipe (conn : H2Conn) (dir : IoDir) (p : DirPipe) : H2Conn :=
  match dir with
  | .read => {conn with read := p}
  | .write => {conn with write := p}

@[simp] theorem pipe_new (now : Instant) (dir : IoDir) : (new now).pipe dir = DirPipe.new := by
  cases dir <;> rfl

@[simp] theorem pipe_setPipe (conn : H2Conn) (dir : IoDir) (p : DirPipe) :
    (conn.setPipe dir p).pipe dir = p := by
  cases dir <;> rfl

@[simp] theorem pipe_setPipe_flip (conn : H2Conn) (dir : IoDir) (p : DirPipe) :
    (conn.setPipe dir p).pipe dir.flip = conn.pipe dir.flip := by
  cases dir <;> rfl

@[simp] theorem setPipe_setPipe (conn : H2Conn) (dir : IoDir) (p q : DirPipe) :
    (conn.setPipe dir p).setPipe dir q = conn.setPipe dir q := by
  cases dir <;> rfl

@[simp] theorem setPipe_pipe (conn : H2Conn) (dir : IoDir) :
    conn.setPipe dir (conn.pipe dir) = conn := by
  cases dir <;> rfl

@[simp] theorem streams_setPipe (conn : H2Conn) (dir : IoDir) (p : DirPipe) :
    (conn.setPipe dir p).streams = conn.streams := by
  cases dir <;> rfl

end H2Conn

structure FrameOutcome where
  goaway : Bool
  desync : Bool
  missingPath : ℕ
  droppedStreams : ℕ
  headersReq : ℕ
  headersResp : ℕ
  unpairedStatus : ℕ
  deriving DecidableEq

def emptyOutcome : FrameOutcome := ⟨false,false,0,0,0,0,0⟩

def mergeOutcome (dst src : FrameOutcome) : FrameOutcome where
  goaway := dst.goaway || src.goaway
  desync := dst.desync || src.desync
  missingPath := dst.missingPath + src.missingPath
  droppedStreams := dst.droppedStreams + src.droppedStreams
  headersReq := dst.headersReq + src.headersReq
  headersResp := dst.headersResp + src.headersResp
  unpairedStatus := dst.unpairedStatus + src.unpairedStatus

def FrameOutcome.halted (o : FrameOutcome) : Bool := o.goaway || o.desync

/-- What happens to a stream: a decoded header block, possibly a request turned away
at the stream limit, or a reset. -/
inductive StreamEvent
  | block (streamId : ℕ) (dir : IoDir) (decoded : Pseudo) (tsNs : ℕ) (refused : Bool)
  | reset (streamId : ℕ)
  deriving DecidableEq

/-- What a call adds: exchanges, counters, and the stream events behind them.  The
events are an observation; the code keeps no such list. -/
structure Emitted where
  out : List H2Exchange
  outcome : FrameOutcome
  events : List StreamEvent
  deriving DecidableEq

namespace Emitted

def empty : Emitted := ⟨[],emptyOutcome,[]⟩

def append (a b : Emitted) : Emitted :=
  ⟨a.out ++ b.out,mergeOutcome a.outcome b.outcome,a.events ++ b.events⟩

instance : Append Emitted := ⟨append⟩

def counted (o : FrameOutcome) : Emitted := ⟨[],o,[]⟩

def missing : Emitted := counted {emptyOutcome with missingPath := 1}

@[simp] theorem halted_empty : empty.outcome.halted = false := rfl

theorem append_def (a b : Emitted) :
    a ++ b = ⟨a.out ++ b.out,mergeOutcome a.outcome b.outcome,a.events ++ b.events⟩ := rfl

@[simp] theorem out_append (a b : Emitted) : (a ++ b).out = a.out ++ b.out := rfl

@[simp] theorem outcome_append (a b : Emitted) :
    (a ++ b).outcome = mergeOutcome a.outcome b.outcome := rfl

@[simp] theorem events_append (a b : Emitted) : (a ++ b).events = a.events ++ b.events := rfl

@[simp] theorem empty_append (a : Emitted) : empty ++ a = a := by
  simp [append_def,empty,mergeOutcome,emptyOutcome]

@[simp] theorem append_empty (a : Emitted) : a ++ empty = a := by
  simp [append_def,empty,mergeOutcome,emptyOutcome]

theorem append_assoc (a b c : Emitted) : a ++ b ++ c = a ++ (b ++ c) := by
  simp [append_def,mergeOutcome,Bool.or_assoc,Nat.add_assoc]

end Emitted

@[simp] theorem halted_mergeOutcome (a b : FrameOutcome) :
    (mergeOutcome a b).halted = (a.halted || b.halted) := by
  simp only [FrameOutcome.halted,mergeOutcome]
  cases a.goaway <;> cases a.desync <;> cases b.goaway <;> rfl

def classifyProtocol (path : String) : Protocol :=
  let rest := match path.toList with
    | '/' :: cs => cs
    | cs => cs
  if '.' ∈ rest ∧ '/' ∈ rest then .grpc else .h2

/-- The part of `on_header_block` behind the decoder. -/
def pairBlock (streams : Streams) (dir : IoDir) (streamId : ℕ) (decoded : Pseudo) (tsNs : ℕ) :
    Streams × Emitted :=
  let seen := fun refused => [StreamEvent.block streamId dir decoded tsNs refused]
  match decoded.status with
  | some status =>
    match streams.get streamId with
    | none =>
      (streams.remove streamId,
        ⟨[],{emptyOutcome with headersResp := 1, unpairedStatus := 1},seen false⟩)
    | some pending =>
      if pending.path = "" then
        (streams.remove streamId,
          ⟨[],{emptyOutcome with headersResp := 1, missingPath := 1},seen false⟩)
      else
        (streams.remove streamId,
          ⟨[{ tgid := 0
              fd := 0
              streamId := streamId
              method := pending.method
              path := pending.path
              status := status
              tStartNs := pending.tStartNs
              tEndNs := tsNs
              protocol := classifyProtocol pending.path
              reqDir := pending.reqDir
              cgroupId := 0 }],{emptyOutcome with headersResp := 1},seen false⟩)
  | none =>
    match decoded.method with
    | none => (streams,⟨[],emptyOutcome,seen false⟩)
    | some method =>
      match decoded.path.filter (fun p => decide (p ≠ "")) with
      | none => (streams,⟨[],{emptyOutcome with missingPath := 1},seen false⟩)
      | some path =>
        if streams.len ≥ maxStreams ∧ ¬ streams.contains streamId then
          (streams,⟨[],{emptyOutcome with droppedStreams := 1},seen true⟩)
        else
          (streams.put streamId ⟨method,path,tsNs,dir⟩,
            ⟨[],{emptyOutcome with headersReq := 1},seen false⟩)

def onHeaderBlock (conn : H2Conn) (dir : IoDir) (streamId : ℕ) (frag : List UInt8) (tsNs : ℕ) :
    H2Conn × Emitted :=
  if streamId = 0 then (conn,.empty)
  else
    let pipe := conn.pipe dir
    match pipe.decoder.decodeBlock frag with
    | (decoder,none) => (conn.setPipe dir {pipe with decoder := decoder},.missing)
    | (decoder,some decoded) =>
      let q := pairBlock conn.streams dir streamId decoded tsNs
      ({conn.setPipe dir {pipe with decoder := decoder} with streams := q.1},q.2)

def takeSkip (pipe : DirPipe) (src : List UInt8) : DirPipe × List UInt8 :=
  if pipe.skip = 0 ∨ src = [] then (pipe,src)
  else
    let n := min src.length pipe.skip
    ({pipe with skip := pipe.skip - n},src.drop n)

/-- DATA and control payloads are not stored, nor header frames above the cap. -/
def skipPayload (hdr : FrameHeader) : Bool :=
  if hdr.ty = typeHeaders ∨ hdr.ty = typeContinuation then hdr.totalLen > leftoverCap else true

def applyControl (conn : H2Conn) (dir : IoDir) (hdr : FrameHeader) : H2Conn × Emitted :=
  if hdr.ty = typeRstStream then
    ({conn with streams := conn.streams.remove hdr.streamId},
      ⟨[],emptyOutcome,[.reset hdr.streamId]⟩)
  else if hdr.ty = typeGoaway then (conn,.counted {emptyOutcome with goaway := true})
  else if hdr.ty = typeHeaders ∨ hdr.ty = typeContinuation then
    (conn.setPipe dir {conn.pipe dir with headerBlock := none},.empty)
  else (conn,.empty)

/-- The CONTINUATION arm of `apply_headers_or_control`. -/
def applyContinuation (conn : H2Conn) (dir : IoDir) (hdr : FrameHeader) (payload : List UInt8)
    (tsNs : ℕ) : H2Conn × Emitted :=
  match (conn.pipe dir).headerBlock with
  | none => (conn,.empty)
  | some (sid,acc) =>
    let taken := conn.setPipe dir {conn.pipe dir with headerBlock := none}
    if sid ≠ hdr.streamId then (taken,.counted {emptyOutcome with desync := true})
    else if acc.length + payload.length > leftoverCap then (taken,.missing)
    else if hdr.flags &&& flagEndHeaders ≠ 0 then
      onHeaderBlock taken dir sid (acc ++ payload) tsNs
    else
      (taken.setPipe dir {taken.pipe dir with headerBlock := some (sid,acc ++ payload)},.empty)

def applyHeadersOrControl (conn : H2Conn) (dir : IoDir) (hdr : FrameHeader)
    (payload : List UInt8) (tsNs : ℕ) : H2Conn × Emitted :=
  if hdr.ty = typeHeaders then
    match headersFragment hdr.flags payload with
    | none => (conn,.empty)
    | some frag =>
      if hdr.flags &&& flagEndHeaders ≠ 0 then onHeaderBlock conn dir hdr.streamId frag tsNs
      else
        (conn.setPipe dir {conn.pipe dir with headerBlock := some (hdr.streamId,frag)},.empty)
  else if hdr.ty = typeContinuation then applyContinuation conn dir hdr payload tsNs
  else if hdr.ty = typeRstStream then
    ({conn with streams := conn.streams.remove hdr.streamId},
      ⟨[],emptyOutcome,[.reset hdr.streamId]⟩)
  else if hdr.ty = typeGoaway then (conn,.counted {emptyOutcome with goaway := true})
  else (conn,.empty)

/-- A skipped frame: count a lost header block, then the effect of the header alone. -/
def skipFrame (conn : H2Conn) (dir : IoDir) (hdr : FrameHeader) : H2Conn × Emitted :=
  let lost := if hdr.ty = typeHeaders ∨ hdr.ty = typeContinuation then Emitted.missing else .empty
  let q := applyControl conn dir hdr
  (q.1,lost ++ q.2)

/-- The loop of `drain_frames` over the buffer it took from the pipe; the second
component is what it puts back. -/
def drainLoop (conn : H2Conn) (dir : IoDir) (tsNs : ℕ) (buf : List UInt8) (acc : Emitted) :
    H2Conn × List UInt8 × Emitted :=
  if buf.length < headerLen then (conn,buf,acc)
  else
    match FrameHeader.parse buf with
    | none => (conn,[],acc ++ .counted {emptyOutcome with desync := true})
    | some hdr =>
      let total := hdr.totalLen
      if skipPayload hdr then
        if total ≤ buf.length then
          let q := skipFrame conn dir hdr
          if (acc ++ q.2).outcome.halted then (q.1,buf.drop total,acc ++ q.2)
          else drainLoop q.1 dir tsNs (buf.drop total) (acc ++ q.2)
        else
          let skipping := conn.setPipe dir {conn.pipe dir with skip := total - buf.length}
          let q := skipFrame skipping dir hdr
          if (acc ++ q.2).outcome.halted then (q.1,[],acc ++ q.2)
          else drainLoop q.1 dir tsNs [] (acc ++ q.2)
      else if buf.length < total then (conn,buf,acc)
      else
        let payload := (buf.take total).drop headerLen
        let q := applyHeadersOrControl conn dir hdr payload tsNs
        if (acc ++ q.2).outcome.halted then (q.1,buf.drop total,acc ++ q.2)
        else drainLoop q.1 dir tsNs (buf.drop total) (acc ++ q.2)
termination_by buf.length
decreasing_by
  all_goals
    have htot := hdr.headerLen_le_totalLen
    simp only [headerLen] at *
    simp only [List.length_drop,List.length_nil]
    omega

def waitingPreface (buf : List UInt8) : Bool :=
  startsWith buf (octets "PRI") && buf.length < clientPreface.length && startsWith clientPreface buf

def stripPreface (buf : List UInt8) : List UInt8 :=
  if startsWith buf clientPreface then buf.drop clientPreface.length else buf

def setLeftover (conn : H2Conn) (dir : IoDir) (buf : List UInt8) : H2Conn :=
  conn.setPipe dir {conn.pipe dir with leftover := buf}

def drainFrames (conn : H2Conn) (dir : IoDir) (tsNs : ℕ) : H2Conn × Emitted :=
  let buf := (conn.pipe dir).leftover
  if waitingPreface buf then (conn,.empty)
  else
    let r := drainLoop (setLeftover conn dir []) dir tsNs (stripPreface buf) .empty
    (setLeftover r.1 dir r.2.1,r.2.2)

theorem takeSkip_length (pipe : DirPipe) (src : List UInt8) :
    (takeSkip pipe src).2.length ≤ src.length := by
  simp only [takeSkip]
  split_ifs <;> simp

theorem takeSkip_cases (pipe : DirPipe) (src : List UInt8) :
    (takeSkip pipe src).2 = [] ∨ takeSkip pipe src = (pipe,src) ∧ pipe.skip = 0 ∨
      takeSkip pipe src = ({pipe with skip := 0},src.drop pipe.skip) ∧ 0 < pipe.skip ∧
        pipe.skip < src.length := by
  simp only [takeSkip]
  split_ifs with h
  · rcases h with h | h
    · exact Or.inr (Or.inl ⟨rfl,h⟩)
    · exact Or.inl h
  · by_cases hle : src.length ≤ pipe.skip
    · exact Or.inl (by simp [hle])
    · right; right
      have hmin : min src.length pipe.skip = pipe.skip := by omega
      simp only [hmin,Nat.sub_self,true_and]
      omega

def full (pipe : DirPipe) : Bool := pipe.skip = 0 && leftoverCap ≤ pipe.leftover.length

def resetPipe (pipe : DirPipe) : DirPipe :=
  {pipe with leftover := [], headerBlock := none, decoder := pipe.decoder.reset}

/-- The loop of `push_bytes`: at most one buffer of octets at a time. -/
def pushLoop (conn : H2Conn) (dir : IoDir) (src : List UInt8) (tsNs : ℕ) (acc : Emitted) :
    H2Conn × Emitted :=
  let taken := takeSkip (conn.pipe dir) src
  let conn' := conn.setPipe dir taken.1
  if taken.2 = [] then
    let q := drainFrames conn' dir tsNs
    (q.1,acc ++ q.2)
  else
    let room := leftoverCap - (conn'.pipe dir).leftover.length
    if room = 0 then
      let q := drainFrames conn' dir tsNs
      if full (q.1.pipe dir) then
        (q.1.setPipe dir (resetPipe (q.1.pipe dir)),
          acc ++ q.2 ++ .counted {emptyOutcome with desync := true})
      else pushLoop q.1 dir taken.2 tsNs (acc ++ q.2)
    else
      let n := min taken.2.length room
      let filled := setLeftover conn' dir ((conn'.pipe dir).leftover ++ taken.2.take n)
      let q := drainFrames filled dir tsNs
      if (acc ++ q.2).outcome.halted then (q.1,acc ++ q.2)
      else pushLoop q.1 dir (taken.2.drop n) tsNs (acc ++ q.2)
termination_by 2*src.length + (full (conn.pipe dir)).toNat
decreasing_by
  · rename_i hne hroom hfull
    have hflag : full (q.1.pipe dir) = false := by simpa using hfull
    rw [hflag]
    simp only [Bool.toNat_false]
    rcases takeSkip_cases (conn.pipe dir) src with h | ⟨h,hskip⟩ | ⟨h,hpos,hlt⟩
    · exact absurd h hne
    · have hcap : leftoverCap ≤ (conn.pipe dir).leftover.length := by
        simp only [room,conn',taken,h,H2Conn.pipe_setPipe] at hroom
        omega
      simp [h,full,hskip,hcap]
    · simp only [h,List.length_drop]
      omega
  · rename_i hne hroom _
    refine lt_of_le_of_lt (Nat.add_le_add_left (Bool.toNat_le _) _) ?_
    have hle := takeSkip_length (conn.pipe dir) src
    have hpos : 0 < (takeSkip (conn.pipe dir) src).2.length := List.length_pos_iff.mpr hne
    simp only [room,conn',taken] at hroom
    simp only [List.length_drop]
    omega

def pushBytes (conn : H2Conn) (dir : IoDir) (src : List UInt8) (tsNs : ℕ) : H2Conn × Emitted :=
  pushLoop conn dir src tsNs .empty

end H2
end ObsAgent
