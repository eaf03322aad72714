import ObsAgent.Agent

/-! The `INFLIGHT` handshake of one socket. The kernel sets the entry when a header begins
and emits what follows while it is there; userspace clears it when it has drained a header. -/
namespace ObsAgent

open Kernel Http1 H2

/-- An I/O call at its exit: the octets it moved and where the first of them are. -/
structure IoCall where
  caller : Caller
  dir : IoDir
  bufPtr : UInt64
  bufLen : ℕ
  bytes : List UInt8

namespace IoCall

def pending (c : IoCall) (fd : Int32) : PendingIo := ⟨c.bufPtr,c.bufLen,fd,c.dir.toU8⟩

/-- The octets the kernel can see. -/
def shown (c : IoCall) : List UInt8 := c.bytes.take (ioCopyLen c.bytes.length c.bufLen)

/-- A call of a captured process whose buffer can be read. -/
structure Moves (c : IoCall) (tgid : UInt32) : Prop where
  tgid : c.caller.tgid = tgid
  captured : c.caller.filter.tgidCaptured c.caller.tgid = true
  ringFree : c.caller.ringFree = true
  readable : c.caller.mem.readable c.bufPtr sockIoPrefixLen = true
  holds : c.caller.mem.bytes c.bufPtr (ioCopyLen c.bytes.length c.bufLen) = c.shown
  nonempty : ioCopyLen c.bytes.length c.bufLen ≠ 0

end IoCall

structure Sys where
  sockMeta : SockMetaMap
  drops : ℕ
  ring : List SockIoEvent
  agent : Agent

inductive SysStep
  | call (c : IoCall)
  | drain (now : Instant) (allowed : Bool)

namespace Sys

/-- The exit of a call, and whether it was emitted. -/
def call (s : Sys) (fd : Int32) (c : IoCall) : Sys × Bool :=
  let q := emitIoKind ⟨s.sockMeta,s.agent.inflight,s.drops⟩ c.caller .sockIo (c.pending fd)
    c.bytes.length
  ({ sockMeta := q.1.sockMeta
     drops := q.1.drops
     ring := s.ring ++ q.2.toList
     agent := {s.agent with inflight := q.1.inflight} },q.2.isSome)

def drain (s : Sys) (now : Instant) (allowed : Bool) : Sys :=
  match s.ring with
  | [] => s
  | ev :: ring =>
    {s with ring := ring, agent := (s.agent.ingestHttpIo ev false false now allowed).1}

end Sys

abbrev OpenHeaders := IoDir → Option (List UInt8)

def startsHeader (bytes : List UInt8) : Bool := httpMagic bytes bytes.length

/-- The open header behind a call of this direction. -/
def advanceHeader : Option (List UInt8) → List UInt8 → Option (List UInt8)
  | none, bytes => if startsHeader bytes && !headersDone bytes then some bytes else none
  | some header, bytes => if headersDone (header ++ bytes) then none else some (header ++ bytes)

/-- The call has octets of a header that was not complete before it. -/
def carriesHeader (header : Option (List UInt8)) (bytes : List UInt8) : Bool :=
  header.isSome || startsHeader bytes

def OpenHeaders.any (o : OpenHeaders) : Prop := (o .read).isSome = true ∨ (o .write).isSome = true

def OpenHeaders.after (o : OpenHeaders) (c : IoCall) : OpenHeaders :=
  Function.update o c.dir (advanceHeader (o c.dir) c.bytes)

/-- For every call: whether it has octets of an open header, and whether it was emitted. -/
def callTrace (fd : Int32) (s : Sys) (o : OpenHeaders) : List SysStep → List (Bool × Bool)
  | [] => []
  | .call c :: steps =>
    (carriesHeader (o c.dir) c.bytes,(s.call fd c).2) ::
      callTrace fd (s.call fd c).1 (o.after c) steps
  | .drain now allowed :: steps => callTrace fd (s.drain now allowed) o steps

/-- All calls are on the socket, and one that begins a header shows the token. -/
def OnSocket (tgid : UInt32) (o : OpenHeaders) : List SysStep → Prop
  | [] => True
  | .call c :: steps =>
    c.Moves tgid ∧ (o c.dir = none → startsHeader c.bytes = true → startsHeader c.shown = true) ∧
      OnSocket tgid (o.after c) steps
  | .drain _ _ :: steps => OnSocket tgid o steps

/-- The record completes no header, reports no buffer that timed out, and takes neither the
HTTP/2 path nor that of a denied process. -/
structure Quiet (s : Agent) (ev : SockIoEvent) (now : Instant) (allowed : Bool) : Prop where
  allowed : allowed = true
  unmarked : s.h2.isMarked ev.tgid ev.fd = false
  http1 : looksLikeH2 ev.chunk = false
  unflushed : (s.reassembler.push ev now).2 = none
  unreported : (s.reassembler.push ev now).1.unmark = []

/-- While a header is open, userspace drains quiet records only. -/
def Timely (fd : Int32) (s : Sys) (o : OpenHeaders) : List SysStep → Prop
  | [] => True
  | .call c :: steps => Timely fd (s.call fd c).1 (o.after c) steps
  | .drain now allowed :: steps =>
    (o.any → ∀ ev ∈ s.ring.head?, Quiet s.agent ev now allowed) ∧
      Timely fd (s.drain now allowed) o steps

/-- The socket is marked and sampled in. -/
def Kept (sockMeta : SockMetaMap) (tgid : UInt32) (fd : Int32) : Prop :=
  ∃ m, sockMeta.get (sockFdKey tgid fd.toUInt32) = some m ∧ m.ioSampledKeep = some true

theorem httpMagic_take (src : List UInt8) (n : ℕ) :
    httpMagic src n = startsHeader (src.take n) := by
  have htake : (src.take n).take (min (src.take n).length (src.take n).length) =
      src.take (min n src.length) := by
    rw [Nat.min_self,List.take_length,← List.take_take,List.take_length]
  simp only [startsHeader,httpMagic,htake]

theorem existingFdKeepIo_kept {sockMeta : SockMetaMap} {probe : Probe} {fd : Int32}
    (hkept : Kept sockMeta probe.tgid fd) (hcap : probe.filter.tgidCaptured probe.tgid = true) :
    existingFdKeepIo sockMeta probe fd.toUInt32 = (sockMeta,true) := by
  obtain ⟨m,hm,hkeep⟩ := hkept
  simp [existingFdKeepIo,hcap,hm,SockMeta.keepFromLookup,hkeep]

section Call

variable {s : Sys} {tgid : UInt32} {fd : Int32} {c : IoCall}

/-- A call on the socket is emitted if it shows a token or the entry is set, and a token sets
the entry. -/
theorem call_spec (hfd : 0 ≤ fd) (hkept : Kept s.sockMeta tgid fd) (hc : c.Moves tgid) :
    (s.call fd c).2 =
        (startsHeader c.shown || isInflight s.agent.inflight tgid fd.toUInt32) ∧
      (s.call fd c).1.sockMeta = s.sockMeta ∧
      (s.call fd c).1.agent.inflight = if startsHeader c.shown then
        markInflight s.agent.inflight tgid fd else s.agent.inflight := by
  have hcopy := ioCopyLen_le c.bytes.length c.bufLen
  have hkeep := existingFdKeepIo_kept (hc.tgid.symm ▸ hkept) hc.captured
  have hread : c.caller.mem.readPrefixBuf c.bufPtr = some (c.caller.mem.prefixBuf c.bufPtr) := by
    rw [UserMemory.readPrefixBuf,if_pos hc.readable]
  have hbuf : (c.caller.mem.prefixBuf c.bufPtr).toList.take (ioCopyLen c.bytes.length c.bufLen) =
      c.shown := by
    rw [← hc.holds,← UserMemory.bytes_take _ _ hcopy]
    rfl
  have hmagic : httpMagic (zeroTail (c.caller.mem.prefixBuf c.bufPtr)
      (ioCopyLen c.bytes.length c.bufLen)).toList (ioCopyLen c.bytes.length c.bufLen) =
        startsHeader c.shown := by
    rw [httpMagic_take,zeroTail_take,hbuf]
  simp only [Sys.call,emitIoKind,IoCall.pending,if_neg (Int32.not_lt.mpr hfd),hkeep,hread,
    if_neg hc.nonempty,hmagic,hc.ringFree,hc.tgid]
  cases startsHeader c.shown <;> cases isInflight s.agent.inflight tgid fd.toUInt32 <;> simp

theorem isInflight_mark (inflight : InflightMap) (hfd : 0 ≤ fd) :
    isInflight (markInflight inflight tgid fd) tgid fd.toUInt32 = true := by
  simp [isInflight,markInflight,if_neg (Int32.not_lt.mpr hfd),FiniteMap.contains]

end Call

theorem ingest_quiet {s : Agent} {ev : SockIoEvent} {now : Instant} {allowed : Bool}
    (h : Quiet s ev now allowed) :
    (s.ingestHttpIo ev false false now allowed).1.inflight = s.inflight := by
  simp [Agent.ingestHttpIo,h.allowed,Agent.demote,h.unmarked,h.http1,Agent.feedHttp1,h.unflushed,
    Reassembler.takeUnmark,h.unreported,Agent.clearAll]

theorem drain_quiet {s : Sys} {now : Instant} {allowed : Bool}
    (h : ∀ ev ∈ s.ring.head?, Quiet s.agent ev now allowed) :
    (s.drain now allowed).agent.inflight = s.agent.inflight := by
  rw [Sys.drain]
  cases hring : s.ring with
  | nil => rfl
  | cons ev ring => exact ingest_quiet (h ev (by simp [hring]))

theorem drain_sockMeta (s : Sys) (now : Instant) (allowed : Bool) :
    (s.drain now allowed).sockMeta = s.sockMeta := by
  rw [Sys.drain]
  cases s.ring <;> rfl

def Covered (s : Sys) (tgid : UInt32) (fd : Int32) (o : OpenHeaders) : Prop :=
  o.any → isInflight s.agent.inflight tgid fd.toUInt32 = true

theorem any_iff {o : OpenHeaders} : o.any ↔ ∃ dir, (o dir).isSome = true := by
  refine ⟨fun h => h.elim (fun h => ⟨_,h⟩) fun h => ⟨_,h⟩,fun ⟨dir,h⟩ => ?_⟩
  cases dir with
  | read => exact Or.inl h
  | write => exact Or.inr h

/-- A header is open behind a call only if one was before, or the call begins one. -/
theorem open_after {o : OpenHeaders} {c : IoCall} (h : (o.after c).any) :
    o.any ∨ o c.dir = none ∧ startsHeader c.bytes = true := by
  rw [any_iff] at h ⊢
  obtain ⟨dir,hdir⟩ := h
  by_cases hd : dir = c.dir
  · subst hd
    rw [OpenHeaders.after,Function.update_self] at hdir
    cases ho : o c.dir with
    | some header => exact Or.inl ⟨c.dir,by simp [ho]⟩
    | none =>
      rw [ho,advanceHeader] at hdir
      refine Or.inr ⟨rfl,?_⟩
      split_ifs at hdir with hstart
      · simp only [Bool.and_eq_true] at hstart
        exact hstart.1
      · simp at hdir
  · rw [OpenHeaders.after,Function.update_of_ne hd] at hdir
    exact Or.inl ⟨dir,hdir⟩

section Step

variable {s : Sys} {tgid : UInt32} {fd : Int32} {o : OpenHeaders} {c : IoCall}

theorem call_emitted (hfd : 0 ≤ fd) (hkept : Kept s.sockMeta tgid fd) (hcov : Covered s tgid fd o)
    (hc : c.Moves tgid)
    (hshow : o c.dir = none → startsHeader c.bytes = true → startsHeader c.shown = true)
    (hcarry : carriesHeader (o c.dir) c.bytes = true) : (s.call fd c).2 = true := by
  rw [(call_spec hfd hkept hc).1,Bool.or_eq_true]
  cases ho : o c.dir with
  | some header => exact Or.inr (hcov (any_iff.mpr ⟨c.dir,by simp [ho]⟩))
  | none =>
    rw [carriesHeader,ho,Option.isSome_none,Bool.false_or] at hcarry
    exact Or.inl (hshow ho hcarry)

theorem call_covered (hfd : 0 ≤ fd) (hkept : Kept s.sockMeta tgid fd) (hcov : Covered s tgid fd o)
    (hc : c.Moves tgid)
    (hshow : o c.dir = none → startsHeader c.bytes = true → startsHeader c.shown = true) :
    Covered (s.call fd c).1 tgid fd (o.after c) := by
  intro hopen
  rw [(call_spec hfd hkept hc).2.2]
  split_ifs with hstart
  · exact isInflight_mark _ hfd
  · rcases open_after hopen with hbefore | ⟨hnone,hbegin⟩
    · exact hcov hbefore
    · exact absurd (hshow hnone hbegin) hstart

end Step

theorem callTrace_emitted {tgid : UInt32} {fd : Int32} (hfd : 0 ≤ fd) {s : Sys} {o : OpenHeaders}
    {steps : List SysStep} (hkept : Kept s.sockMeta tgid fd) (hcov : Covered s tgid fd o)
    (hon : OnSocket tgid o steps) (htimely : Timely fd s o steps) :
    ∀ x ∈ callTrace fd s o steps, x.1 = true → x.2 = true := by
  induction steps generalizing s o with
  | nil => simp [callTrace]
  | cons step steps ih =>
    cases step with
    | call c =>
      obtain ⟨hc,hshow,hrest⟩ := hon
      rw [callTrace,List.forall_mem_cons]
      refine ⟨call_emitted hfd hkept hcov hc hshow,?_⟩
      refine ih ?_ (call_covered hfd hkept hcov hc hshow) hrest htimely
      rwa [(call_spec hfd hkept hc).2.1]
    | drain now allowed =>
      refine ih ?_ (fun hopen => ?_) hon htimely.2
      · rwa [drain_sockMeta]
      · rw [drain_quiet (htimely.1 hopen)]
        exact hcov hopen

/-- No call with octets of an open header is lost, if no record that clears the entry is
drained while a header is open. -/
theorem header_calls_emitted_when_timely (tgid : UInt32) (fd : Int32) (hfd : 0 ≤ fd) (s : Sys)
    (hkept : Kept s.sockMeta tgid fd) (steps : List SysStep)
    (hon : OnSocket tgid (fun _ => none) steps) (htimely : Timely fd s (fun _ => none) steps) :
    ∀ x ∈ callTrace fd s (fun _ => none) steps, x.1 = true → x.2 = true :=
  callTrace_emitted hfd hkept (fun hopen => by simp [OpenHeaders.any] at hopen) hon htimely

instance (c : IoCall) (tgid : UInt32) : Decidable (c.Moves tgid) :=
  decidable_of_iff (c.caller.tgid = tgid ∧ c.caller.filter.tgidCaptured c.caller.tgid = true ∧
    c.caller.ringFree = true ∧ c.caller.mem.readable c.bufPtr sockIoPrefixLen = true ∧
    c.caller.mem.bytes c.bufPtr (ioCopyLen c.bytes.length c.bufLen) = c.shown ∧
    ioCopyLen c.bytes.length c.bufLen ≠ 0)
    ⟨fun ⟨h1,h2,h3,h4,h5,h6⟩ => ⟨h1,h2,h3,h4,h5,h6⟩,
      fun ⟨h1,h2,h3,h4,h5,h6⟩ => ⟨h1,h2,h3,h4,h5,h6⟩⟩

instance (s : Agent) (ev : SockIoEvent) (now : Instant) (allowed : Bool) :
    Decidable (Quiet s ev now allowed) :=
  decidable_of_iff (allowed = true ∧ s.h2.isMarked ev.tgid ev.fd = false ∧
    looksLikeH2 ev.chunk = false ∧ (s.reassembler.push ev now).2.isNone = true ∧
    (s.reassembler.push ev now).1.unmark = [])
    ⟨fun ⟨h1,h2,h3,h4,h5⟩ => ⟨h1,h2,h3,Option.isNone_iff_eq_none.mp h4,h5⟩,
      fun ⟨h1,h2,h3,h4,h5⟩ => ⟨h1,h2,h3,Option.isNone_iff_eq_none.mpr h4,h5⟩⟩

instance (o : OpenHeaders) : Decidable o.any := inferInstanceAs (Decidable (_ ∨ _))

instance decidableOnSocket (tgid : UInt32) :
    (o : OpenHeaders) → (steps : List SysStep) → Decidable (OnSocket tgid o steps)
  | _, [] => .isTrue trivial
  | o, .call c :: steps =>
    have := decidableOnSocket tgid (o.after c) steps
    inferInstanceAs (Decidable (_ ∧ _ ∧ _))
  | o, .drain _ _ :: steps => decidableOnSocket tgid o steps

instance decidableTimely (fd : Int32) :
    (s : Sys) → (o : OpenHeaders) → (steps : List SysStep) → Decidable (Timely fd s o steps)
  | _, _, [] => .isTrue trivial
  | s, o, .call c :: steps => decidableTimely fd (s.call fd c).1 (o.after c) steps
  | s, o, .drain now allowed :: steps =>
    have := decidableTimely fd (s.drain now allowed) o steps
    inferInstanceAs (Decidable (_ ∧ _))

def textCall (dir : IoDir) (text : String) : IoCall where
  caller := {
    tgid := 42
    filter := ⟨none,∅,∅⟩
    sampleN := none
    prandom := 0
    pid := 42
    tsNs := 1
    cgroupId := 0
    ringFree := true
    mem := ⟨fun a => (octets text).getD a.toNat 0,fun _ => true⟩ }
  dir := dir
  bufPtr := 0
  bufLen := ioBufLenUnbounded
  bytes := octets text

def openSocket : Sys where
  sockMeta := markSockMeta ∅ (textCall .write "").caller.toProbe 3 (SockMeta.withPeerV4 1 80)
  drops := 0
  ring := []
  agent := Agent.start

/-- Every header is drained before the next one begins. -/
def promptDrains : List SysStep :=
  [.call (textCall .write "GET / HTTP/1.1\r\n"),.drain 1 true,.call (textCall .write "\r\n"),
    .drain 2 true,.call (textCall .read "HTTP/1.1 200 OK\r\n"),.call (textCall .read "\r\n")]

theorem header_calls_emitted_prompt_drains :
    (OnSocket 42 (fun _ => none) promptDrains ∧
        Timely 3 openSocket (fun _ => none) promptDrains) ∧
      ∀ x ∈ callTrace 3 openSocket (fun _ => none) promptDrains, x.1 = true → x.2 = true := by
  have hon : OnSocket 42 (fun _ => none) promptDrains := by decide +kernel
  have htimely : Timely 3 openSocket (fun _ => none) promptDrains := by decide +kernel
  exact ⟨⟨hon,htimely⟩,header_calls_emitted_when_timely 42 3 (by decide) openSocket
    ⟨_,rfl,by decide +kernel⟩ promptDrains hon htimely⟩

/-- The response begins before userspace has drained the request. -/
def lateDrains : List SysStep :=
  [.call (textCall .write "GET / HTTP/1.1\r\n"),.call (textCall .write "\r\n"),
    .call (textCall .read "HTTP/1.1 200 OK\r\n"),.drain 1 true,.drain 2 true,
    .call (textCall .read "\r\n")]

/-- The end of the response header is lost: the flush of the request has cleared the entry
that its first call set. -/
theorem late_drain_loses_continuation :
    OnSocket 42 (fun _ => none) lateDrains ∧
      callTrace 3 openSocket (fun _ => none) lateDrains =
        [(true,true),(true,true),(true,true),(true,false)] :=
  ⟨by decide +kernel,by decide +kernel⟩

end ObsAgent
