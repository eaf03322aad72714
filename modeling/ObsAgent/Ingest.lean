import ObsAgent.Correlate
import ObsAgent.Reassemble

/-! HTTP/1.1 messages through reassembly and correlation.  The correlator hears of a
message once, when its header is complete; so the exchanges on a socket are those of the
messages as wholes. -/
namespace ObsAgent
namespace Http1

structure Call where
  ev : SockIoEvent
  now : Instant

structure Ingest where
  reassembler : Reassembler
  correlator : Correlator

namespace Ingest

def default : Ingest := ⟨.default,.default⟩

/-- The HTTP/1.1 path of `ingest_http_io`. -/
def step (s : Ingest) (c : Call) : Ingest × Option Exchange :=
  let q := s.reassembler.push c.ev c.now
  let r := q.1.takeUnmark.1
  match q.2 with
  | none => (⟨r,s.correlator⟩,none)
  | some flushed =>
    let o := s.correlator.observe flushed c.now
    (⟨r,o.1⟩,o.2)

def run (s : Ingest) : List Call → Ingest × List Exchange
  | [] => (s,[])
  | c :: cs =>
    let q := s.step c
    let rest := run q.1 cs
    (rest.1,q.2.toList ++ rest.2)

theorem run_append (s : Ingest) (cs ds : List Call) :
    s.run (cs ++ ds) = (((s.run cs).1.run ds).1,(s.run cs).2 ++ ((s.run cs).1.run ds).2) := by
  induction cs generalizing s with
  | nil => rfl
  | cons c cs ih => simp [run,ih]

end Ingest

def lastCall (c : Call) : List Call → Call
  | [] => c
  | d :: ds => lastCall d ds

def joined (cs : List Call) : List UInt8 := cs.flatMap fun c => c.ev.chunk

/-- A successful call on a socket in a direction. -/
structure Call.On (c : Call) (key : SockKey) (dir : IoDir) : Prop where
  tgid : c.ev.tgid = key.tgid
  fd : c.ev.fd = key.fd
  dir : IoDir.fromU8 c.ev.dir = some dir
  ret : 0 ≤ c.ev.ret
  chunk : c.ev.chunk ≠ []

instance (c : Call) (key : SockKey) (dir : IoDir) : Decidable (c.On key dir) :=
  decidable_of_iff (c.ev.tgid = key.tgid ∧ c.ev.fd = key.fd ∧ IoDir.fromU8 c.ev.dir = some dir ∧
    0 ≤ c.ev.ret ∧ c.ev.chunk ≠ []) ⟨fun ⟨h1,h2,h3,h4,h5⟩ => ⟨h1,h2,h3,h4,h5⟩,
      fun ⟨h1,h2,h3,h4,h5⟩ => ⟨h1,h2,h3,h4,h5⟩⟩

/-- The socket's buffer in one direction; there is none in the other. -/
structure Holding (r : Reassembler) (key : SockKey) (dir : IoDir) (o : Option Buf) : Prop where
  self : r.bufs.get ⟨key.tgid,key.fd,dir.toU8⟩ = o
  other : r.bufs.get ⟨key.tgid,key.fd,dir.flip.toU8⟩ = none

theorem Holding.flip {r : Reassembler} {key : SockKey} {dir : IoDir}
    (h : Holding r key dir none) : Holding r key dir.flip none :=
  ⟨h.other,by cases dir <;> exact h.self⟩

section Step

variable {s : Ingest} {key : SockKey} {dir : IoDir} {o : Option Buf} {c : Call}

theorem push_holding (hon : c.On key dir) (h : Holding s.reassembler key dir o)
    (hfresh : ∀ b, o = some b → durationSince c.now b.atTime ≤ timeout) :
    Holding (s.reassembler.push c.ev c.now).1 key dir (absorb c.ev c.now o).1 ∧
      (s.reassembler.push c.ev c.now).2 = (absorb c.ev c.now o).2 := by
  have hlen : c.ev.plen ≠ 0 := by
    rw [← c.ev.chunk_length]
    exact fun h0 => hon.chunk (List.length_eq_zero_iff.mp h0)
  have hkey : (⟨c.ev.tgid,c.ev.fd,dir.toU8⟩ : BufKey) = ⟨key.tgid,key.fd,dir.toU8⟩ := by
    rw [hon.tgid,hon.fd]
  have hne : (⟨key.tgid,key.fd,dir.flip.toU8⟩ : BufKey) ≠ ⟨c.ev.tgid,c.ev.fd,dir.toU8⟩ := by
    rw [hkey]
    cases dir <;> simp [IoDir.flip,IoDir.toU8]
  have hkept : s.reassembler.buffered ⟨key.tgid,key.fd,dir.toU8⟩ c.now = o := by
    rw [Reassembler.buffered,h.self]
    cases o with
    | none => rfl
    | some b => simp [Option.filter_some,hfresh b rfl]
  have hself := s.reassembler.push_self c.now hon.dir hon.ret hlen
  rw [hkey,hkept] at hself
  refine ⟨⟨congrArg Prod.fst hself,?_⟩,congrArg Prod.snd hself⟩
  rw [s.reassembler.push_other c.now hon.dir hne,Reassembler.buffered,h.other]
  rfl

theorem step_quiet (hon : c.On key dir) (h : Holding s.reassembler key dir o)
    (hfresh : ∀ b, o = some b → durationSince c.now b.atTime ≤ timeout) {o' : Option Buf}
    (ha : absorb c.ev c.now o = (o',none)) :
    Holding (s.step c).1.reassembler key dir o' ∧ (s.step c).1.correlator = s.correlator ∧
      (s.step c).2 = none := by
  obtain ⟨hhold,hout⟩ := push_holding hon h hfresh
  rw [ha] at hhold hout
  rw [Ingest.step,hout]
  exact ⟨⟨hhold.self,hhold.other⟩,rfl,rfl⟩

/-- What a message does: the correlator hears one event, and nothing stays buffered. -/
structure Hears (s : Ingest) (q : Ingest × List Exchange) (key : SockKey) (dir : IoDir)
    (ev : SockIoEvent) (now : Instant) : Prop where
  holding : Holding q.1.reassembler key dir none
  correlator : q.1.correlator = (s.correlator.observe ev now).1
  out : q.2 = (s.correlator.observe ev now).2.toList

theorem step_complete (hon : c.On key dir) (h : Holding s.reassembler key dir o)
    (hfresh : ∀ b, o = some b → durationSince c.now b.atTime ≤ timeout) {ev : SockIoEvent}
    (ha : absorb c.ev c.now o = (none,some ev)) : Hears s (s.run [c]) key dir ev c.now := by
  obtain ⟨hhold,hout⟩ := push_holding hon h hfresh
  rw [ha] at hhold hout
  have hstep : s.step c = (⟨(s.reassembler.push c.ev c.now).1.takeUnmark.1,
      (s.correlator.observe ev c.now).1⟩,(s.correlator.observe ev c.now).2) := by
    simp only [Ingest.step,hout]
  refine ⟨?_,?_,?_⟩
  · rw [Ingest.run,hstep]
    exact ⟨hhold.self,hhold.other⟩
  · rw [Ingest.run,hstep]
    rfl
  · rw [Ingest.run,hstep]
    simp [Ingest.run]

theorem Hears.after {cs : List Call} {ev : SockIoEvent} {now : Instant}
    (h : Hears (s.step c).1 ((s.step c).1.run cs) key dir ev now)
    (hcorr : (s.step c).1.correlator = s.correlator) (hnone : (s.step c).2 = none) :
    Hears s (s.run (c :: cs)) key dir ev now := by
  obtain ⟨h1,h2,h3⟩ := h
  rw [hcorr] at h2 h3
  refine ⟨h1,h2,?_⟩
  rw [Ingest.run,hnone]
  exact h3

end Step

/-- The buffer behind further calls. -/
def gathered (b : Buf) (cs : List Call) : Buf := cs.foldl (fun b c => b.extend c.ev c.now) b

/-- The buffer is complete with the last of the calls, not before, and no two of them are
further apart than the timeout. -/
def Completes (b : Buf) : List Call → Prop
  | [] => b.complete = true
  | c :: cs => b.complete = false ∧ durationSince c.now b.atTime ≤ timeout ∧
      Completes (b.extend c.ev c.now) cs

section Message

variable {s : Ingest} {key : SockKey} {dir : IoDir}

theorem run_more {c : Call} {cs : List Call} {b : Buf} (hon : ∀ d ∈ c :: cs, d.On key dir)
    (h : Holding s.reassembler key dir (some b)) (hc : Completes b (c :: cs)) :
    Hears s (s.run (c :: cs)) key dir (flush (lastCall c cs).ev (gathered b (c :: cs)))
      (lastCall c cs).now := by
  induction cs generalizing s b c with
  | nil =>
    obtain ⟨-,hgap,hdone⟩ := hc
    have hdone' : (b.extend c.ev c.now).complete = true := hdone
    refine step_complete (hon c (by simp)) h (fun b' hb' => Option.some.inj hb' ▸ hgap) ?_
    simp [absorb,hdone',gathered,lastCall]
  | cons d cs ih =>
    obtain ⟨-,hgap,hrest⟩ := hc
    have hopen : (b.extend c.ev c.now).complete = false := hrest.1
    obtain ⟨hhold,hcorr,hnone⟩ := step_quiet (hon c (by simp)) h
      (fun b' hb' => Option.some.inj hb' ▸ hgap)
      (show absorb c.ev c.now (some b) = (some (b.extend c.ev c.now),none) by simp [absorb,hopen])
    exact (ih (fun e he => hon e (List.mem_cons_of_mem _ he)) hhold hrest).after hcorr hnone

theorem run_header {c : Call} {cs : List Call} (hon : ∀ d ∈ c :: cs, d.On key dir)
    (h : Holding s.reassembler key dir none) (hstart : isHttpStart c.ev.chunk = true)
    (hc : Completes (Buf.start c.ev c.now) cs) :
    Hears s (s.run (c :: cs)) key dir
      (flush (lastCall c cs).ev (gathered (Buf.start c.ev c.now) cs)) (lastCall c cs).now := by
  cases cs with
  | nil =>
    have hdone : (Buf.start c.ev c.now).complete = true := hc
    refine step_complete (hon c (by simp)) h (by simp) ?_
    simp [absorb,hstart,hdone,gathered,lastCall]
  | cons d cs =>
    obtain ⟨hhold,hcorr,hnone⟩ := step_quiet (hon c (by simp)) h (by simp)
      (show absorb c.ev c.now none = (some (Buf.start c.ev c.now),none) by
        simp [absorb,hstart,hc.1])
    exact (run_more (fun e he => hon e (List.mem_cons_of_mem _ he)) hhold hc).after hcorr hnone

theorem run_inert {cs : List Call} (hon : ∀ d ∈ cs, d.On key dir)
    (h : Holding s.reassembler key dir none) (hidle : ∀ d ∈ cs, isHttpStart d.ev.chunk = false) :
    Holding (s.run cs).1.reassembler key dir none ∧ (s.run cs).1.correlator = s.correlator ∧
      (s.run cs).2 = [] := by
  induction cs generalizing s with
  | nil => exact ⟨h,rfl,rfl⟩
  | cons c cs ih =>
    obtain ⟨hhold,hcorr,hnone⟩ := step_quiet (hon c (by simp)) h (by simp)
      (show absorb c.ev c.now none = (none,none) by simp [absorb,hidle c (by simp)])
    obtain ⟨h1,h2,h3⟩ := ih (fun d hd => hon d (List.mem_cons_of_mem _ hd)) hhold
      (fun d hd => hidle d (List.mem_cons_of_mem _ hd))
    refine ⟨h1,h2.trans hcorr,?_⟩
    rw [Ingest.run,hnone]
    simpa using h3

end Message

/-- A message as its socket moves it: the calls that carry its header, and calls with
nothing but body. -/
structure Message (key : SockKey) (dir : IoDir) where
  first : Call
  later : List Call
  rest : List Call
  on : ∀ c ∈ first :: later ++ rest, c.On key dir
  starts : isHttpStart first.ev.chunk = true
  completes : Completes (Buf.start first.ev first.now) later
  inert : ∀ c ∈ rest, isHttpStart c.ev.chunk = false

namespace Message

variable {key : SockKey} {dir : IoDir}

def calls (m : Message key dir) : List Call := m.first :: m.later ++ m.rest

def last (m : Message key dir) : Call := lastCall m.first m.later

def content (m : Message key dir) : List UInt8 := joined (m.first :: m.later)

/-- What the correlator hears of a message. -/
def heard (m : Message key dir) : SockIoEvent :=
  flush m.last.ev (gathered (Buf.start m.first.ev m.first.now) m.later)

theorem hears (m : Message key dir) {s : Ingest} (h : Holding s.reassembler key dir none) :
    Hears s (s.run m.calls) key dir m.heard m.last.now := by
  have hon := m.on
  rw [calls,Ingest.run_append]
  obtain ⟨h1,h2,h3⟩ := run_header (fun d hd => hon d (List.mem_append_left _ hd)) h m.starts
    m.completes
  obtain ⟨h4,h5,h6⟩ := run_inert (fun d hd => hon d (List.mem_append_right _ hd)) h1 m.inert
  exact ⟨h4,h5.trans h2,by rw [h6,List.append_nil]; exact h3⟩

end Message

theorem gathered_bytes (sofar : List UInt8) {b : Buf} (h : b.bytes = sofar.take cap)
    (cs : List Call) : (gathered b cs).bytes = (sofar ++ joined cs).take cap := by
  induction cs generalizing b sofar with
  | nil => simpa [gathered,joined] using h
  | cons c cs ih =>
    have hnext := ih _ (bytes_extend h c.ev c.now)
    simpa [gathered,joined] using hnext

theorem gathered_firstTs (b : Buf) (cs : List Call) : (gathered b cs).firstTs = b.firstTs := by
  induction cs generalizing b with
  | nil => rfl
  | cons c cs ih => exact ih (b.extend c.ev c.now)

theorem gathered_lastTs {b : Buf} {c : Call} (h : b.lastTs = c.ev.tsNs) (cs : List Call) :
    (gathered b cs).lastTs = (lastCall c cs).ev.tsNs := by
  induction cs generalizing b c with
  | nil => exact h
  | cons d cs ih => exact ih (Buf.extend_lastTs b d.ev d.now)

theorem lastCall_mem (c : Call) (cs : List Call) : lastCall c cs ∈ c :: cs := by
  induction cs generalizing c with
  | nil => simp [lastCall]
  | cons d cs ih => exact List.mem_cons_of_mem c (ih d)

theorem looksLikeRequest_leads {s t : List UInt8} (hl : s <+: t) (h : looksLikeRequest s = true) :
    looksLikeRequest t = true := by
  have htoken : ∀ token, startsWith s token = true → startsWith t token = true := fun token ht =>
    startsWith_iff.mpr ((startsWith_iff.mp ht).trans hl)
  simp only [looksLikeRequest,Bool.or_eq_true] at h ⊢
  rcases h with (((((h | h) | h) | h) | h) | h) | h <;> simp [htoken _ h]

theorem looksLikeResponse_leads {s t : List UInt8} (hl : s <+: t)
    (h : looksLikeResponse s = true) : looksLikeResponse t = true :=
  startsWith_iff.mpr ((startsWith_iff.mp h).trans hl)

theorem chunk_length_le (ev : SockIoEvent) : ev.chunk.length ≤ sockIoPrefixLen := by
  rw [ev.chunk_length,SockIoEvent.plen]
  simp

namespace Message

variable {key : SockKey} {dir : IoDir} (m : Message key dir)

theorem on_last : m.last.On key dir :=
  m.on _ (List.mem_append_left _ (lastCall_mem m.first m.later))

theorem heard_key : SockKey.fromEvent m.heard = key := by
  have h := m.on_last
  simp only [SockKey.fromEvent,heard,flush,synthetic,h.tgid,h.fd]

theorem heard_dir : IoDir.fromU8 m.heard.dir = some dir := m.on_last.dir

theorem heard_ret : 0 ≤ m.heard.ret := Int.natCast_nonneg _

theorem gathered_content :
    (gathered (Buf.start m.first.ev m.first.now) m.later).bytes = m.content.take cap := by
  refine gathered_bytes m.first.ev.chunk ?_ m.later
  rw [Buf.start_bytes,List.take_of_length_le ((chunk_length_le _).trans (by decide))]

theorem heard_chunk : m.heard.chunk = m.content.take sockIoPrefixLen := by
  rw [heard,flush,synthetic_chunk,m.gathered_content,List.take_take]
  rfl

theorem first_leads {n : ℕ} (hn : sockIoPrefixLen ≤ n) : m.first.ev.chunk <+: m.content.take n :=
  List.prefix_take_iff.mpr ⟨List.prefix_append _ _,(chunk_length_le _).trans hn⟩

theorem heard_request (h : looksLikeRequest m.first.ev.chunk = true) :
    looksLikeRequest m.heard.chunk = true ∧ m.heard.tsNs = m.first.ev.tsNs := by
  have hreq : looksLikeRequest (m.content.take cap) = true :=
    looksLikeRequest_leads (m.first_leads (by decide)) h
  have hnot : ¬ startsWith (m.content.take cap) (octets "HTTP/") = true := fun hresp => by
    rw [not_request_of_response hresp] at hreq
    simp at hreq
  constructor
  · rw [m.heard_chunk]
    exact looksLikeRequest_leads (m.first_leads le_rfl) h
  · simp only [heard,flush,synthetic]
    rw [m.gathered_content,if_neg hnot,gathered_firstTs,Buf.start_firstTs]

theorem heard_response (h : looksLikeResponse m.first.ev.chunk = true) :
    looksLikeResponse m.heard.chunk = true ∧ m.heard.tsNs = m.last.ev.tsNs := by
  have hresp : startsWith (m.content.take cap) (octets "HTTP/") = true :=
    looksLikeResponse_leads (m.first_leads (by decide)) h
  constructor
  · rw [m.heard_chunk]
    exact looksLikeResponse_leads (m.first_leads le_rfl) h
  · simp only [heard,flush,synthetic]
    rw [m.gathered_content,if_pos hresp]
    exact gathered_lastTs rfl m.later

end Message

section Pairs

variable {key : SockKey} {dir : IoDir}

def Message.pending (m : Message key dir) : Pending :=
  ⟨dir,m.first.ev.tsNs,m.content.take sockIoPrefixLen,m.last.now,m.last.ev.cgroupId⟩

def exchangeOf (req : Message key dir) (resp : Message key dir.flip) : Exchange where
  tgid := key.tgid
  fd := key.fd
  reqPrefix := req.content.take sockIoPrefixLen
  respPrefix := resp.content.take sockIoPrefixLen
  tStartNs := req.first.ev.tsNs
  tEndNs := resp.last.ev.tsNs
  peer := none
  reqIsWrite := dir = .write
  cgroupId := req.last.ev.cgroupId

theorem observe_request (c : Correlator) {m : Message key dir}
    (h : looksLikeRequest m.first.ev.chunk = true) :
    (c.observe m.heard m.last.now).2 = none ∧
      (c.observe m.heard m.last.now).1.states.get key = some m.pending := by
  obtain ⟨hreq,hts⟩ := m.heard_request h
  have hself := c.observeInner_self m.last.now false m.heard_dir
  have hreply := c.observeInner_reply m.last.now false m.heard_dir
  rw [m.heard_key] at hself
  constructor
  · refine hreply.trans ?_
    cases c.waiting (.fromEvent m.heard) m.last.now with
    | none => rfl
    | some p =>
      have hno : ¬ completes p m.heard false dir := fun hc => by
        rw [not_request_of_response hc.2.2] at hreq
        simp at hreq
      simp [hno]
  · refine hself.trans ?_
    rw [accepted,if_pos ⟨m.heard_ret,hreq,by simp⟩,hts,m.heard_chunk]
    rfl

theorem observe_response (c : Correlator) (req : Message key dir) {m : Message key dir.flip}
    (h : looksLikeResponse m.first.ev.chunk = true) (hget : c.states.get key = some req.pending)
    (hgap : durationSince m.last.now req.last.now ≤ timeout) :
    (c.observe m.heard m.last.now).2 = some (exchangeOf req m) := by
  obtain ⟨hresp,hts⟩ := m.heard_response h
  have hreply := c.observeInner_reply m.last.now false m.heard_dir
  have hwait : c.waiting key m.last.now = some req.pending := by
    have hfresh : durationSince m.last.now req.pending.atTime ≤ timeout := hgap
    simp [Correlator.waiting,hget,Option.filter_some,hfresh]
  have hdone : completes req.pending m.heard false dir.flip :=
    ⟨opposite_iff.mpr ⟨rfl,by simp⟩,m.heard_ret,hresp⟩
  rw [m.heard_key,hwait] at hreply
  refine hreply.trans ?_
  have htgid : m.heard.tgid = key.tgid := congrArg SockKey.tgid m.heard_key
  have hfd : m.heard.fd = key.fd := congrArg SockKey.fd m.heard_key
  have hx : joinedWith req.pending m.heard = exchangeOf req m := by
    rw [joinedWith,exchangeOf,m.heard_chunk,hts,htgid,hfd]
    rfl
  simp only [Option.bind_some,if_pos hdone,hx]

theorem observe_unasked (c : Correlator) {m : Message key dir} (hget : c.states.get key = none) :
    (c.observe m.heard m.last.now).2 = none := by
  have hreply := c.observeInner_reply m.last.now false m.heard_dir
  rw [m.heard_key,Correlator.waiting,hget] at hreply
  exact hreply

structure Pair (key : SockKey) (dir : IoDir) where
  req : Message key dir
  resp : Message key dir.flip
  isRequest : looksLikeRequest req.first.ev.chunk = true
  isResponse : looksLikeResponse resp.first.ev.chunk = true
  gap : durationSince resp.last.now req.last.now ≤ timeout

def Pair.calls (p : Pair key dir) : List Call := p.req.calls ++ p.resp.calls

theorem run_pair {s : Ingest} (h : Holding s.reassembler key dir none) (p : Pair key dir) :
    Holding (s.run p.calls).1.reassembler key dir none ∧
      (s.run p.calls).2 = [exchangeOf p.req p.resp] := by
  obtain ⟨hhold,hcorr,hout⟩ := p.req.hears h
  obtain ⟨hnone,hget⟩ := observe_request s.correlator p.isRequest
  obtain ⟨hhold',hcorr',hout'⟩ := p.resp.hears hhold.flip
  rw [← hcorr] at hget
  rw [Pair.calls,Ingest.run_append]
  refine ⟨?_,?_⟩
  · have := hhold'.flip
    cases dir <;> exact this
  · rw [hout,hnone,hout',observe_response _ p.req p.isResponse hget p.gap]
    rfl

theorem run_pairs {s : Ingest} (h : Holding s.reassembler key dir none) (ps : List (Pair key dir)) :
    Holding (s.run (ps.flatMap Pair.calls)).1.reassembler key dir none ∧
      (s.run (ps.flatMap Pair.calls)).2 = ps.map fun p => exchangeOf p.req p.resp := by
  induction ps generalizing s with
  | nil => exact ⟨h,rfl⟩
  | cons p ps ih =>
    obtain ⟨hhold,hout⟩ := run_pair h p
    obtain ⟨hhold',hout'⟩ := ih hhold
    rw [List.flatMap_cons,Ingest.run_append]
    exact ⟨hhold',by rw [hout,hout']; rfl⟩

/-- Messages in turn, from a response without its request to a request without its
response, give one exchange for every pair. -/
theorem run_alternation (lead : Option (Message key dir.flip)) (ps : List (Pair key dir))
    (trail : Option (Message key dir))
    (htrail : ∀ m, trail = some m → looksLikeRequest m.first.ev.chunk = true) :
    (Ingest.default.run (lead.toList.flatMap Message.calls ++ ps.flatMap Pair.calls ++
      trail.toList.flatMap Message.calls)).2 = ps.map fun p => exchangeOf p.req p.resp := by
  have hstart : Holding Ingest.default.reassembler key dir none := ⟨rfl,rfl⟩
  have hlead : Holding (Ingest.default.run (lead.toList.flatMap Message.calls)).1.reassembler
      key dir none ∧ (Ingest.default.run (lead.toList.flatMap Message.calls)).2 = [] := by
    cases lead with
    | none => exact ⟨hstart,rfl⟩
    | some m =>
      obtain ⟨hhold,-,hout⟩ := m.hears hstart.flip
      rw [observe_unasked _ rfl] at hout
      refine ⟨?_,by simpa using hout⟩
      have := hhold.flip
      simp only [Option.toList_some,List.flatMap_cons,List.flatMap_nil,List.append_nil]
      cases dir <;> exact this
  obtain ⟨hhold,hout⟩ := run_pairs hlead.1 ps
  have htail : ∀ s : Ingest, Holding s.reassembler key dir none →
      (s.run (trail.toList.flatMap Message.calls)).2 = [] := by
    intro s hs
    cases trail with
    | none => rfl
    | some m =>
      have hm := (m.hears hs).out
      rw [(observe_request _ (htrail m rfl)).1] at hm
      simpa using hm
  rw [Ingest.run_append,Ingest.run_append,hlead.2,hout,htail _ hhold]
  simp

end Pairs

inductive MessageKind
  | request | response

def MessageKind.leads : MessageKind → List UInt8 → Bool
  | .request => looksLikeRequest
  | .response => looksLikeResponse

theorem isHttpStart_of_leads (kind : MessageKind) {b : List UInt8} (h : kind.leads b = true)
    (hlen : b.length < 2^16) :
    isHttpStart b = true := by
  have htake : b.take (min (min b.length (2^16 - 1)) b.length) = b := by
    rw [List.take_of_length_le (by omega)]
  simp only [isHttpStart,httpMagic,htake]
  cases kind with
  | request =>
    simp only [MessageKind.leads,looksLikeRequest,Bool.or_eq_true] at h ⊢
    tauto
  | response =>
    simp only [MessageKind.leads,looksLikeResponse] at h
    simp [h]

/-- A message whose header ends in the last of its header calls; that call may go on with
the body, and so may further calls that do not look like a message. -/
structure SplitMessage (key : SockKey) (dir : IoDir) (kind : MessageKind) where
  first : Call
  later : List Call
  rest : List Call
  header : List UInt8
  extra : List UInt8
  on : ∀ c ∈ first :: later ++ rest, c.On key dir
  captured : ∀ c ∈ first :: later ++ rest, c.ev.ret = c.ev.chunk.length
  token : kind.leads first.ev.chunk = true
  cut : joined (first :: later) = header ++ extra
  needed : (joined (first :: later).dropLast).length < header.length
  size : header.length ≤ cap
  ended : crlfcrlf <:+ header
  once : ¬ crlfcrlf <:+: header.dropLast
  inert : ∀ c ∈ rest, isHttpStart c.ev.chunk = false
  gaps : (first :: later).IsChain fun a b => durationSince b.now a.now ≤ timeout

theorem complete_of_header {header : List UInt8} {b : Buf} (hend : crlfcrlf <:+ header)
    (hl : header <+: b.bytes) : b.complete = true := by
  have hdone : headersDone header = true := headersDone_iff.mpr hend.isInfix
  rw [Buf.complete,headersDone_leads hdone hl]
  rfl

theorem open_of_header {header : List UInt8} {b : Buf} (hsize : header.length ≤ cap)
    (honce : ¬ crlfcrlf <:+: header.dropLast) (hl : b.bytes <+: header)
    (hlt : b.bytes.length < header.length) : b.complete = false := by
  have hdrop : b.bytes <+: header.dropLast := by
    rw [List.dropLast_eq_take]
    exact List.prefix_take_iff.mpr ⟨hl,by omega⟩
  have hnot : headersDone b.bytes = false := Bool.eq_false_iff.mpr fun h =>
    honce ((headersDone_iff.mp h).trans hdrop.isInfix)
  simp only [Buf.complete,hnot,Bool.false_or,decide_eq_false_iff_not]
  omega

theorem completes_of_cut {header extra : List UInt8} (hsize : header.length ≤ cap)
    (hend : crlfcrlf <:+ header) (honce : ¬ crlfcrlf <:+: header.dropLast) {cs : List Call}
    {c₀ : Call} {b : Buf} {sofar : List UInt8} (hb : b.bytes = sofar.take cap)
    (hat : b.atTime = c₀.now) (hcut : sofar ++ joined cs = header ++ extra)
    (hneeded : cs ≠ [] → (sofar ++ joined cs.dropLast).length < header.length)
    (hgaps : (c₀ :: cs).IsChain fun a b => durationSince b.now a.now ≤ timeout) :
    Completes b cs := by
  induction cs generalizing c₀ b sofar with
  | nil =>
    have hall : sofar = header ++ extra := by simpa [joined] using hcut
    refine complete_of_header hend ?_
    rw [hb,hall]
    exact List.prefix_take_iff.mpr ⟨List.prefix_append _ _,hsize⟩
  | cons c cs ih =>
    obtain ⟨hgap,hgaps⟩ := List.isChain_cons_cons.mp hgaps
    have hlt : sofar.length < header.length := by
      have := hneeded (by simp)
      rw [List.length_append] at this
      omega
    have hl : sofar <+: header := List.prefix_of_prefix_length_le
      (hcut ▸ List.prefix_append _ _) (List.prefix_append _ _) hlt.le
    have hkept : b.bytes = sofar := by
      rw [hb,List.take_of_length_le (by omega)]
    refine ⟨open_of_header hsize honce (hkept ▸ hl) (hkept ▸ hlt),hat ▸ hgap,?_⟩
    refine ih (bytes_extend hb c.ev c.now) rfl (by simpa [joined] using hcut) (fun hne => ?_) hgaps
    have := hneeded (by simp)
    rw [List.dropLast_cons_of_ne_nil hne] at this
    simpa [joined,Nat.add_assoc] using this

namespace SplitMessage

variable {key : SockKey} {dir : IoDir} {kind : MessageKind}

def calls (m : SplitMessage key dir kind) : List Call := m.first :: m.later ++ m.rest

def last (m : SplitMessage key dir kind) : Call := lastCall m.first m.later

def toMessage (m : SplitMessage key dir kind) : Message key dir where
  first := m.first
  later := m.later
  rest := m.rest
  on := m.on
  starts := isHttpStart_of_leads kind m.token ((chunk_length_le _).trans_lt (by decide))
  completes := completes_of_cut m.size m.ended m.once
    (by rw [Buf.start_bytes,List.take_of_length_le ((chunk_length_le _).trans (by decide))]) rfl
    (by simpa [joined] using m.cut) (fun hne => by
      have := m.needed
      rw [List.dropLast_cons_of_ne_nil hne] at this
      simpa [joined] using this) m.gaps
  inert := m.inert

end SplitMessage

structure SplitPair (key : SockKey) (dir : IoDir) where
  req : SplitMessage key dir .request
  resp : SplitMessage key dir.flip .response
  gap : durationSince resp.last.now req.last.now ≤ timeout

namespace SplitPair

variable {key : SockKey} {dir : IoDir}

def calls (p : SplitPair key dir) : List Call := p.req.calls ++ p.resp.calls

def toPair (p : SplitPair key dir) : Pair key dir :=
  ⟨p.req.toMessage,p.resp.toMessage,p.req.token,p.resp.token,p.gap⟩

/-- From the first call of the request to the call that completes the response's header. -/
def exchange (p : SplitPair key dir) : Exchange where
  tgid := key.tgid
  fd := key.fd
  reqPrefix := (p.req.header ++ p.req.extra).take sockIoPrefixLen
  respPrefix := (p.resp.header ++ p.resp.extra).take sockIoPrefixLen
  tStartNs := p.req.first.ev.tsNs
  tEndNs := p.resp.last.ev.tsNs
  peer := none
  reqIsWrite := dir = .write
  cgroupId := p.req.last.ev.cgroupId

theorem exchange_eq (p : SplitPair key dir) :
    exchangeOf p.toPair.req p.toPair.resp = p.exchange := by
  have hreq : p.toPair.req.content = p.req.header ++ p.req.extra := p.req.cut
  have hresp : p.toPair.resp.content = p.resp.header ++ p.resp.extra := p.resp.cut
  rw [exchangeOf,exchange,hreq,hresp]
  rfl

end SplitPair

/-- However the headers of alternating messages are split, every pair gives one exchange,
in order. -/
theorem split_headers_pair {key : SockKey} {dir : IoDir}
    (lead : Option (SplitMessage key dir.flip .response)) (ps : List (SplitPair key dir))
    (trail : Option (SplitMessage key dir .request)) :
    (Ingest.default.run (lead.toList.flatMap SplitMessage.calls ++ ps.flatMap SplitPair.calls ++
      trail.toList.flatMap SplitMessage.calls)).2 = ps.map SplitPair.exchange := by
  have hrun := run_alternation (lead.map SplitMessage.toMessage) (ps.map SplitPair.toPair)
    (trail.map SplitMessage.toMessage) (fun m hm => by
      obtain ⟨t,-,rfl⟩ := Option.map_eq_some_iff.mp hm
      exact t.token)
  have hflat : ∀ {dir : IoDir} {kind : MessageKind} (o : Option (SplitMessage key dir kind)),
      (o.map SplitMessage.toMessage).toList.flatMap Message.calls =
        o.toList.flatMap SplitMessage.calls := fun o => by cases o <;> rfl
  rw [hflat,hflat,List.flatMap_map,List.map_map] at hrun
  refine hrun.trans (List.map_congr_left fun p _ => ?_)
  exact p.exchange_eq

def someCall (dir : IoDir) (bytes : List UInt8) (tsNs : ℕ) : Call :=
  ⟨someSocket.moved dir bytes tsNs,0⟩

/-- A request in two calls, a response with the start of its body, and more of the body. -/
def twoCallPair : SplitPair ⟨42,3⟩ .write where
  req := {
    first := someCall .write (octets "GET /a HTTP/1.1\r\n") 10
    later := [someCall .write (octets "Host: x\r\n\r\n") 20]
    rest := []
    header := octets "GET /a HTTP/1.1\r\nHost: x\r\n\r\n"
    extra := []
    on := by decide +kernel
    captured := by decide +kernel
    token := by decide +kernel
    cut := by decide +kernel
    needed := by decide +kernel
    size := by decide +kernel
    ended := by decide +kernel
    once := by decide +kernel
    inert := by decide +kernel
    gaps := by decide +kernel }
  resp := {
    first := someCall .read (octets "HTTP/1.1 200 OK\r\n\r\nab") 30
    later := []
    rest := [someCall .read (octets "cd") 40]
    header := octets "HTTP/1.1 200 OK\r\n\r\n"
    extra := octets "ab"
    on := by decide +kernel
    captured := by decide +kernel
    token := by decide +kernel
    cut := by decide +kernel
    needed := by decide +kernel
    size := by decide +kernel
    ended := by decide +kernel
    once := by decide +kernel
    inert := by decide +kernel
    gaps := by decide +kernel }
  gap := by decide +kernel

theorem split_headers_pair_two_calls :
    (Ingest.default.run twoCallPair.calls).2 = [twoCallPair.exchange] := by
  simpa using split_headers_pair none [twoCallPair] none

end Http1
end ObsAgent
