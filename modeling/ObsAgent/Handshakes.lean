import ObsAgent.Export

/-! Runs of the export hub: every exchange is accounted for, and a handshake is attached to the
first span of its socket that is queued, once. -/
namespace ObsAgent

open LastWrite

inductive HubOp
  | note (tgid : UInt32) (fd : Int32) (latencyNs : ℕ) (tsNs : UInt64) (now : Instant)
  | evict (now : Instant) (stillOpen : UInt32 → Int32 → Bool)
  | record (x : ExchangeArgs)
  | drain

abbrev SockFd := UInt32 × Int32

inductive HubEvent
  | noted (key : SockFd) (hs : Hs)
  | ignored
  | evicted (now : Instant) (stillOpen : UInt32 → Int32 → Bool)
  | skipped
  | full (now : Instant)
  | queued (key : SockFd) (tStartNs : UInt64) (now : Instant) (span : SpanRec)
  | drained (spans : List SpanRec)

def ExchangeArgs.event (x : ExchangeArgs) : Exit → HubEvent
  | .disabled => .skipped
  | .notSampled => .skipped
  | .full => .full x.now
  | .queued span => .queued (x.traceMeta.tgid,x.traceMeta.fd) x.traceMeta.tStartNs x.now span

def ExportHub.step (h : ExportHub) : HubOp → ExportHub × List HubEvent
  | .note tgid fd latencyNs tsNs now =>
    (h.noteHandshake tgid fd latencyNs tsNs now,
      [if latencyNs = 0 ∨ fd < 0 then .ignored else .noted (tgid,fd) ⟨latencyNs,tsNs,now⟩])
  | .evict now stillOpen => (h.evictHandshake now stillOpen,[.evicted now stillOpen])
  | .record x => ((h.recordExchange x).1,[x.event (h.recordExchange x).2])
  | .drain => (h.drain.1,[.drained h.drain.2])

namespace HubEvent

def queuedSpan : HubEvent → Option SpanRec
  | .queued _ _ _ span => some span
  | _ => none

def drainedSpans : HubEvent → List SpanRec
  | .drained spans => spans
  | _ => []

end HubEvent

structure ExportHub.Accounted (cap : ℕ) (h : ExportHub) (log : List HubEvent) : Prop where
  enabled : h.enabled = true
  cap : h.spans.cap = cap
  total : h.httpTotal = h.tracesSampled + h.tracesNotSampled + h.tracesDropped
  sampled : h.registry.tracesSampled = h.tracesSampled
  notSampled : h.registry.tracesNotSampled = h.tracesNotSampled
  dropped : h.registry.tracesDropped = h.tracesDropped
  spans : log.flatMap HubEvent.drainedSpans ++ h.spans.q = log.filterMap HubEvent.queuedSpan
  queued : h.tracesSampled = (log.filterMap HubEvent.queuedSpan).length

theorem ExportHub.accounted_start (sampleN : UInt64) (cap : ℕ) (profile : Option ProfileStore) :
    (ExportHub.start true sampleN cap profile).Accounted cap [] := by
  constructor <;> rfl

namespace ExportHub

section

variable {cap : ℕ} {h : ExportHub} {log : List HubEvent}

theorem Accounted.quiet (ha : h.Accounted cap log) {b : ExportHub} (hq : b.spans.q = h.spans.q)
    (hsampled : b.tracesSampled = h.tracesSampled) {e : HubEvent} (hnone : e.queuedSpan = none)
    (hnil : e.drainedSpans = []) :
    (log ++ [e]).flatMap HubEvent.drainedSpans ++ b.spans.q =
        (log ++ [e]).filterMap HubEvent.queuedSpan ∧
      b.tracesSampled = ((log ++ [e]).filterMap HubEvent.queuedSpan).length := by
  have hdrained : (log ++ [e]).flatMap HubEvent.drainedSpans = log.flatMap HubEvent.drainedSpans := by
    simp [hnil]
  have hqueued : (log ++ [e]).filterMap HubEvent.queuedSpan = log.filterMap HubEvent.queuedSpan := by
    simp [hnone]
  rw [hdrained,hqueued,hq,hsampled]
  exact ⟨ha.spans,ha.queued⟩

theorem Accounted.copies (ha : h.Accounted cap log) {x : ExchangeArgs} {b : ExportHub}
    (hb : h.Counted x b) :
    b.registry.tracesSampled = b.tracesSampled ∧ b.registry.tracesNotSampled = b.tracesNotSampled ∧
      b.registry.tracesDropped = b.tracesDropped := by
  rw [hb.registry,hb.tracesSampled,hb.tracesNotSampled,hb.tracesDropped]
  exact ⟨ha.sampled,ha.notSampled,ha.dropped⟩

theorem Accounted.total_counted (ha : h.Accounted cap log) {x : ExchangeArgs} {b : ExportHub}
    (hb : h.Counted x b) :
    b.httpTotal = b.tracesSampled + b.tracesNotSampled + b.tracesDropped + 1 := by
  rw [hb.httpTotal,hb.tracesSampled,hb.tracesNotSampled,hb.tracesDropped,ha.total]

theorem Accounted.record (ha : h.Accounted cap log) (x : ExchangeArgs) :
    (h.recordExchange x).1.Accounted cap (log ++ [x.event (h.recordExchange x).2]) := by
  have hrec := h.recordExchange_records x
  generalize h.recordExchange x = q at hrec ⊢
  cases hrec with
  | disabled hb hoff => exact absurd (ha.enabled.symm.trans hoff) (by simp)
  | notSampled hb henabled =>
    obtain ⟨hsampled,hnot,hdropped⟩ := ha.copies hb
    have htotal := ha.total_counted hb
    obtain ⟨hspans,hqueued⟩ := ha.quiet (congrArg SpanQueue.q hb.spans) hb.tracesSampled
      (rfl : (x.event .notSampled).queuedSpan = none) rfl
    exact ⟨hb.enabled.trans henabled,hb.spans ▸ ha.cap,by simp only; omega,hsampled,
      by simp only; omega,hdropped,hspans,hqueued⟩
  | full hb henabled =>
    obtain ⟨hsampled,hnot,hdropped⟩ := ha.copies hb
    have htotal := ha.total_counted hb
    obtain ⟨hspans,hqueued⟩ := ha.quiet (congrArg SpanQueue.q hb.spans) hb.tracesSampled
      (rfl : (x.event .full).queuedSpan = none) rfl
    exact ⟨hb.enabled.trans henabled,hb.spans ▸ ha.cap,by simp only; omega,hsampled,hnot,
      by simp only; omega,hspans,hqueued⟩
  | queued hb henabled _ _ hq hcap =>
    obtain ⟨hsampled,hnot,hdropped⟩ := ha.copies hb
    have htotal := ha.total_counted hb
    refine ⟨hb.enabled.trans henabled,hcap.trans ha.cap,by simp only; omega,by simp only; omega,hnot,
      hdropped,?_,?_⟩
    · simp [ExchangeArgs.event,HubEvent.drainedSpans,HubEvent.queuedSpan,hq,← ha.spans]
    · simp [ExchangeArgs.event,HubEvent.queuedSpan,hb.tracesSampled,ha.queued]

theorem Accounted.step (ha : h.Accounted cap log) (op : HubOp) :
    (h.step op).1.Accounted cap (log ++ (h.step op).2) := by
  cases op with
  | record x => exact ha.record x
  | note tgid fd latencyNs tsNs now =>
    rw [ExportHub.step]
    obtain ⟨hspans,hqueued⟩ := ha.quiet
      (rfl : (h.noteHandshake tgid fd latencyNs tsNs now).spans.q = h.spans.q) rfl
      (by split_ifs <;> rfl : (if latencyNs = 0 ∨ fd < 0 then HubEvent.ignored
        else .noted (tgid,fd) ⟨latencyNs,tsNs,now⟩).queuedSpan = none) (by split_ifs <;> rfl)
    exact ⟨ha.enabled,ha.cap,ha.total,ha.sampled,ha.notSampled,ha.dropped,hspans,hqueued⟩
  | evict now stillOpen =>
    obtain ⟨hspans,hqueued⟩ := ha.quiet (rfl : (h.evictHandshake now stillOpen).spans.q = h.spans.q)
      rfl (rfl : (HubEvent.evicted now stillOpen).queuedSpan = none) rfl
    exact ⟨ha.enabled,ha.cap,ha.total,ha.sampled,ha.notSampled,ha.dropped,hspans,hqueued⟩
  | drain =>
    have hq : (log ++ (h.step .drain).2).filterMap HubEvent.queuedSpan =
        log.filterMap HubEvent.queuedSpan := by
      simp [ExportHub.step,HubEvent.queuedSpan,List.filterMap_cons]
    refine ⟨ha.enabled,ha.cap,ha.total,ha.sampled,ha.notSampled,ha.dropped,?_,
      by rw [hq]; exact ha.queued⟩
    rw [hq,← ha.spans]
    simp [ExportHub.step,ExportHub.drain,SpanQueue.takeAll,HubEvent.drainedSpans]

end

end ExportHub

def Hs.stale (hs : Hs) (now : Instant) : Bool := durationSince now hs.atTime > timeout

namespace HubEvent

/-- The handshake that an event notes for a socket. -/
def notes (key : SockFd) : HubEvent → Option Hs
  | .noted k hs => if k = key then some hs else none
  | _ => none

/-- The event evicts a handshake of the socket: it is too old by then, or the socket is closed. -/
def evicts (key : SockFd) (hs : Hs) : HubEvent → Bool
  | .noted _ new => hs.stale new.atTime
  | .evicted now stillOpen => hs.stale now || !stillOpen key.1 key.2
  | .full now => hs.stale now
  | .queued _ _ now _ => hs.stale now
  | _ => false

/-- A span of the socket is queued that starts at or behind the handshake, in time for it. -/
def takes (key : SockFd) (hs : Hs) : HubEvent → Bool
  | .queued k tStartNs now _ => k = key && hs.tsNs ≤ tStartNs && !hs.stale now
  | _ => false

def drops (key : SockFd) (hs : Hs) (e : HubEvent) : Bool := e.evicts key hs || e.takes key hs

end HubEvent

/-- The handshake noted at `i` goes with the span queued at `j`: that span is the first to take it,
and up to there the handshake was neither superseded nor evicted. -/
structure Attached (log : List HubEvent) (i j : ℕ) (key : SockFd) (hs : Hs) : Prop where
  noted : ∃ e, log[i]? = some e ∧ e.notes key = some hs
  before : i < j
  taken : ∃ e, log[j]? = some e ∧ e.takes key hs = true
  untouched : ∀ m e, i < m → m < j → log[m]? = some e →
    e.notes key = none ∧ e.evicts key hs = false ∧ e.takes key hs = false

/-- The handshake that waits at the end of a log, with the position of its note. -/
def waiting (key : SockFd) (log : List HubEvent) : Option (ℕ × Hs) :=
  kept (HubEvent.notes key) (HubEvent.drops key) log

theorem attached_iff {log : List HubEvent} {i j : ℕ} {key : SockFd} {hs : Hs} :
    Attached log i j key hs ↔
      waiting key (log.take j) = some (i,hs) ∧ ∃ e, log[j]? = some e ∧ e.takes key hs = true := by
  simp only [waiting,kept_eq_some_iff,Lasts,getElem?_take_eq_some,HubEvent.drops,
    Bool.or_eq_false_iff]
  constructor
  · rintro ⟨⟨e,he,hn⟩,hij,ht,hu⟩
    exact ⟨⟨⟨e,⟨hij,he⟩,hn⟩,fun m e him hm => hu m e him hm.1 hm.2⟩,ht⟩
  · rintro ⟨⟨⟨e,⟨hij,he⟩,hn⟩,hu⟩,ht⟩
    exact ⟨⟨e,he,hn⟩,hij,ht,fun m e him hmj hm => hu m e him ⟨hmj,hm⟩⟩

theorem Attached.unique {log : List HubEvent} {i j j' : ℕ} {key key' : SockFd} {hs hs' : Hs}
    (h : Attached log i j key hs) (h' : Attached log i j' key' hs') : j = j' := by
  have hsame : key' = key ∧ hs' = hs := by
    obtain ⟨e,he,hn⟩ := h.noted
    obtain ⟨e',he',hn'⟩ := h'.noted
    obtain rfl : e' = e := Option.some.inj (he'.symm.trans he)
    cases e' with
    | noted k new =>
      simp only [HubEvent.notes,Option.ite_none_right_eq_some,Option.some.injEq] at hn hn'
      exact ⟨hn'.1.symm.trans hn.1,hn'.2.symm.trans hn.2⟩
    | _ => simp [HubEvent.notes] at hn
  obtain ⟨rfl,rfl⟩ := hsame
  rcases Nat.lt_trichotomy j j' with hlt | heq | hgt
  · obtain ⟨e,he,ht⟩ := h.taken
    exact absurd ht (by simp [(h'.untouched j e h.before hlt he).2.2])
  · exact heq
  · obtain ⟨e,he,ht⟩ := h'.taken
    exact absurd ht (by simp [(h.untouched j' e h'.before hgt he).2.2])

namespace ExportHub

/-- What an event leaves of the handshakes, and what it takes from them. -/
structure Leaves (h b : ExportHub) (e : HubEvent) : Prop where
  held : ∀ key, b.handshake.byFd.get key =
    (e.notes key).or ((h.handshake.byFd.get key).filter fun hs => !e.drops key hs)
  span : ∀ key tStartNs now span, e = .queued key tStartNs now span →
    span.handshakeNs = ((h.handshake.byFd.get key).filter fun hs => e.takes key hs).map Hs.latencyNs

theorem leaves_same {h b : ExportHub} {e : HubEvent} (hb : b.handshake = h.handshake)
    (he : e = .ignored ∨ e = .skipped ∨ ∃ spans, e = .drained spans) : h.Leaves b e := by
  have hkeep (o : Option Hs) : o = o.filter fun _ => true := by cases o <;> rfl
  rcases he with rfl | rfl | ⟨spans,rfl⟩
  all_goals
    refine ⟨fun key => ?_,by simp⟩
    rw [hb]
    exact hkeep _

theorem get_evictStale_stale (h : HandshakeIndex) (now : Instant) (key : SockFd) :
    (h.evictStale now).byFd.get key = (h.byFd.get key).filter fun hs => !hs.stale now := by
  rw [h.get_evictStale]
  congr 1
  funext hs
  rw [Hs.stale,← decide_not,decide_eq_decide]
  exact Nat.not_lt.symm

theorem peeked_snd (h : ExportHub) (x : ExchangeArgs) :
    (h.peeked x).2 = ((h.handshake.byFd.get (x.traceMeta.tgid,x.traceMeta.fd)).filter
      fun hs => !hs.stale x.now && hs.tsNs ≤ x.traceMeta.tStartNs).map Hs.latencyNs := by
  rw [peeked,HandshakeIndex.peekPreceding_snd,get_evictStale_stale,Option.filter_filter]

theorem get_consumed (h : ExportHub) (x : ExchangeArgs) (key : SockFd) :
    (if (h.peeked x).2.isSome then (h.peeked x).1.consume x.traceMeta.tgid x.traceMeta.fd
      else (h.peeked x).1).byFd.get key =
    (h.handshake.byFd.get key).filter fun hs => !(hs.stale x.now ||
      ((x.traceMeta.tgid,x.traceMeta.fd) = key && hs.tsNs ≤ x.traceMeta.tStartNs &&
        !hs.stale x.now)) := by
  have hfst : (h.peeked x).1.byFd.get key =
      (h.handshake.byFd.get key).filter fun hs => !hs.stale x.now := by
    rw [peeked,HandshakeIndex.peekPreceding_fst,get_evictStale_stale]
  by_cases hkey : (x.traceMeta.tgid,x.traceMeta.fd) = key
  · rw [h.peeked_snd,hkey]
    cases hget : h.handshake.byFd.get key with
    | none => simp [hfst,hget]
    | some hs =>
      by_cases hgo : (!hs.stale x.now && decide (hs.tsNs ≤ x.traceMeta.tStartNs)) = true
      · rw [if_pos (by simp [Option.filter,hgo]),HandshakeIndex.consume,hkey,FiniteMap.get_remove_self]
        simp_all [Option.filter]
      · rw [if_neg (by simp [Option.filter,hgo]),hfst,hget]
        cases hold : hs.stale x.now <;> simp_all [Option.filter]
  · have hother : ((h.peeked x).1.consume x.traceMeta.tgid x.traceMeta.fd).byFd.get key =
        (h.peeked x).1.byFd.get key := by
      rw [HandshakeIndex.consume,FiniteMap.get_remove,if_neg (Ne.symm hkey)]
    simp only [hkey,decide_false,Bool.false_and,Bool.or_false]
    split_ifs
    · exact hother.trans hfst
    · exact hfst

theorem leaves_record (h : ExportHub) (x : ExchangeArgs) :
    h.Leaves (h.recordExchange x).1 (x.event (h.recordExchange x).2) := by
  have hrec := h.recordExchange_records x
  generalize h.recordExchange x = q at hrec ⊢
  cases hrec with
  | disabled hb => exact leaves_same hb.handshake (Or.inr (Or.inl rfl))
  | notSampled hb => exact leaves_same hb.handshake (Or.inr (Or.inl rfl))
  | full hb =>
    refine ⟨fun key => ?_,by simp [ExchangeArgs.event]⟩
    simp only [peeked,HandshakeIndex.peekPreceding_fst,get_evictStale_stale]
    simp [ExchangeArgs.event,HubEvent.notes,HubEvent.drops,HubEvent.evicts,HubEvent.takes]
  | queued hb =>
    refine ⟨fun key => h.get_consumed x key,?_⟩
    rintro key tStartNs now span ⟨⟩
    simp only [ExportHub.span,buildSpan,peeked_snd]
    congr 2
    funext hs
    simp [ExchangeArgs.event,HubEvent.takes,Bool.and_comm]

theorem leaves_step (h : ExportHub) (op : HubOp) :
    ∃ e, (h.step op).2 = [e] ∧ h.Leaves (h.step op).1 e := by
  cases op with
  | record x => exact ⟨_,rfl,h.leaves_record x⟩
  | drain => exact ⟨_,rfl,leaves_same rfl (Or.inr (Or.inr ⟨_,rfl⟩))⟩
  | evict now stillOpen =>
    refine ⟨_,rfl,fun key => ?_,by simp⟩
    simp only [step,evictHandshake,HandshakeIndex.get_evictClosed,get_evictStale_stale,
      Option.filter_filter]
    simp [HubEvent.notes,HubEvent.drops,HubEvent.evicts,HubEvent.takes]
  | note tgid fd latencyNs tsNs now =>
    refine ⟨_,rfl,?_⟩
    by_cases hzero : latencyNs = 0 ∨ fd < 0
    · rw [if_pos hzero]
      exact leaves_same (by simp [step,noteHandshake,HandshakeIndex.note,hzero]) (Or.inl rfl)
    · rw [if_neg hzero]
      refine ⟨fun key => ?_,by simp⟩
      simp only [step,noteHandshake,HandshakeIndex.note,if_neg hzero,FiniteMap.get_put,
        get_evictStale_stale,HubEvent.notes]
      by_cases hkey : key = (tgid,fd)
      · rw [if_pos hkey,if_pos hkey.symm,Option.some_or]
      · rw [if_neg hkey,if_neg (Ne.symm hkey)]
        simp [HubEvent.drops,HubEvent.evicts,HubEvent.takes]

/-- The handshakes that wait are those of the log, and each span queued took the one that waited. -/
structure Tied (h : ExportHub) (log : List HubEvent) : Prop where
  held : ∀ key, h.handshake.byFd.get key = (waiting key log).map Prod.snd
  spans : ∀ j key tStartNs now span, log[j]? = some (.queued key tStartNs now span) →
    span.handshakeNs = (((waiting key (log.take j)).map Prod.snd).filter fun hs =>
      (HubEvent.queued key tStartNs now span).takes key hs).map Hs.latencyNs

theorem Tied.step {h : ExportHub} {log : List HubEvent} (ht : h.Tied log) (op : HubOp) :
    (h.step op).1.Tied (log ++ (h.step op).2) := by
  obtain ⟨e,he,hheld,hspan⟩ := h.leaves_step op
  rw [he]
  refine ⟨fun key => ?_,fun j key tStartNs now span hj => ?_⟩
  · rw [hheld key,ht.held key,waiting,waiting,kept_concat,map_snd_keep]
  · rcases getElem?_concat_cases hj with hj | ⟨rfl,hlast⟩
    · rw [List.take_append_of_le_length (List.getElem?_eq_some_iff.mp hj).1.le]
      exact ht.spans j key tStartNs now span hj
    · rw [List.take_left,← ht.held key,hspan key tStartNs now span hlast.symm,hlast]

theorem Tied.attached {h : ExportHub} {log : List HubEvent} (ht : h.Tied log) {j : ℕ} {key : SockFd}
    {tStartNs : UInt64} {now : Instant} {span : SpanRec}
    (hj : log[j]? = some (.queued key tStartNs now span)) (latencyNs : ℕ) :
    span.handshakeNs = some latencyNs ↔ ∃ i hs, Attached log i j key hs ∧ hs.latencyNs = latencyNs := by
  rw [ht.spans j key tStartNs now span hj]
  simp only [Option.map_eq_some_iff,Option.filter_eq_some_iff,attached_iff,hj,Option.some.injEq,
    exists_eq_left']
  constructor
  · rintro ⟨hs,⟨⟨⟨i,_⟩,hw,rfl⟩,htakes⟩,rfl⟩
    exact ⟨i,_,⟨hw,htakes⟩,rfl⟩
  · rintro ⟨i,hs,⟨hw,htakes⟩,rfl⟩
    exact ⟨hs,⟨⟨(i,hs),hw,rfl⟩,htakes⟩,rfl⟩

theorem tied_start (enabled : Bool) (sampleN : UInt64) (cap : ℕ) (profile : Option ProfileStore) :
    (ExportHub.start enabled sampleN cap profile).Tied [] :=
  ⟨fun _ => rfl,by simp⟩

end ExportHub

/-- On every run of an enabled hub the exchanges are those sampled, not sampled and dropped, the
spans sampled are those drained and those still queued, and a span carries a handshake if and only
if it is the first in time for it that was queued on its socket, before any eviction or other
handshake. No handshake goes with two spans. -/
theorem traces_accounted_and_handshakes_taken_once (sampleN : UInt64) (cap : ℕ)
    (profile : Option ProfileStore) (ops : List HubOp) :
    let h := Machine.final ExportHub.step (ExportHub.start true sampleN cap profile) ops
    let log := Machine.outputs ExportHub.step (ExportHub.start true sampleN cap profile) ops
    h.httpTotal = h.tracesSampled + h.tracesNotSampled + h.tracesDropped ∧
      (h.registry.tracesSampled = h.tracesSampled ∧
        h.registry.tracesNotSampled = h.tracesNotSampled ∧
        h.registry.tracesDropped = h.tracesDropped) ∧
      log.flatMap HubEvent.drainedSpans ++ h.spans.q = log.filterMap HubEvent.queuedSpan ∧
      h.tracesSampled = (log.flatMap HubEvent.drainedSpans).length + h.spans.q.length ∧
      h.spans.q.length ≤ cap ∧
      (∀ j key tStartNs now span, log[j]? = some (.queued key tStartNs now span) →
        ∀ latencyNs, span.handshakeNs = some latencyNs ↔
          ∃ i hs, Attached log i j key hs ∧ hs.latencyNs = latencyNs) ∧
      ∀ i j j' key key' hs hs',
        Attached log i j key hs → Attached log i j' key' hs' → j = j' := by
  intro h log
  have ha : h.Accounted cap log :=
    Machine.final_log _ (I := ExportHub.Accounted cap) (fun op ha => ha.step op)
      (ExportHub.accounted_start sampleN cap profile) ops
  have ht : h.Tied log :=
    Machine.final_log _ (I := ExportHub.Tied) (fun op ht => ht.step op)
      (ExportHub.tied_start true sampleN cap profile) ops
  refine ⟨ha.total,⟨ha.sampled,ha.notSampled,ha.dropped⟩,ha.spans,?_,?_,
    fun j key tStartNs now span hj => ht.attached hj,fun i j j' key key' hs hs' => Attached.unique⟩
  · rw [ha.queued,← ha.spans,List.length_append]
  · exact h.spans.within.trans ha.cap.le

end ObsAgent
