import ObsAgent.Agreement
import ObsAgent.PushEffect
import ObsAgent.Socket
import ObsAgent.System

/-! Where an exchange comes from.  What the agent keeps of a call is its time and its octets, in the
reassembler, the correlator and the streams of a connection; all of it leads back to records that
the loop has taken from the ring, and these to probes of the same process. -/
namespace ObsAgent

open Kernel Http1 H2

structure SockIoEvent.On (ev : SockIoEvent) (tgid : UInt32) (fd : Int32) (dir : IoDir) : Prop where
  tgid : ev.tgid = tgid
  fd : ev.fd = fd
  dir : IoDir.fromU8 ev.dir = some dir

theorem SockIoEvent.chunk_length_le (ev : SockIoEvent) : ev.chunk.length ≤ sockIoPrefixLen := by
  rw [ev.chunk_length,SockIoEvent.plen]
  simp

section

variable (P : SockIoEvent → Prop)

def Timed (tgid : UInt32) (fd : Int32) (dir : IoDir) (tsNs : ℕ) : Prop :=
  ∃ ev, P ev ∧ ev.On tgid fd dir ∧ ev.tsNs = tsNs

/-- A call that left this time and the first of these octets. -/
def Begun (tgid : UInt32) (fd : Int32) (dir : IoDir) (tsNs : ℕ) (bytes : List UInt8) : Prop :=
  ∃ ev, P ev ∧ ev.On tgid fd dir ∧ ev.tsNs = tsNs ∧ ev.chunk <+: bytes

/-- A buffer has the time and the octets of its first call and the time of its last one. -/
def Buf.Sourced (k : BufKey) (b : Buf) : Prop :=
  ∃ dir : IoDir, dir.toU8 = k.dir ∧ Begun P k.tgid k.fd dir b.firstTs b.bytes ∧
    Timed P k.tgid k.fd dir b.lastTs

def Reassembler.Sourced (r : Reassembler) : Prop := r.bufs.All (Buf.Sourced P)

def Correlator.Sourced (c : Correlator) : Prop :=
  c.states.All fun k p => Begun P k.tgid k.fd p.dir p.tsNs p.prefixBytes

def H2Registry.Sourced (r : H2Registry) : Prop :=
  r.conns.All fun k c => c.streams.All fun _ q => Timed P k.tgid k.fd q.reqDir q.tStartNs

/-- All that the stores remember are calls that pass. -/
structure Agent.Sourced (s : Agent) : Prop where
  bufs : Reassembler.Sourced P s.reassembler
  pending : Correlator.Sourced P s.correlator
  streams : H2Registry.Sourced P s.h2

/-- Both ends of an exchange are calls on its socket. -/
def Published.Traced : Published → Prop
  | .http1 ex _ => ∃ dir, Begun P ex.tgid ex.fd dir ex.tStartNs ex.reqPrefix ∧
      Timed P ex.tgid ex.fd dir.flip ex.tEndNs ∧ (ex.reqIsWrite = true ↔ dir = .write)
  | .http2 x => Timed P x.tgid x.fd x.reqDir x.tStartNs ∧ ∃ dir, Timed P x.tgid x.fd dir x.tEndNs

end

variable {P : SockIoEvent → Prop}

theorem Begun.timed {tgid : UInt32} {fd : Int32} {dir : IoDir} {tsNs : ℕ} {bytes : List UInt8}
    (h : Begun P tgid fd dir tsNs bytes) : Timed P tgid fd dir tsNs := by
  obtain ⟨ev,hev,hon,hts,-⟩ := h
  exact ⟨ev,hev,hon,hts⟩

theorem Begun.extend {tgid : UInt32} {fd : Int32} {dir : IoDir} {buf : Buf}
    (h : Begun P tgid fd dir buf.firstTs buf.bytes) (ev : SockIoEvent) (now : Instant) :
    Begun P tgid fd dir (buf.extend ev now).firstTs (buf.extend ev now).bytes := by
  obtain ⟨first,hfirst,hon,hts,hlead⟩ := h
  exact ⟨first,hfirst,hon,hts,hlead.trans (List.prefix_append _ _)⟩

/-- What is flushed starts with its first call; a response has the time of the last one. -/
def Reassembled (P : SockIoEvent → Prop) (ev : SockIoEvent) : Prop :=
  ∃ dir, IoDir.fromU8 ev.dir = some dir ∧ Timed P ev.tgid ev.fd dir ev.tsNs ∧
    (looksLikeResponse ev.chunk = false → Begun P ev.tgid ev.fd dir ev.tsNs ev.chunk)

theorem reassembled_flush {ev : SockIoEvent} {dir : IoDir} {buf : Buf}
    (hdir : IoDir.fromU8 ev.dir = some dir)
    (hfirst : Begun P ev.tgid ev.fd dir buf.firstTs buf.bytes)
    (hlast : Timed P ev.tgid ev.fd dir buf.lastTs) : Reassembled P (flush ev buf) := by
  have hchunk : (flush ev buf).chunk = buf.bytes.take sockIoPrefixLen := synthetic_chunk _ _ _
  refine ⟨dir,hdir,?_,fun hnot => ?_⟩
  · change Timed P ev.tgid ev.fd dir (if startsWith buf.bytes (octets "HTTP/") then _ else _)
    split
    · exact hlast
    · exact hfirst.timed
  · have hhttp : startsWith buf.bytes (octets "HTTP/") = false := by
      rw [hchunk] at hnot
      rw [Bool.eq_false_iff] at hnot ⊢
      exact fun hstarts => hnot (startsWith_take hstarts (by decide +kernel))
    obtain ⟨first,hin,hon,hts,hlead⟩ := hfirst
    refine ⟨first,hin,hon,?_,?_⟩
    · change first.tsNs = if startsWith buf.bytes (octets "HTTP/") then _ else _
      rw [hhttp]
      exact hts
    · rw [hchunk]
      exact List.prefix_take_iff.mpr ⟨hlead,first.chunk_length_le⟩

theorem IoDir.toU8_injective {d d' : IoDir} (h : d.toU8 = d'.toU8) : d = d' := by
  cases d <;> cases d' <;> first | rfl | exact absurd h (by decide)

theorem Reassembler.Sourced.push {r : Reassembler} (h : Reassembler.Sourced P r) {ev : SockIoEvent}
    (hev : P ev) (now : Instant) :
    Reassembler.Sourced P (r.push ev now).1 ∧ ∀ out ∈ (r.push ev now).2, Reassembled P out := by
  have hstale : Reassembler.Sourced P (r.evictStale now) := h.retain _
  unfold Reassembler.push
  dsimp only
  cases hdir : IoDir.fromU8 ev.dir with
  | none => exact ⟨hstale,by simp⟩
  | some dir =>
    have hon : ev.On ev.tgid ev.fd dir := ⟨rfl,rfl,hdir⟩
    have htimed : Timed P ev.tgid ev.fd dir ev.tsNs := ⟨ev,hev,hon,rfl⟩
    have hstart : Begun P ev.tgid ev.fd dir ev.tsNs ev.chunk := ⟨ev,hev,hon,rfl,List.prefix_rfl⟩
    have hrest : FiniteMap.All (Buf.Sourced P)
        ((r.evictStale now).bufs.remove ⟨ev.tgid,ev.fd,dir.toU8⟩) := hstale.remove _
    by_cases hbad : ev.ret < 0 ∨ ev.plen = 0
    · simp only [if_pos hbad]
      exact ⟨hstale,by simp⟩
    · simp only [if_neg hbad]
      cases hget : (r.evictStale now).bufs.get ⟨ev.tgid,ev.fd,dir.toU8⟩ with
      | none =>
        dsimp only
        split_ifs with hhttp hdone
        · refine ⟨hrest,fun out hout => ?_⟩
          cases hout
          rw [← flush_start ev now]
          exact reassembled_flush hdir hstart htimed
        · have hbuf : Buf.Sourced P ⟨ev.tgid,ev.fd,dir.toU8⟩ (Buf.start ev now) :=
            ⟨dir,rfl,hstart,htimed⟩
          exact ⟨hrest.put hbuf,by simp⟩
        · exact ⟨hrest,by simp⟩
      | some buf =>
        obtain ⟨d,hd,hfirst,-⟩ := hstale _ _ hget
        obtain rfl : d = dir := IoDir.toU8_injective hd
        have hmore := hfirst.extend ev now
        dsimp only
        split_ifs
        · refine ⟨hrest,fun out hout => ?_⟩
          cases hout
          exact reassembled_flush hdir hmore htimed
        · have hbuf : Buf.Sourced P ⟨ev.tgid,ev.fd,d.toU8⟩ (buf.extend ev now) :=
            ⟨d,rfl,hmore,htimed⟩
          exact ⟨hrest.put hbuf,by simp⟩

theorem opposite_flip {clientOnly : Bool} {d d' : IoDir}
    (h : Correlator.opposite clientOnly d d' = true) : d' = d.flip := by
  cases d <;> cases d' <;> simp_all [Correlator.opposite,IoDir.flip]

theorem Correlator.Sourced.observeInner {c : Correlator} (h : Correlator.Sourced P c)
    {ev : SockIoEvent} (hev : Reassembled P ev) (now : Instant) (clientOnly : Bool)
    (fromTls : Bool) :
    Correlator.Sourced P (c.observeInner ev now clientOnly).1 ∧
      ∀ ex ∈ (c.observeInner ev now clientOnly).2, (Published.http1 ex fromTls).Traced P := by
  obtain ⟨dir,hdir,htimed,hbegun⟩ := hev
  have hstale : Correlator.Sourced P (c.evictStale now) := h.retain _
  have hrest : Correlator.Sourced P ⟨(c.evictStale now).states.remove (SockKey.fromEvent ev)⟩ :=
    FiniteMap.All.remove hstale _
  have hfresh : looksLikeRequest ev.chunk = true → Correlator.Sourced P
      ⟨((c.evictStale now).states.remove (SockKey.fromEvent ev)).put (SockKey.fromEvent ev)
        ⟨dir,ev.tsNs,ev.chunk,now,ev.cgroupId⟩⟩ := by
    intro hrequest
    refine FiniteMap.All.put hrest (hbegun ?_)
    rw [Bool.eq_false_iff]
    intro hresponse
    rw [not_request_of_response hresponse] at hrequest
    cases hrequest
  unfold Correlator.observeInner
  simp only [hdir]
  cases hget : (c.evictStale now).states.get (SockKey.fromEvent ev) with
  | none =>
    dsimp only
    split_ifs with hbad
    · exact ⟨hrest,by simp⟩
    · exact ⟨hrest,by simp⟩
    · simp only [not_or,not_not] at hbad
      exact ⟨hfresh hbad.2.2,by simp⟩
  | some pending =>
    have hpending := hstale _ _ hget
    dsimp only
    split_ifs with hbad hagain
    · exact ⟨hfresh hagain.2.1,by simp⟩
    · exact ⟨hrest,by simp⟩
    · refine ⟨hrest,fun ex hex => ?_⟩
      cases hex
      simp only [not_or,not_not] at hbad
      refine ⟨pending.dir,hpending,?_,by simp⟩
      rw [← opposite_flip hbad.1]
      exact htimed

theorem pairBlock_sourced {S : IoDir → ℕ → Prop} {streams : Streams}
    (h : streams.All fun _ q => S q.reqDir q.tStartNs) {dir : IoDir} {tsNs : ℕ} (hnew : S dir tsNs)
    (sid : ℕ) (decoded : Hpack.Pseudo) :
    (pairBlock streams dir sid decoded tsNs).1.All (fun _ q => S q.reqDir q.tStartNs) ∧
      ∀ x ∈ (pairBlock streams dir sid decoded tsNs).2.out,
        S x.reqDir x.tStartNs ∧ x.tEndNs = tsNs := by
  unfold pairBlock
  dsimp only
  cases decoded.status with
  | some status =>
    cases hget : streams.get sid with
    | none => exact ⟨h.remove _,by simp⟩
    | some pending =>
      dsimp only
      split_ifs
      · exact ⟨h.remove _,by simp⟩
      · refine ⟨h.remove _,fun x hx => ?_⟩
        rw [List.mem_singleton.mp hx]
        exact ⟨h _ _ hget,rfl⟩
  | none =>
    cases decoded.method with
    | none => exact ⟨h,by simp⟩
    | some method =>
      cases decoded.path.filter (fun p => decide (p ≠ "")) with
      | none => exact ⟨h,by simp⟩
      | some path =>
        dsimp only
        split_ifs
        · exact ⟨h,by simp⟩
        · exact ⟨h.put hnew,by simp⟩

theorem moves_sourced {S : IoDir → ℕ → Prop} {dir : IoDir} {tsNs : ℕ} {c c' : H2Conn} {e : Emitted}
    (hmoves : Moves dir tsNs c c' e) (hnew : S dir tsNs)
    (h : c.streams.All fun _ q => S q.reqDir q.tStartNs) :
    c'.streams.All (fun _ q => S q.reqDir q.tStartNs) ∧
      ∀ x ∈ e.out, S x.reqDir x.tStartNs ∧ x.tEndNs = tsNs := by
  induction hmoves with
  | pipe c p =>
    rw [H2Conn.streams_setPipe]
    exact ⟨h,by simp [Emitted.counted]⟩
  | reset c sid => exact ⟨h.remove _,by simp⟩
  | block c decoded => exact pairBlock_sourced h hnew _ decoded
  | trans _ _ ih ih' =>
    obtain ⟨hmid,hout⟩ := ih h
    obtain ⟨hend,hout'⟩ := ih' hmid
    refine ⟨hend,fun x hx => ?_⟩
    rw [Emitted.out_append] at hx
    exact (List.mem_append.mp hx).elim (hout x) (hout' x)

theorem H2Registry.Sourced.feedConn {r : H2Registry} (h : H2Registry.Sourced P r)
    {ev : SockIoEvent} (hev : P ev) {dir : IoDir} (hdir : IoDir.fromU8 ev.dir = some dir)
    {conn : H2Conn}
    (hconn : conn.streams.All fun _ q => Timed P ev.tgid ev.fd q.reqDir q.tStartNs) (now : Instant)
    (clientOnly : Bool) :
    H2Registry.Sourced P (r.feedConn ⟨ev.tgid,ev.fd⟩ conn dir ev now clientOnly).1 ∧
      ∀ x ∈ (r.feedConn ⟨ev.tgid,ev.fd⟩ conn dir ev now clientOnly).2.out,
        (Published.http2 x).Traced P := by
  have htimed : Timed P ev.tgid ev.fd dir ev.tsNs := ⟨ev,hev,⟨rfl,rfl,hdir⟩,rfl⟩
  obtain ⟨hstreams,hout⟩ := moves_sourced (S := Timed P ev.tgid ev.fd)
    (pushBytes_moves {conn with atTime := now} ev.chunk) htimed hconn
  unfold H2Registry.feedConn H2Registry.Sourced
  dsimp only
  refine ⟨?_,fun x hx => ?_⟩
  · split
    · exact FiniteMap.All.remove h _
    · exact FiniteMap.All.put (k := ⟨ev.tgid,ev.fd⟩) h hstreams
  · have hnamed : x ∈ (pushBytes {conn with atTime := now} dir ev.chunk ev.tsNs).2.out.map
        fun x => {x with tgid := ev.tgid, fd := ev.fd, cgroupId := ev.cgroupId} := by
      split_ifs at hx
      · exact (List.mem_filter.mp hx).1
      · exact hx
    obtain ⟨y,hy,rfl⟩ := List.mem_map.mp hnamed
    obtain ⟨hstart,hend⟩ := hout y hy
    refine ⟨hstart,dir,?_⟩
    dsimp only
    rw [hend]
    exact htimed

theorem H2Registry.Sourced.feed {r : H2Registry} (h : H2Registry.Sourced P r) {ev : SockIoEvent}
    (hev : P ev) (now : Instant) (clientOnly : Bool) :
    H2Registry.Sourced P (r.feed ev now clientOnly).1 ∧
      ∀ x ∈ (r.feed ev now clientOnly).2.out, (Published.http2 x).Traced P := by
  have hforget : H2Registry.Sourced P (r.forget ⟨ev.tgid,ev.fd⟩ ev.chunk) := by
    unfold H2Registry.forget
    split
    · exact FiniteMap.All.remove h _
    · exact h
  unfold H2Registry.feed
  cases hdir : IoDir.fromU8 ev.dir with
  | none => exact ⟨h,by simp [Reply.nothing]⟩
  | some dir =>
    dsimp only
    by_cases hbad : ev.ret < 0 ∨ ev.plen = 0
    · simp only [if_pos hbad]
      exact ⟨h,by simp [Reply.nothing]⟩
    · simp only [if_neg hbad]
      cases hget : (r.forget ⟨ev.tgid,ev.fd⟩ ev.chunk).conns.get ⟨ev.tgid,ev.fd⟩ with
      | some conn => exact hforget.feedConn hev hdir (hforget _ _ hget) now clientOnly
      | none =>
        dsimp only
        split_ifs
        · exact ⟨hforget,by simp [Reply.nothing]⟩
        · have hnew : (H2Conn.new now).streams.All
              fun _ q => Timed P ev.tgid ev.fd q.reqDir q.tStartNs := .empty
          have hput : H2Registry.Sourced P {r.forget ⟨ev.tgid,ev.fd⟩ ev.chunk with
              conns := (r.forget ⟨ev.tgid,ev.fd⟩ ev.chunk).conns.put ⟨ev.tgid,ev.fd⟩ (.new now)} :=
            FiniteMap.All.put hforget hnew
          exact hput.feedConn hev hdir hnew now clientOnly
        · exact ⟨hforget,by simp [Reply.nothing]⟩

theorem H2Registry.Sourced.dropConn {r : H2Registry} (h : H2Registry.Sourced P r) (tgid : UInt32)
    (fd : Int32) : H2Registry.Sourced P (r.dropConn tgid fd) := by
  unfold H2Registry.dropConn
  split <;> exact FiniteMap.All.remove h _

namespace Agent

variable {s : Agent}

theorem Sourced.clearAll (h : s.Sourced P) (unmarks : List (UInt32 × Int32)) :
    (s.clearAll unmarks).Sourced P := by
  obtain ⟨hh2,hreasm,hcorr⟩ := s.clearAll_stores unmarks
  exact ⟨hreasm ▸ h.bufs,hcorr ▸ h.pending,hh2 ▸ h.streams⟩

theorem Sourced.demote (h : s.Sourced P) (ev : SockIoEvent) : (s.demote ev).1.Sourced P := by
  unfold Agent.demote
  split
  · have hdrop : ({s with h2 := (s.h2.dropConn ev.tgid ev.fd).takeUnmark.1} : Agent).Sourced P :=
      ⟨h.bufs,h.pending,h.streams.dropConn ev.tgid ev.fd⟩
    exact hdrop.clearAll _
  · exact h

theorem Sourced.feedH2 (h : s.Sourced P) {ev : SockIoEvent} (hev : P ev) (clientOnly : Bool)
    (now : Instant) :
    (s.feedH2 ev clientOnly now).1.Sourced P ∧
      ∀ p ∈ (s.feedH2 ev clientOnly now).2.out, p.Traced P := by
  obtain ⟨hreg,hout⟩ := h.streams.feed hev now clientOnly
  have hfed : ({s with h2 := (s.h2.feed ev now clientOnly).1.takeUnmark.1} : Agent).Sourced P :=
    ⟨h.bufs,h.pending,hreg⟩
  refine ⟨hfed.clearAll _,fun p hp => ?_⟩
  obtain ⟨x,hx,rfl⟩ := List.mem_map.mp hp
  exact hout x hx

theorem Sourced.feedHttp1 (h : s.Sourced P) {ev : SockIoEvent} (hev : P ev)
    (fromTls clientOnly : Bool) (now : Instant) :
    (s.feedHttp1 ev fromTls clientOnly now).1.Sourced P ∧
      ∀ p ∈ (s.feedHttp1 ev fromTls clientOnly now).2.out, p.Traced P := by
  obtain ⟨hreasm,hflushed⟩ := h.bufs.push hev now
  have hpushed : ({s with reassembler := (s.reassembler.push ev now).1.takeUnmark.1} :
      Agent).Sourced P := ⟨hreasm,h.pending,h.streams⟩
  have hs := hpushed.clearAll (s.reassembler.push ev now).1.takeUnmark.2
  unfold Agent.feedHttp1
  dsimp only
  split
  · exact ⟨hs,by simp⟩
  · next ev' hflush =>
    have hobserve : (if clientOnly then s.correlator.observeClient ev' now
        else s.correlator.observe ev' now) = s.correlator.observeInner ev' now clientOnly := by
      cases clientOnly <;> rfl
    obtain ⟨hcorr,hex⟩ := h.pending.observeInner (hflushed ev' hflush) now clientOnly fromTls
    rw [clearInflight_correlator,clearAll_correlator,hobserve]
    refine ⟨⟨?_,hcorr,?_⟩,fun p hp => ?_⟩
    · rw [clearInflight_reassembler]
      exact hs.bufs
    · rw [clearInflight_h2]
      exact hs.streams
    · obtain ⟨ex,hmem,rfl⟩ := List.mem_map.mp hp
      exact hex ex (Option.mem_toList.mp hmem)

theorem Sourced.ingest (h : s.Sourced P) {ev : SockIoEvent} {allowed : Bool}
    (hev : allowed = true → P ev) (fromTls clientOnly : Bool) (now : Instant) :
    (s.ingestHttpIo ev fromTls clientOnly now allowed).1.Sourced P ∧
      ∀ p ∈ (s.ingestHttpIo ev fromTls clientOnly now allowed).2.out, p.Traced P := by
  cases allowed with
  | false =>
    refine ⟨⟨?_,?_,?_⟩,by simp [Agent.ingestHttpIo]⟩
    · exact (clearInflight_reassembler _ _ _).symm ▸ h.bufs
    · exact (clearInflight_correlator _ _ _).symm ▸ h.pending
    · exact (clearInflight_h2 _ _ _).symm ▸ h.streams.dropConn ev.tgid ev.fd
  | true =>
    have hdemote := h.demote ev
    unfold Agent.ingestHttpIo
    simp only [Bool.not_true,Bool.false_eq_true,if_false]
    split
    · exact hdemote.feedH2 (hev rfl) clientOnly now
    · exact hdemote.feedHttp1 (hev rfl) fromTls clientOnly now

theorem Sourced.tick (h : s.Sourced P) (now : Instant) (isLive : UInt32 → Int32 → Bool) :
    (s.tick now isLive).1.Sourced P := by
  have hstale : H2Registry.Sourced P (s.h2.evictStale now) := FiniteMap.All.retain h.streams _
  have hclosed : H2Registry.Sourced P ((s.h2.evictStale now).evictClosed isLive) :=
    FiniteMap.All.retain hstale _
  have hevicted : ({s with
      reassembler := (s.reassembler.evictStale now).takeUnmark.1
      h2 := ((s.h2.evictStale now).evictClosed isLive).takeUnmark.1} : Agent).Sourced P :=
    ⟨h.bufs.retain _,h.pending,hclosed⟩
  exact hevicted.clearAll _

end Agent

theorem Timed.mono {Q : SockIoEvent → Prop} (hPQ : ∀ ev, P ev → Q ev) {tgid : UInt32} {fd : Int32}
    {dir : IoDir} {tsNs : ℕ} (h : Timed P tgid fd dir tsNs) : Timed Q tgid fd dir tsNs := by
  obtain ⟨ev,hev,hrest⟩ := h
  exact ⟨ev,hPQ ev hev,hrest⟩

theorem Begun.mono {Q : SockIoEvent → Prop} (hPQ : ∀ ev, P ev → Q ev) {tgid : UInt32} {fd : Int32}
    {dir : IoDir} {tsNs : ℕ} {bytes : List UInt8} (h : Begun P tgid fd dir tsNs bytes) :
    Begun Q tgid fd dir tsNs bytes := by
  obtain ⟨ev,hev,hrest⟩ := h
  exact ⟨ev,hPQ ev hev,hrest⟩

theorem Agent.Sourced.mono {Q : SockIoEvent → Prop} (hPQ : ∀ ev, P ev → Q ev) {s : Agent}
    (h : s.Sourced P) : s.Sourced Q where
  bufs k b hb := by
    obtain ⟨dir,hdir,hfirst,hlast⟩ := h.bufs k b hb
    exact ⟨dir,hdir,hfirst.mono hPQ,hlast.mono hPQ⟩
  pending k p hp := (h.pending k p hp).mono hPQ
  streams k c hc sid q hq := (h.streams k c hc sid q hq).mono hPQ

theorem Published.Traced.mono {Q : SockIoEvent → Prop} (hPQ : ∀ ev, P ev → Q ev) {p : Published}
    (h : p.Traced P) : p.Traced Q := by
  cases p with
  | http1 ex fromTls =>
    obtain ⟨dir,hstart,hend,hwrite⟩ := h
    exact ⟨dir,hstart.mono hPQ,hend.mono hPQ,hwrite⟩
  | http2 x =>
    obtain ⟨hstart,dir,hend⟩ := h
    exact ⟨hstart.mono hPQ,dir,hend.mono hPQ⟩

def DecodedEvent.IsIo (ev : DecodedEvent) (io : SockIoEvent) : Prop := ev = .io io ∨ ev = .tlsIo io

namespace EventLoop

variable {l : EventLoop}

theorem ingestIo_sourced (h : l.agent.Sourced P) (cfg : LoopConfig) (f : Found) {ev : SockIoEvent}
    {fromTls clientOnly : Bool}
    (hev : (l.ingestIo cfg f ev fromTls clientOnly).2.1 = .kept → P ev) :
    (l.ingestIo cfg f ev fromTls clientOnly).1.agent.Sourced P ∧
      ∀ p ∈ (l.ingestIo cfg f ev fromTls clientOnly).2.2, p.Traced P := by
  have hallowed : (l.secondCheck cfg f ev.tgid).2 = true → P ev := by
    intro hallow
    exact hev (if_pos hallow)
  unfold ingestIo
  dsimp only
  rw [foldl_publish]
  exact h.ingest hallowed fromTls clientOnly f.now

theorem dispatch_sourced (h : l.agent.Sourced P) (cfg : LoopConfig) (f : Found) {ev : DecodedEvent}
    (hev : ∀ io, ev.IsIo io → (l.dispatch cfg f ev).2.1 = .kept → P io) :
    (l.dispatch cfg f ev).1.agent.Sourced P ∧ ∀ p ∈ (l.dispatch cfg f ev).2.2, p.Traced P := by
  cases ev with
  | latency ev => exact ⟨h,by simp [dispatch]⟩
  | sockIoTimes ev => exact ⟨h,by simp [dispatch]⟩
  | tlsHandshake ev => exact ⟨h,by simp [dispatch]⟩
  | io ev =>
    exact ingestIo_sourced (l := {l with sockioCount := l.sockioCount + 1}) h cfg f
      (hev ev (.inl rfl))
  | tlsIo ev =>
    exact ingestIo_sourced (l := {l with tlsioCount := l.tlsioCount + 1}) h cfg f
      (hev ev (.inr rfl))

theorem handle_sourced (h : l.agent.Sourced P) (cfg : LoopConfig) (f : Found) {ev : DecodedEvent}
    (hev : ∀ io, ev.IsIo io → (l.handle cfg f ev).2.verdict = .kept → P io) :
    (l.handle cfg f ev).1.agent.Sourced P ∧ ∀ p ∈ (l.handle cfg f ev).2.published, p.Traced P := by
  have hlearn := l.learn_counts f ev
  unfold handle at hev ⊢
  dsimp only at hev ⊢
  rw [hlearn] at hev ⊢
  split
  · exact ⟨h,by simp⟩
  · exact ⟨⟨h.bufs,h.pending,h.streams⟩,by simp⟩
  · next hkeep =>
    simp only [hkeep] at hev
    exact dispatch_sourced (l := {l with
      bpfSelfIds := (l.learn f ev).bpfSelfIds
      commCache := (l.commCache.commPair ev.tgid ev.pid f.now f.names).1}) h cfg f hev

end EventLoop

/-- An I/O record is submitted by a captured process, and has the time of its own probe. -/
theorem Kernel.ProbeMaps.fire_io {m : ProbeMaps} {c : Caller} {room : Room} {kind : ProbeKind}
    {ev : SockIoEvent} (h : .io ev ∈ (m.fire c room kind).2) :
    captured c = true ∧ ev.tgid = c.tgid ∧ ev.tsNs = c.tsNs := by
  cases kind with
  | exitConnect ret =>
    simp only [fire,tryExitKind] at h
    split at h
    · cases h
    · rw [(emit_submits _ _ _ _ _ _ _).records] at h
      split_ifs at h <;> simp at h
  | exitAccept4 ret =>
    simp only [fire,tryExitAccept4] at h
    split at h
    · cases h
    · rw [(emit_submits _ _ _ _ _ _ _).records] at h
      split_ifs at h <;> simp at h
  | exitIo ret =>
    obtain ⟨p,m',-,hrecord⟩ := tryExitIo_record h
    split_ifs at hrecord
    · cases (emitTimes_record hrecord).2.2
    · obtain ⟨hc,-,raw,-,heq⟩ := emitIo_record hrecord
      cases heq
      exact ⟨hc,rfl,rfl⟩
  | exitSslIo isEx rax =>
    obtain ⟨ev',hev,heq⟩ := List.mem_map.mp h
    cases heq
    have hexit := Option.mem_toList.mp hev
    unfold Maps.tryExitSslPending at hexit
    split at hexit
    · cases hexit
    · dsimp only at hexit
      split at hexit
      · cases hexit
      · have hc := existingFdKeepIo_captured (emitIoKind_keeps hexit)
        obtain ⟨-,raw,-,rfl⟩ := emitIoKind_some hexit
        exact ⟨hc,rfl,rfl⟩
  | exitSslDoHandshake ret =>
    obtain ⟨ssl,start,fd,-,-,-,-,-,heq⟩ := tryExitSslDoHandshake_record h
    cases heq
  | _ => cases h

/-- A probe has submitted the record of this call, with the process captured and the clock of the
call, and the loop has kept it. -/
structure KeptIo (log : List SystemEvent) (ev : SockIoEvent) : Prop where
  submitted : ∃ c, .submitted c (.io ev) ∈ log ∧ ProbeMaps.captured c = true ∧ ev.tgid = c.tgid ∧
    ev.tsNs = c.tsNs
  drained : ∃ d, .drained d ∈ log ∧ d.verdict = .kept ∧ d.event.IsIo ev

theorem KeptIo.mono {log more : List SystemEvent} {ev : SockIoEvent} (h : KeptIo log ev) :
    KeptIo (log ++ more) ev := by
  obtain ⟨⟨c,hc,hrest⟩,d,hd,hkept⟩ := h
  exact ⟨⟨c,List.mem_append_left _ hc,hrest⟩,d,List.mem_append_left _ hd,hkept⟩

namespace System

structure Sourced (s : System) (log : List SystemEvent) : Prop where
  ring : ∀ bytes ∈ s.ring, ∃ r c, bytes = r.record ∧ r.Proper ∧ .submitted c r ∈ log
  probes : ∀ c ev, .submitted c (.io ev) ∈ log → ProbeMaps.captured c = true ∧ ev.tgid = c.tgid ∧
    ev.tsNs = c.tsNs
  agent : s.loop.agent.Sourced (KeptIo log)
  traced : ∀ d, .drained d ∈ log → ∀ p ∈ d.published, p.Traced (KeptIo log)

theorem sourced_start (cfg : LoopConfig) (files : SelfFiles) (initFails : Bool) (joinWindowNs : ℕ)
    (hub : ExportHub) : (System.start (.start cfg files initFails joinWindowNs hub)).Sourced [] :=
  ⟨by simp [System.start],by simp,⟨.empty,.empty,.empty⟩,by simp⟩

variable {s : System} {log : List SystemEvent}

theorem Sourced.probe (h : s.Sourced log) {c : Caller} {room : Room} {kind : ProbeKind}
    (hrange : (KernelStep.fire c room kind).InRange) :
    (s.probe c room kind).1.Sourced (log ++ (s.probe c room kind).2) where
  ring bytes hbytes := by
    rcases List.mem_append.mp hbytes with hbytes | hbytes
    · obtain ⟨r,c',hr,hproper,hlog⟩ := h.ring bytes hbytes
      exact ⟨r,c',hr,hproper,List.mem_append_left _ hlog⟩
    · obtain ⟨r,hr,rfl⟩ := List.mem_map.mp hbytes
      exact ⟨r,s.caller c,rfl,ProbeMaps.fire_proper hr hrange,
        List.mem_append_right _ (List.mem_map_of_mem hr)⟩
  probes c' ev hev := by
    rcases List.mem_append.mp hev with hev | hev
    · exact h.probes c' ev hev
    · obtain ⟨r,hr,heq⟩ := List.mem_map.mp hev
      cases heq
      exact ProbeMaps.fire_io hr
  agent := h.agent.mono fun _ hkept => hkept.mono
  traced d hd p hp := by
    rcases List.mem_append.mp hd with hd | hd
    · exact (h.traced d hd p hp).mono fun _ hkept => hkept.mono
    · obtain ⟨r,-,heq⟩ := List.mem_map.mp hd
      cases heq

theorem Sourced.drain (h : s.Sourced log) (cfg : LoopConfig) (f : Found) :
    (s.drain cfg f).1.Sourced (log ++ (s.drain cfg f).2) := by
  cases hring : s.ring with
  | nil =>
    rw [drain_nil hring,List.append_nil]
    exact h
  | cons bytes ring =>
    obtain ⟨r,c,rfl,hproper,hlog⟩ := h.ring bytes (hring ▸ List.mem_cons_self)
    let f' := {f with env := {f.env with sockMeta := s.kernel.sockMeta}}
    let q := s.attached.handle cfg f' r.decoded
    have hsome : s.drain cfg f = (detach {s with ring := ring} q.1,[.drained q.2]) :=
      drain_record hring hproper
    have hevent : q.2.event = r.decoded := (s.attached.handle_counts cfg f' r.decoded).1
    have hdrained : SystemEvent.drained q.2 ∈ log ++ [SystemEvent.drained q.2] :=
      List.mem_append_right _ (List.mem_singleton_self _)
    -- what the loop keeps now is the record that it has taken
    have hkept : ∀ io, r.decoded.IsIo io → q.2.verdict = .kept →
        KeptIo (log ++ [SystemEvent.drained q.2]) io := by
      intro io hio hverdict
      have hr : r = .io io := by
        cases r with
        | io ev =>
          simp only [RingEvent.decoded] at hio
          split_ifs at hio <;> rcases hio with hio | hio <;> cases hio <;> rfl
        | _ => rcases hio with hio | hio <;> cases hio
      subst hr
      exact ⟨⟨c,List.mem_append_left _ hlog,h.probes c io hlog⟩,q.2,hdrained,hverdict,hevent ▸ hio⟩
    have hagent : s.attached.agent.Sourced (KeptIo (log ++ [SystemEvent.drained q.2])) :=
      Agent.Sourced.mono (fun _ hk => hk.mono) ⟨h.agent.bufs,h.agent.pending,h.agent.streams⟩
    obtain ⟨hnext,hout⟩ := EventLoop.handle_sourced hagent cfg f' hkept
    rw [hsome]
    refine ⟨fun b hb => ?_,fun c' ev hev => ?_,hnext,fun d hd p hp => ?_⟩
    · obtain ⟨r',c',hr',hproper',hlog'⟩ := h.ring b (hring ▸ .tail _ hb)
      exact ⟨r',c',hr',hproper',List.mem_append_left _ hlog'⟩
    · rcases List.mem_append.mp hev with hev | hev
      · exact h.probes c' ev hev
      · cases List.mem_singleton.mp hev
    · rcases List.mem_append.mp hd with hd | hd
      · exact (h.traced d hd p hp).mono fun _ hk => hk.mono
      · cases List.mem_singleton.mp hd
        exact hout p hp

theorem Sourced.step (h : s.Sourced log) (cfg : LoopConfig) {e : SystemStep} (he : e.InRange) :
    (s.step cfg e).1.Sourced (log ++ (s.step cfg e).2) := by
  cases e with
  | probe c room kind => exact h.probe he
  | drain f => exact h.drain cfg f
  | tick t =>
    simp only [System.step,List.append_nil]
    have hagent : s.attached.agent.Sourced (KeptIo log) :=
      ⟨h.agent.bufs,h.agent.pending,h.agent.streams⟩
    exact ⟨h.ring,h.probes,hagent.tick _ _,h.traced⟩
  | sweep files proc faults =>
    simp only [System.step,List.append_nil]
    exact ⟨h.ring,h.probes,h.agent,h.traced⟩

end System

/-- Whatever the order of probes, drains, ticks and sweeps: both ends of every exchange that the loop
publishes, HTTP/1.1 or HTTP/2, are calls on its socket whose records captured probes have submitted
and the loop has kept, and its times are the clocks of these probes.  The octets of an HTTP/1.1
request start with those of the call. -/
theorem published_exchanges_traced (cfg : LoopConfig) (files : SelfFiles) (initFails : Bool)
    (joinWindowNs : ℕ) (hub : ExportHub) (es : List SystemStep) (hes : ∀ e ∈ es, e.InRange) :
    let log := Machine.outputs (System.step cfg)
      (System.start (.start cfg files initFails joinWindowNs hub)) es
    ∀ d, .drained d ∈ log → ∀ p ∈ d.published, p.Traced (KeptIo log) := by
  intro log
  have h : (Machine.final (System.step cfg) _ es).Sourced log :=
    Machine.final_log_of_forall (System.step cfg) (I := System.Sourced)
      (fun h he => h.step cfg he) (System.sourced_start cfg files initFails joinWindowNs hub) hes
  exact h.traced

/-- The second record completes an exchange. -/
theorem published_exchanges_traced_request :
    let log := Machine.outputs (System.step plainConfig)
      (System.start (.start plainConfig ⟨none,[]⟩ false 0 (.start false 1 0 none))) exchangeSteps
    (log.filterMap SystemEvent.taken).map (fun d => d.published.length) = [0,1] ∧
      ∀ d, .drained d ∈ log → ∀ p ∈ d.published, p.Traced (KeptIo log) := by
  exact ⟨by decide +kernel,
    published_exchanges_traced plainConfig _ _ _ _ exchangeSteps exchangeSteps_inRange⟩

end ObsAgent
