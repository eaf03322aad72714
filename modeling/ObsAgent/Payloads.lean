import ObsAgent.Chunking
import ObsAgent.Interference
import ObsAgent.Opaque

/-! Skipped payloads are opaque, unless the protocol detectors read them: they look at the
first octets of every chunk, wherever in a frame the chunk begins. -/
namespace ObsAgent

open Kernel Http1 H2

def SockIoEvent.withBuf (ev : SockIoEvent) (other : PrefixBuf) : SockIoEvent :=
  {ev with prefixBuf := other}

@[simp] theorem SockIoEvent.withBuf_tgid (ev : SockIoEvent) (other : PrefixBuf) :
    (ev.withBuf other).tgid = ev.tgid := rfl

@[simp] theorem SockIoEvent.withBuf_fd (ev : SockIoEvent) (other : PrefixBuf) :
    (ev.withBuf other).fd = ev.fd := rfl

@[simp] theorem SockIoEvent.withBuf_dir (ev : SockIoEvent) (other : PrefixBuf) :
    (ev.withBuf other).dir = ev.dir := rfl

@[simp] theorem SockIoEvent.withBuf_ret (ev : SockIoEvent) (other : PrefixBuf) :
    (ev.withBuf other).ret = ev.ret := rfl

@[simp] theorem SockIoEvent.withBuf_tsNs (ev : SockIoEvent) (other : PrefixBuf) :
    (ev.withBuf other).tsNs = ev.tsNs := rfl

@[simp] theorem SockIoEvent.withBuf_cgroupId (ev : SockIoEvent) (other : PrefixBuf) :
    (ev.withBuf other).cgroupId = ev.cgroupId := rfl

@[simp] theorem SockIoEvent.withBuf_plen (ev : SockIoEvent) (other : PrefixBuf) :
    (ev.withBuf other).plen = ev.plen := by
  simp [SockIoEvent.plen,SockIoEvent.withBuf]

namespace H2

/-- What is seen of octets, at their places. -/
abbrev Masks (m : List (Option UInt8)) (b : List UInt8) : Prop :=
  List.Forall₂ (fun o x => ∀ y ∈ o, y = x) m b

theorem masks_some (b : List UInt8) : Masks (b.map some) b := by
  induction b with
  | nil => exact .nil
  | cons x b ih => exact .cons (by simp) ih

theorem masks_none (b : List UInt8) : Masks (List.replicate b.length none) b := by
  induction b with
  | nil => exact .nil
  | cons x b ih => exact .cons (by simp) ih

theorem masks_append {m m' : List (Option UInt8)} {b b' : List UInt8} (h : Masks m b)
    (h' : Masks m' b') : Masks (m ++ m') (b ++ b') := List.rel_append h h'

section

variable (hides : FrameHeader → Bool)

theorem masks_showFrame (hdr : FrameHeader) (b : List UInt8) :
    Masks (showFrame hides hdr b) (b.take hdr.totalLen) := by
  have htotal := hdr.headerLen_le_totalLen
  rw [showFrame]
  split_ifs
  · have hsplit : b.take hdr.totalLen = b.take headerLen ++ (b.take hdr.totalLen).drop headerLen := by
      conv_lhs => rw [← List.take_append_drop headerLen (b.take hdr.totalLen)]
      rw [List.take_take,Nat.min_eq_left htotal]
    have hsize : min b.length hdr.totalLen - headerLen =
        ((b.take hdr.totalLen).drop headerLen).length := by
      simp only [List.length_drop,List.length_take]
      omega
    rw [hsplit,hsize]
    exact masks_append (masks_some _) (masks_none _)
  · exact masks_some _

theorem masks_showFrames (b : List UInt8) : Masks (showFrames hides b) b := by
  induction hn : b.length using Nat.strong_induction_on generalizing b with
  | _ n ih =>
    by_cases hp : prefaceHeader b = true
    · rw [showFrames_all (Or.inl hp)]
      exact masks_some b
    cases hparse : FrameHeader.parse b with
    | none =>
      rw [showFrames_all (Or.inr hparse)]
      exact masks_some b
    | some hdr =>
      have hlen := FrameHeader.length_of_parse hparse
      have htotal := hdr.headerLen_le_totalLen
      simp only [headerLen] at hlen htotal
      have hrest := ih (b.drop hdr.totalLen).length (by simp; omega) _ rfl
      rw [showFrames_some (by simpa using hp) hparse]
      have hall := masks_append (masks_showFrame hides hdr b) hrest
      rwa [List.take_append_drop] at hall

theorem masks_showStream (b : List UInt8) : Masks (showStream hides b) b := by
  rw [showStream]
  split_ifs with hstart
  · obtain ⟨rest,rfl⟩ := startsWith_iff.mp hstart
    rw [List.drop_left]
    exact masks_append (masks_some _) (masks_showFrames hides rest)
  · exact masks_showFrames hides b

end

theorem eq_of_masks {m : List (Option UInt8)} {b : List UInt8} (h : Masks m b)
    (hall : m.all Option.isSome = true) : m = b.map some := by
  induction h with
  | nil => rfl
  | @cons o x m b hx _ ih =>
    simp only [List.all_cons,Bool.and_eq_true] at hall
    obtain ⟨y,hy⟩ := Option.isSome_iff_exists.mp hall.1
    rw [ih hall.2,List.map_cons,hy,hx y hy]

/-- The first `n` octets of a chunk are seen. -/
def DirPipe.clear (p : DirPipe) (chunk : List UInt8) (n : ℕ) : Bool :=
  p.skip = 0 && (((p.shown chunk).drop p.leftover.length).take n).all Option.isSome

theorem take_of_clear {p : DirPipe} {chunk chunk' : List UInt8} {n : ℕ}
    (h : p.SeesSame chunk chunk') (hclear : p.clear chunk n = true) :
    chunk.take n = chunk'.take n := by
  simp only [DirPipe.clear,Bool.and_eq_true,decide_eq_true_eq] at hclear
  obtain ⟨hskip,hall⟩ := hclear
  have hmask : ∀ u : List UInt8, p.shown u = p.shown chunk →
      ((p.shown chunk).drop p.leftover.length).take n = (u.take n).map some := fun u hu => by
    refine eq_of_masks ?_ hall
    have hbuf : p.shown u = showStream skipPayload (p.leftover ++ u) := by simp [DirPipe.shown,hskip]
    have hmasks := List.forall₂_take n
      (List.forall₂_drop p.leftover.length (masks_showStream skipPayload (p.leftover ++ u)))
    rwa [List.drop_left,← hbuf,hu] at hmasks
  exact map_some_inj ((hmask chunk rfl).symm.trans (hmask chunk' h.symm))

/-- The detectors do not read skipped payload: a chunk that looks like HTTP/1.1 shows the octets
of a frame header, and one with the preface is at a frame boundary or shows all it has. -/
def DirPipe.Unmistaken (p : DirPipe) (chunk : List UInt8) : Prop :=
  (looksLikeHttp11 chunk = true → p.clear chunk headerLen = true) ∧
  (startsWith chunk clientPreface = true →
    p.skip = 0 ∧ p.leftover = [] ∨ p.clear chunk chunk.length = true)

instance (p : DirPipe) (chunk : List UInt8) : Decidable (p.Unmistaken chunk) :=
  inferInstanceAs (Decidable (_ ∧ _))

def magicTokens : List (List UInt8) :=
  [octets "GET ",octets "POST ",octets "PUT ",octets "HEAD ",octets "DELETE ",octets "OPTIONS ",
    octets "PATCH ",octets "HTTP/",octets "PRI "]

theorem httpMagic_eq_any (src : List UInt8) (len : ℕ) :
    httpMagic src len = magicTokens.any (startsWith (src.take (min len src.length))) := by
  simp only [httpMagic,magicTokens,List.any_cons,List.any_nil,Bool.or_false,Bool.or_assoc]

theorem magicTokens_length : ∀ token ∈ magicTokens, token.length ≤ headerLen := by decide +kernel

theorem looksLikeHttp11_congr {b b' : List UInt8} (hlen : b.length = b'.length)
    (h : b.take headerLen = b'.take headerLen) : looksLikeHttp11 b = looksLikeHttp11 b' := by
  have hframe : looksLikeFrame b = looksLikeFrame b' := by
    rw [looksLikeFrame,looksLikeFrame,parse_congr h]
  have htake : ∀ n, (b.take n).take headerLen = (b'.take n).take headerLen := fun n => by
    rw [List.take_take,Nat.min_comm,← List.take_take,h,List.take_take,Nat.min_comm,
      ← List.take_take]
  have hmagic : httpMagic b (min b.length (2^16 - 1)) = httpMagic b' (min b'.length (2^16 - 1)) := by
    rw [httpMagic_eq_any,httpMagic_eq_any,← hlen]
    rw [Bool.eq_iff_iff,List.any_eq_true,List.any_eq_true]
    refine exists_congr fun token => and_congr_right fun htoken => ?_
    rw [startsWith_congr (htake _) (magicTokens_length token htoken)]
  simp only [looksLikeHttp11]
  rw [startsWith_congr h (by decide +kernel),hframe,hmagic]

section Detect

variable {p : DirPipe} {chunk chunk' : List UInt8}

theorem http11_seen (h : p.SeesSame chunk chunk') (hu : p.Unmistaken chunk)
    (hu' : p.Unmistaken chunk') : looksLikeHttp11 chunk = looksLikeHttp11 chunk' := by
  have hone : ∀ {a b : List UInt8}, p.SeesSame a b → p.Unmistaken a → looksLikeHttp11 a = true →
      looksLikeHttp11 a = looksLikeHttp11 b := fun hab ha htrue =>
    looksLikeHttp11_congr hab.length (take_of_clear hab (ha.1 htrue))
  cases hc : looksLikeHttp11 chunk with
  | true => rw [← hone h hu hc,hc]
  | false =>
    cases hc' : looksLikeHttp11 chunk' with
    | true => rw [← hc',hone h.symm hu' hc',hc]
    | false => rfl

/-- A chunk with the preface meets one with the preface, seen the same by a new connection. -/
theorem preface_seen (h : p.SeesSame chunk chunk') (hu : p.Unmistaken chunk)
    (hstart : startsWith chunk clientPreface = true) :
    startsWith chunk' clientPreface = true ∧ DirPipe.new.SeesSame chunk chunk' := by
  rcases hu.2 hstart with ⟨hskip,hleft⟩ | hclear
  · have hbuf : showStream skipPayload chunk = showStream skipPayload chunk' := by
      simpa [DirPipe.SeesSame,DirPipe.shown,hskip,hleft] using h
    exact ⟨start_of_seen hbuf hstart,seesSame_of_buffer rfl hbuf⟩
  · have hsame := take_of_clear h hclear
    rw [List.take_length,List.take_of_length_le h.length.ge] at hsame
    subst hsame
    exact ⟨hstart,rfl⟩

theorem startsWith_preface_seen (h : p.SeesSame chunk chunk') (hu : p.Unmistaken chunk)
    (hu' : p.Unmistaken chunk') :
    startsWith chunk clientPreface = startsWith chunk' clientPreface := by
  cases hc : startsWith chunk clientPreface with
  | true => exact (preface_seen h hu hc).1.symm
  | false =>
    cases hc' : startsWith chunk' clientPreface with
    | true => exact hc.symm.trans (preface_seen h.symm hu' hc').1
    | false => rfl

theorem looksLikePreface_plain {b : List UInt8}
    (h : waitingPreface b = false ∧ startsWith b clientPreface = false) :
    looksLikePreface b = false := by
  rw [looksLikePreface]
  split_ifs with hnil hlen
  · rfl
  · exact h.2
  · have hwait := h.1
    simp only [waitingPreface,show b.length < clientPreface.length by omega,decide_true,
      Bool.and_true] at hwait
    rw [Bool.and_comm]
    exact hwait

theorem looksLikeH2_seen (h : DirPipe.new.SeesSame chunk chunk') :
    looksLikeH2 chunk = looksLikeH2 chunk' := by
  have hbuf : showStream skipPayload chunk = showStream skipPayload chunk' := by
    simpa [DirPipe.SeesSame,DirPipe.shown,DirPipe.new] using h
  rcases showStream_inv hbuf with rfl | ⟨s,s',rfl,rfl,-⟩ | ⟨hb,hb',hs⟩
  · rfl
  · rw [looksLikeH2_of_preface (startsWith_self _ _),looksLikeH2_of_preface (startsWith_self _ _)]
  · have hhead : chunk.take headerLen = chunk'.take headerLen := (seen_heads hbuf).2.1
    rw [looksLikeH2,looksLikeH2,looksLikePreface_plain hb,looksLikePreface_plain hb',looksLikeFrame,
      looksLikeFrame,parse_congr hhead]

theorem looksLikeH2_of_http11 (h : looksLikeHttp11 chunk = true) : looksLikeH2 chunk = false := by
  simp only [looksLikeHttp11] at h
  split_ifs at h with hno
  simp only [Bool.or_eq_true,not_or,Bool.not_eq_true] at hno
  rw [looksLikeH2,hno.2,Bool.or_false]
  refine looksLikePreface_plain ⟨?_,?_⟩ <;> rw [Bool.eq_false_iff] <;> intro hp
  · simp only [waitingPreface,Bool.and_eq_true] at hp
    have hlead := List.prefix_iff_eq_take.mp (startsWith_iff.mp hp.2)
    have hthree : 3 ≤ chunk.length := (startsWith_iff.mp hp.1.1).length_le
    rcases Nat.lt_or_ge 3 chunk.length with hlong | hshort
    · have hfour : startsWith chunk (octets "PRI ") = true := by
        rw [startsWith_iff,hlead]
        exact (show octets "PRI " = clientPreface.take 4 by decide +kernel) ▸
          List.take_prefix_take_left hlong
      simp [hfour] at hno
    · have hexact : chunk = clientPreface.take 3 := by
        rw [hlead,show chunk.length = 3 by omega]
      rw [hexact] at h
      exact absurd h (by decide +kernel)
  · have hfour : octets "PRI " <+: clientPreface :=
      (show octets "PRI " = clientPreface.take 4 by decide +kernel) ▸ List.take_prefix _ _
    simp [startsWith_iff.mpr (hfour.trans (startsWith_iff.mp hp))] at hno

end Detect

/-- The pipe that reads the chunk of an event, that of a new connection if there is none. -/
def H2Registry.reader (r : H2Registry) (ev : SockIoEvent) : DirPipe :=
  match IoDir.fromU8 ev.dir, r.conns.get ev.connKey with
  | some dir, some conn => conn.pipe dir
  | _, _ => DirPipe.new

theorem feedConn_agrees (r : H2Registry) (key : ConnKey) {conn : H2Conn} {dir : IoDir}
    {ev : SockIoEvent} {other : PrefixBuf} {now : Instant} (clientOnly : Bool)
    (h : Agrees
      (pushBytes {conn with atTime := now} dir
        (ev.withBuf other).chunk ev.tsNs)
      (pushBytes {conn with atTime := now} dir ev.chunk ev.tsNs)) :
    r.feedConn key conn dir (ev.withBuf other) now clientOnly =
      r.feedConn key conn dir ev now clientOnly := by
  have hemitted := h.emitted
  simp only [H2Registry.feedConn,SockIoEvent.withBuf_tgid,SockIoEvent.withBuf_fd,
    SockIoEvent.withBuf_tsNs,SockIoEvent.withBuf_cgroupId,hemitted]
  cases hend : (pushBytes {conn with atTime := now} dir ev.chunk ev.tsNs).2.outcome.halted with
  | true =>
    have hend' : ((pushBytes {conn with atTime := now} dir ev.chunk ev.tsNs).2.outcome.goaway ||
        (pushBytes {conn with atTime := now} dir ev.chunk ev.tsNs).2.outcome.desync) = true := hend
    simp only [hend',if_true]
  | false => rw [h.conn hend]

theorem push_seen {conn : H2Conn} (hconn : conn.Bounded) {dir : IoDir} {src src' : List UInt8}
    (h : (conn.pipe dir).SeesSame src src') (now : Instant) (ts : ℕ) :
    Agrees (pushBytes {conn with atTime := now} dir src' ts)
      (pushBytes {conn with atTime := now} dir src ts) := by
  have hpipe : ({conn with atTime := now} : H2Conn).pipe dir = conn.pipe dir := by cases dir <;> rfl
  have hseen : (({conn with atTime := now} : H2Conn).pipe dir).SeesSame (src ++ []) (src' ++ []) := by
    rwa [List.append_nil,List.append_nil,hpipe]
  exact (pushLoop_seen ((hconn.atTime now).pipes dir) h.length hseen ts .empty).1

section Feed

variable {r : H2Registry} {ev : SockIoEvent} {other : PrefixBuf}

theorem seesSame_known {dir : IoDir} {conn : H2Conn} (hdir : IoDir.fromU8 ev.dir = some dir)
    (hconn : (r.forget ev.connKey ev.chunk).conns.get ev.connKey = some conn)
    (h : (r.reader ev).SeesSame ev.chunk (ev.withBuf other).chunk) :
    r.conns.get ev.connKey = some conn ∧
      (conn.pipe dir).SeesSame ev.chunk (ev.withBuf other).chunk := by
  have hheld : r.conns.get ev.connKey = some conn := by
    have hget := get_forget_self r ev.connKey ev.chunk
    rw [hconn] at hget
    split_ifs at hget
    exact hget.symm
  have hreader : r.reader ev = conn.pipe dir := by simp only [H2Registry.reader,hdir,hheld]
  rw [hreader] at h
  exact ⟨hheld,h⟩

theorem seesSame_unknown {dir : IoDir} (hdir : IoDir.fromU8 ev.dir = some dir)
    (hconn : (r.forget ev.connKey ev.chunk).conns.get ev.connKey = none)
    (h : (r.reader ev).SeesSame ev.chunk (ev.withBuf other).chunk)
    (hu : (r.reader ev).Unmistaken ev.chunk) :
    DirPipe.new.SeesSame ev.chunk (ev.withBuf other).chunk := by
  cases hstart : startsWith ev.chunk clientPreface with
  | true => exact (preface_seen h hu hstart).2
  | false =>
    have hnone : r.conns.get ev.connKey = none := by
      have hget := get_forget_self r ev.connKey ev.chunk
      rw [hconn,hstart] at hget
      exact hget.symm
    have hreader : r.reader ev = DirPipe.new := by simp only [H2Registry.reader,hdir,hnone]
    rwa [hreader] at h

theorem feed_seen (hr : r.Bounded)
    (h : (r.reader ev).SeesSame ev.chunk (ev.withBuf other).chunk)
    (hu : (r.reader ev).Unmistaken ev.chunk)
    (hu' : (r.reader ev).Unmistaken (ev.withBuf other).chunk)
    (now : Instant) (clientOnly : Bool) :
    r.feed (ev.withBuf other) now clientOnly = r.feed ev now clientOnly := by
  have hforget : r.forget ⟨ev.tgid,ev.fd⟩ (ev.withBuf other).chunk =
      r.forget ⟨ev.tgid,ev.fd⟩ ev.chunk := by
    rw [H2Registry.forget,H2Registry.forget,startsWith_preface_seen h hu hu']
  cases hdir : IoDir.fromU8 ev.dir with
  | none => simp only [H2Registry.feed,SockIoEvent.withBuf_dir,hdir]
  | some dir =>
    by_cases hgo : ev.ret < 0 ∨ ev.plen = 0
    · simp only [H2Registry.feed,SockIoEvent.withBuf_dir,SockIoEvent.withBuf_ret,
        SockIoEvent.withBuf_plen,hdir,if_pos hgo]
    simp only [H2Registry.feed,SockIoEvent.withBuf_tgid,SockIoEvent.withBuf_fd,
      SockIoEvent.withBuf_dir,SockIoEvent.withBuf_ret,SockIoEvent.withBuf_plen,hdir,if_neg hgo,
      hforget]
    cases hconn : (r.forget ⟨ev.tgid,ev.fd⟩ ev.chunk).conns.get ⟨ev.tgid,ev.fd⟩ with
    | some conn =>
      obtain ⟨hheld,hsees⟩ := seesSame_known hdir hconn h
      exact feedConn_agrees _ _ _ (push_seen (hr.conns _ _ hheld) hsees now ev.tsNs)
    | none =>
      have hnew := seesSame_unknown hdir hconn h hu
      have hagree : Agrees (pushBytes {H2Conn.new now with atTime := now} dir _ ev.tsNs)
          (pushBytes {H2Conn.new now with atTime := now} dir ev.chunk ev.tsNs) :=
        push_seen (bounded_newConn now) ((H2Conn.pipe_new now dir).symm ▸ hnew) now ev.tsNs
      simp only [← looksLikeH2_seen hnew,feedConn_agrees _ _ _ hagree]

end Feed

/-- What a step does to the registry, and the exchanges it gives. -/
def H2Registry.ingest (r : H2Registry) (ev : SockIoEvent) (clientOnly : Bool) (now : Instant)
    (allowed : Bool) : H2Registry × List H2Exchange :=
  if !allowed then (r.dropConn ev.tgid ev.fd,[])
  else
    let d := if r.isMarked ev.tgid ev.fd && looksLikeHttp11 ev.chunk then
      (r.dropConn ev.tgid ev.fd).takeUnmark.1 else r
    if d.isMarked ev.tgid ev.fd || looksLikeH2 ev.chunk then
      let q := d.feed ev now clientOnly
      (q.1.takeUnmark.1,q.2.out)
    else (d,[])

theorem isMarked_dropConn (r : H2Registry) (tgid : UInt32) (fd : Int32) :
    (r.dropConn tgid fd).takeUnmark.1.isMarked tgid fd = false := by
  have hnone := Agent.get_dropConn r ⟨tgid,fd⟩ ⟨tgid,fd⟩
  rw [if_pos rfl] at hnone
  simp only [H2Registry.isMarked,FiniteMap.contains,Agent.conns_takeUnmark]
  exact congrArg Option.isSome hnone

/-- A call leaves the registry, and gives the exchanges, that it would with other octets in the
payloads that are skipped. -/
theorem ingest_seen {r : H2Registry} {ev : SockIoEvent} {other : PrefixBuf} (hr : r.Bounded)
    (h : (r.reader ev).SeesSame ev.chunk (ev.withBuf other).chunk)
    (hu : (r.reader ev).Unmistaken ev.chunk)
    (hu' : (r.reader ev).Unmistaken (ev.withBuf other).chunk)
    (clientOnly : Bool) (now : Instant) (allowed : Bool) :
    r.ingest (ev.withBuf other) clientOnly now allowed =
      r.ingest ev clientOnly now allowed := by
  have h11 := http11_seen h hu hu'
  simp only [H2Registry.ingest,SockIoEvent.withBuf_tgid,SockIoEvent.withBuf_fd,← h11]
  by_cases hdeny : (!allowed) = true
  · rw [if_pos hdeny,if_pos hdeny]
  rw [if_neg hdeny,if_neg hdeny]
  by_cases hgone : (r.isMarked ev.tgid ev.fd && looksLikeHttp11 ev.chunk) = true
  · have hlooks : looksLikeHttp11 ev.chunk = true := by
      simp only [Bool.and_eq_true] at hgone
      exact hgone.2
    simp only [if_pos hgone,isMarked_dropConn,looksLikeH2_of_http11 hlooks,
      looksLikeH2_of_http11 (h11 ▸ hlooks)]
    rfl
  · have hroute : (r.isMarked ev.tgid ev.fd || looksLikeH2 (ev.withBuf other).chunk) =
        (r.isMarked ev.tgid ev.fd || looksLikeH2 ev.chunk) := by
      cases hmarked : r.isMarked ev.tgid ev.fd with
      | true => rfl
      | false =>
        have hnone : r.conns.get ev.connKey = none := by
          simpa [H2Registry.isMarked,FiniteMap.contains,SockIoEvent.connKey] using hmarked
        have hreader : r.reader ev = DirPipe.new := by
          simp only [H2Registry.reader,hnone]
          split <;> simp_all
        rw [hreader] at h
        rw [looksLikeH2_seen h]
    simp only [if_neg hgone,hroute,feed_seen hr h hu hu']

end H2

/-- A chunk that is all payload of a skipped frame leaves the connection, with less to skip. -/
theorem ingest_skipped {r : H2Registry} (hr : r.Bounded) {ev : SockIoEvent} {dir : IoDir}
    {conn : H2Conn} (hdir : IoDir.fromU8 ev.dir = some dir) (hret : 0 ≤ ev.ret)
    (hlen : 0 < ev.plen) (hconn : r.conns.get ev.connKey = some conn)
    (hle : ev.plen ≤ (conn.pipe dir).skip) (hu : (conn.pipe dir).Unmistaken ev.chunk)
    (clientOnly : Bool) (now : Instant) :
    (r.ingest ev clientOnly now true).1.conns.get ev.connKey =
      some (setBuf {conn with atTime := now} dir [] ((conn.pipe dir).skip - ev.plen)) := by
  have hpipe : ({conn with atTime := now} : H2Conn).pipe dir = conn.pipe dir := by cases dir <;> rfl
  have hskip : (conn.pipe dir).skip ≠ 0 := by omega
  have hclear : ∀ n, (conn.pipe dir).clear ev.chunk n = false := fun n => by
    simp [DirPipe.clear,hskip]
  have hplain : looksLikeHttp11 ev.chunk = false := by
    rw [Bool.eq_false_iff]
    exact fun hlooks => by simpa [hclear] using hu.1 hlooks
  have hstart : startsWith ev.chunk clientPreface = false := by
    rw [Bool.eq_false_iff]
    exact fun hstart => by simpa [hclear,hskip] using hu.2 hstart
  have hempty := ((hr.conns _ _ hconn).pipes dir).skipping (Nat.pos_of_ne_zero hskip)
  have hbuf : {conn with atTime := now} =
      setBuf {conn with atTime := now} dir [] (conn.pipe dir).skip := by
    rw [← setPipe_of_buf (p := conn.pipe dir) (by rw [hpipe,← hempty]),← hpipe,H2Conn.setPipe_pipe]
  have hpush : pushBytes {conn with atTime := now} dir ev.chunk ev.tsNs =
      (setBuf {conn with atTime := now} dir [] ((conn.pipe dir).skip - ev.plen),.empty) := by
    rw [pushBytes,hbuf,pushLoop_skipped _ _ _ _ (List.length_pos_iff.mp (by simpa using hlen))
      (by simpa using hle),setBuf_setBuf,ev.chunk_length]
  have hmarked : r.isMarked ev.tgid ev.fd = true := congrArg Option.isSome hconn
  have hfeed := H2Registry.feed_known hdir hret (Nat.ne_of_gt hlen) hstart hconn now clientOnly
  have hingest : r.ingest ev clientOnly now true =
      ((r.feed ev now clientOnly).1.takeUnmark.1,(r.feed ev now clientOnly).2.out) := by
    simp [H2Registry.ingest,hplain,hmarked]
  have hself := congrArg Prod.fst (feedConn_self r conn dir ev now clientOnly)
  simp only [Socket.pushConn,hpush] at hself
  rw [hingest,hfeed]
  exact hself

def Published.http2Exchange : Published → Option H2Exchange
  | .http1 _ _ => none
  | .http2 x => some x

namespace Agent

section Ingest

variable (s : Agent) (ev : SockIoEvent) (fromTls clientOnly : Bool) (now : Instant)

theorem demote_h2 :
    (s.demote ev).1.h2 = if s.h2.isMarked ev.tgid ev.fd && looksLikeHttp11 ev.chunk then
      (s.h2.dropConn ev.tgid ev.fd).takeUnmark.1 else s.h2 := by
  rw [demote]
  split_ifs
  · exact clearAll_h2 _ _
  · rfl

theorem feedHttp1_h2 : (s.feedHttp1 ev fromTls clientOnly now).1.h2 = s.h2 ∧
    (s.feedHttp1 ev fromTls clientOnly now).2.out.filterMap Published.http2Exchange = [] := by
  rw [feedHttp1]
  cases (s.reassembler.push ev now).2 with
  | none => exact ⟨clearAll_h2 _ _,rfl⟩
  | some whole =>
    refine ⟨by simp,?_⟩
    rw [List.filterMap_eq_nil_iff]
    intro x hx
    obtain ⟨ex,-,rfl⟩ := List.mem_map.mp hx
    rfl

theorem ingestHttpIo_h2 (allowed : Bool) :
    (s.ingestHttpIo ev fromTls clientOnly now allowed).1.h2 =
        (s.h2.ingest ev clientOnly now allowed).1 ∧
      (s.ingestHttpIo ev fromTls clientOnly now allowed).2.out.filterMap Published.http2Exchange =
        (s.h2.ingest ev clientOnly now allowed).2 := by
  cases allowed with
  | false => simp [ingestHttpIo,H2Registry.ingest]
  | true =>
    simp only [ingestHttpIo,H2Registry.ingest,← demote_h2,Bool.not_true,Bool.false_eq_true,if_false]
    split_ifs
    · simp only [feedH2,clearAll_h2,List.filterMap_map,true_and]
      exact List.filterMap_some
    · exact (s.demote ev).1.feedHttp1_h2 ev fromTls clientOnly now

end Ingest

theorem bounded_ingest {r : H2Registry} (hr : r.Bounded) (ev : SockIoEvent) (clientOnly : Bool)
    (now : Instant) (allowed : Bool) : (r.ingest ev clientOnly now allowed).1.Bounded := by
  have hdrop := hr.dropConn ev.tgid ev.fd
  have hdemoted : (if r.isMarked ev.tgid ev.fd && looksLikeHttp11 ev.chunk then
      (r.dropConn ev.tgid ev.fd).takeUnmark.1 else r).Bounded := by
    split_ifs
    · exact ⟨hdrop.few,hdrop.conns⟩
    · exact hr
  simp only [H2Registry.ingest]
  generalize (if r.isMarked ev.tgid ev.fd && looksLikeHttp11 ev.chunk then
    (r.dropConn ev.tgid ev.fd).takeUnmark.1 else r) = d at hdemoted ⊢
  have hfed := hdemoted.feed ev now clientOnly
  split_ifs
  · exact hdrop
  · exact ⟨hfed.few,hfed.conns⟩
  · exact hdemoted

theorem bounded_step {s : Agent} (h : s.h2.Bounded) (e : AgentStep) : (s.step e).1.h2.Bounded := by
  cases e with
  | io ev fromTls clientOnly now allowed =>
    rw [step,(s.ingestHttpIo_h2 ev fromTls clientOnly now allowed).1]
    exact bounded_ingest h ev clientOnly now allowed
  | tick now isLive =>
    simp only [step,tick,clearAll_h2]
    have hkept := (h.retain fun _ c => decide (durationSince now c.atTime ≤ timeout)).retain
      fun k _ => isLive k.tgid k.fd
    exact ⟨hkept.few,hkept.conns⟩

theorem bounded_final (steps : List AgentStep) : (Machine.final publish .start steps).h2.Bounded :=
  Machine.final_invariant publish (I := fun s => s.h2.Bounded) (fun e h => bounded_step h e)
    bounded_default steps

end Agent

end ObsAgent
