import ObsAgent.Machine
import ObsAgent.SpanStatus

/-! Interim responses.  Both planes end an exchange at the first response behind the request: the
correlator at the first chunk that starts like a status line, a stream at the first block with a
status.  What the status is plays no part. -/
namespace ObsAgent

/-- A response as an observer of the exchange sees it: its status and its timestamp. -/
abbrev Seen := Option ℕ × ℕ

/-- Any number of interim responses and then a final one. -/
structure InterimsThenFinal (responses : List Seen) (interims : List (ℕ × ℕ)) (final : ℕ × ℕ) :
    Prop where
  responses : responses = (interims ++ [final]).map fun r => (some r.1,r.2)
  interim : ∀ r ∈ interims, 100 ≤ r.1 ∧ r.1 < 200
  final : 200 ≤ final.1

theorem InterimsThenFinal.first_final_iff {responses : List Seen} {interims : List (ℕ × ℕ)}
    {final : ℕ × ℕ} (h : InterimsThenFinal responses interims final) :
    responses.take 1 = [(some final.1,final.2)] ↔ interims = [] := by
  rw [h.responses]
  cases interims with
  | nil => simp
  | cons r rs =>
    have hr := h.interim r (by simp)
    have hf := h.final
    refine iff_of_false ?_ (by simp)
    simp only [List.cons_append,List.map_cons,List.take_succ_cons,List.take_zero,List.cons.injEq,
      Prod.mk.injEq,Option.some.injEq,and_true]
    rintro ⟨he,-⟩
    omega

namespace Http1

def Correlator.call (c : Correlator) (q : ObserveCall) : Correlator × List Exchange :=
  ((c.observeInner q.ev q.now q.clientOnly).1,(c.observeInner q.ev q.now q.clientOnly).2.toList)

/-- The status that an exchange of the socket is published with, and its end. -/
def shownOn (httparse : HttpParse) (k : SockKey) (x : Exchange) : Option Seen :=
  if (⟨x.tgid,x.fd⟩ : SockKey) = k then some ((httparse.response x.respPrefix).join,x.tEndNs)
  else none

def Correlator.exchangesOn (c : Correlator) (httparse : HttpParse) (k : SockKey)
    (calls : List ObserveCall) : List Seen :=
  (Machine.outputs Correlator.call c calls).filterMap (shownOn httparse k)

/-- The calls on the socket as responses. -/
def readOn (httparse : HttpParse) (k : SockKey) (q : ObserveCall) : Option Seen :=
  if q.key = k then some ((httparse.response q.ev.chunk).join,q.ev.tsNs) else none

/-- The calls on the request's socket are responses in the other direction, the first of them within
the timeout. -/
structure Replies (req : ObserveCall) (d : IoDir) (calls : List ObserveCall) : Prop where
  responses : ∀ q ∈ calls, q.key = req.key → q.IsResponse d.flip
  sorted : calls.Pairwise fun a b => a.now ≤ b.now
  timely : ∀ q ∈ (calls.filter fun q => q.key = req.key).head?,
    durationSince q.now req.now ≤ timeout
  answered : (calls.filter fun q => q.key = req.key) ≠ []

structure Waits (req : ObserveCall) (d : IoDir) (calls : List ObserveCall) (c : Correlator) : Prop
    extends Replies req d calls where
  pending : c.states.get req.key = some ⟨d,req.ev.tsNs,req.ev.chunk,req.now,req.ev.cgroupId⟩

/-- Nothing waits on the socket, and only responses come. -/
structure Idle (k : SockKey) (d : IoDir) (calls : List ObserveCall) (c : Correlator) : Prop where
  pending : c.states.get k = none
  responses : ∀ q ∈ calls, q.key = k → q.IsResponse d

theorem call_key {c : Correlator} {q : ObserveCall} {x : Exchange} (h : x ∈ (c.call q).2) :
    (⟨x.tgid,x.fd⟩ : SockKey) = q.key := by
  have hx : (c.observeInner q.ev q.now q.clientOnly).2 = some x := by simpa [Correlator.call] using h
  cases hd : IoDir.fromU8 q.ev.dir with
  | none => simp [Correlator.observeInner,hd] at hx
  | some d =>
    rw [c.observeInner_reply _ _ hd] at hx
    obtain ⟨p,-,hp⟩ := Option.bind_eq_some_iff.mp hx
    split_ifs at hp
    cases hp
    rfl

theorem shown_other {c : Correlator} {q : ObserveCall} {k : SockKey} (hk : q.key ≠ k)
    (httparse : HttpParse) : (c.call q).2.filterMap (shownOn httparse k) = [] := by
  rw [List.filterMap_eq_nil_iff]
  intro x hx
  rw [shownOn,if_neg (call_key hx ▸ hk)]

theorem accepted_response {q : ObserveCall} {d : IoDir} (h : q.IsResponse d) :
    accepted q.ev q.now q.clientOnly d = none := by
  have hnot := not_request_of_response h.2.2.1
  rw [accepted,if_neg (by simp [hnot])]

theorem Idle.call {k : SockKey} {d : IoDir} {q : ObserveCall} {calls : List ObserveCall}
    {c : Correlator} (h : Idle k d (q :: calls) c) (httparse : HttpParse) :
    Idle k d calls (c.call q).1 ∧ (c.call q).2.filterMap (shownOn httparse k) = [] := by
  have hwaiting : c.waiting k q.now = none := by rw [Correlator.waiting,h.pending]; rfl
  have hrest : ∀ r ∈ calls, r.key = k → r.IsResponse d := fun r hr => h.responses r (by simp [hr])
  by_cases hk : q.key = k
  · have hresp := h.responses q (by simp) hk
    refine ⟨⟨?_,hrest⟩,?_⟩
    · exact hk ▸ (c.observeInner_self q.now q.clientOnly hresp.1).trans (accepted_response hresp)
    · have hreply := c.observeInner_reply q.now q.clientOnly hresp.1
      have hnone : c.waiting (.fromEvent q.ev) q.now = none := by
        have hkey : SockKey.fromEvent q.ev = k := hk
        rw [hkey,hwaiting]
      rw [hnone] at hreply
      simp [Correlator.call,hreply]
  · refine ⟨⟨?_,hrest⟩,shown_other hk httparse⟩
    exact (c.observeInner_other q.now q.clientOnly (Or.inl (Ne.symm hk))).trans hwaiting

theorem Waits.other {req : ObserveCall} {d : IoDir} {q : ObserveCall} {calls : List ObserveCall}
    {c : Correlator} (h : Waits req d (q :: calls) c) (hk : q.key ≠ req.key) :
    Waits req d calls (c.call q).1 := by
  obtain ⟨⟨hresp,hsorted,htimely,hanswered⟩,hpending⟩ := h
  rw [List.filter_cons_of_neg (by simpa using hk)] at htimely hanswered
  refine ⟨⟨fun r hr => hresp r (by simp [hr]),hsorted.of_cons,htimely,hanswered⟩,?_⟩
  obtain ⟨first,more,hfirst⟩ := List.exists_cons_of_ne_nil hanswered
  have hmem : first ∈ calls := (List.mem_filter.mp (hfirst ▸ List.mem_cons_self)).1
  have hle : q.now ≤ first.now := List.rel_of_pairwise_cons hsorted hmem
  have hfresh : durationSince q.now req.now ≤ timeout :=
    (Nat.sub_le_sub_right hle _).trans (htimely first (by simp [hfirst]))
  refine (c.observeInner_other q.now q.clientOnly (Or.inl (Ne.symm hk))).trans ?_
  rw [Correlator.waiting,hpending,Option.filter_some,if_pos (by simpa using hfresh)]

theorem Waits.answer {req : ObserveCall} {d : IoDir} {q : ObserveCall} {calls : List ObserveCall}
    {c : Correlator} (h : Waits req d (q :: calls) c) (hk : q.key = req.key) (httparse : HttpParse) :
    Idle req.key d.flip calls (c.call q).1 ∧ (c.call q).2.filterMap (shownOn httparse req.key) =
      [((httparse.response q.ev.chunk).join,q.ev.tsNs)] := by
  obtain ⟨⟨hresp,-,htimely,-⟩,hpending⟩ := h
  have hq := hresp q (by simp) hk
  have hfresh : durationSince q.now req.now ≤ timeout := htimely q (by simp [hk])
  refine ⟨⟨?_,fun r hr => hresp r (by simp [hr])⟩,?_⟩
  · exact hk ▸ (c.observeInner_self q.now q.clientOnly hq.1).trans (accepted_response hq)
  · have hreply := c.observeInner_reply q.now q.clientOnly hq.1
    have hwaiting : c.waiting (.fromEvent q.ev) q.now =
        some ⟨d,req.ev.tsNs,req.ev.chunk,req.now,req.ev.cgroupId⟩ := by
      have hkey : SockKey.fromEvent q.ev = req.key := hk
      rw [hkey,Correlator.waiting,hpending,Option.filter_some,if_pos (by simpa using hfresh)]
    rw [hwaiting,Option.bind_some,
      if_pos ⟨opposite_iff.mpr ⟨rfl,hq.2.2.2⟩,hq.2.1,hq.2.2.1⟩] at hreply
    have hshown : shownOn httparse req.key (joinedWith
        ⟨d,req.ev.tsNs,req.ev.chunk,req.now,req.ev.cgroupId⟩ q.ev) =
          some ((httparse.response q.ev.chunk).join,q.ev.tsNs) := if_pos hk
    simp [Correlator.call,hreply,hshown]

theorem call_request {c : Correlator} {req : ObserveCall} {d : IoDir} (h : req.IsRequest d)
    (httparse : HttpParse) :
    (c.call req).1.states.get req.key =
        some ⟨d,req.ev.tsNs,req.ev.chunk,req.now,req.ev.cgroupId⟩ ∧
      (c.call req).2.filterMap (shownOn httparse req.key) = [] := by
  constructor
  · refine (c.observeInner_self req.now req.clientOnly h.1).trans ?_
    rw [accepted,if_pos h.2]
  · have hreply := c.observeInner_reply req.now req.clientOnly h.1
    have hnot : ∀ p, ¬ completes p req.ev req.clientOnly d := fun p hp => by
      have hreq := h.2.2.1
      rw [not_request_of_response hp.2.2] at hreq
      simp at hreq
    simp only [hnot,if_false,Option.bind_fun_none] at hreply
    simp [Correlator.call,hreply]

/-- The first response, whatever its status, makes the exchange. -/
theorem shown_first {req : ObserveCall} {d : IoDir} {calls : List ObserveCall}
    (hreq : req.IsRequest d) (h : Replies req d calls) (c : Correlator) (httparse : HttpParse) :
    c.exchangesOn httparse req.key (req :: calls) =
      (calls.filterMap (readOn httparse req.key)).take 1 := by
  obtain ⟨hpending,hquiet⟩ := call_request (c := c) hreq httparse
  rw [Correlator.exchangesOn,Machine.outputs,List.filterMap_append,hquiet,List.nil_append,
    ← Machine.seen_of_input Correlator.call (readOn httparse req.key) (c.call req).1]
  refine Machine.outputs_once Correlator.call (W := Waits req d) (I := Idle req.key d.flip)
    (fun hidle => hidle.call httparse) ?_ ?_ ⟨h,hpending⟩
  · intro q calls c hw hread
    have hk : q.key ≠ req.key := fun hk => by simp [readOn,hk] at hread
    exact ⟨hw.other hk,shown_other hk httparse⟩
  · intro q calls c seen hw hread
    rw [readOn] at hread
    split_ifs at hread with hk
    obtain rfl := Option.some.inj hread
    exact hw.answer hk httparse

end Http1

namespace H2

/-- A call of `on_header_block`. -/
structure BlockCall where
  dir : IoDir
  streamId : ℕ
  frag : List UInt8
  tsNs : ℕ

def H2Conn.block (c : H2Conn) (b : BlockCall) : H2Conn × List H2Exchange :=
  ((onHeaderBlock c b.dir b.streamId b.frag b.tsNs).1,
    (onHeaderBlock c b.dir b.streamId b.frag b.tsNs).2.out)

def BlockCall.decoded (b : BlockCall) (c : H2Conn) : Option Hpack.Pseudo :=
  if b.streamId = 0 then none else ((c.pipe b.dir).decoder.decodeBlock b.frag).2

def shownOn (sid : ℕ) (x : H2Exchange) : Option Seen :=
  if x.streamId = sid then some (some x.status,x.tEndNs) else none

def H2Conn.exchangesOn (c : H2Conn) (sid : ℕ) (blocks : List BlockCall) : List Seen :=
  (Machine.outputs H2Conn.block c blocks).filterMap (shownOn sid)

/-- The blocks of the stream as responses. -/
def readOn (sid : ℕ) (c : H2Conn) (b : BlockCall) : Option Seen :=
  if b.streamId = sid then some ((b.decoded c).bind Hpack.Pseudo.status,b.tsNs) else none

theorem block_eq (c : H2Conn) (b : BlockCall) :
    (c.block b).1.streams = (b.decoded c).elim c.streams (fun p =>
        (pairBlock c.streams b.dir b.streamId p b.tsNs).1) ∧
      (c.block b).2 = (b.decoded c).elim [] fun p =>
        (pairBlock c.streams b.dir b.streamId p b.tsNs).2.out := by
  simp only [H2Conn.block,BlockCall.decoded,onHeaderBlock]
  split_ifs with h0
  · exact ⟨rfl,rfl⟩
  · rcases (c.pipe b.dir).decoder.decodeBlock b.frag with ⟨decoder,_ | p⟩
    · exact ⟨H2Conn.streams_setPipe _ _ _,rfl⟩
    · exact ⟨rfl,rfl⟩

theorem pairBlock_other (streams : Streams) (dir : IoDir) {sid k : ℕ} (p : Hpack.Pseudo) (ts : ℕ)
    (h : sid ≠ k) : (pairBlock streams dir sid p ts).1.get k = streams.get k ∧
      (pairBlock streams dir sid p ts).2.out.filterMap (shownOn k) = [] := by
  simp only [pairBlock]
  repeat' split
  all_goals simp [FiniteMap.get_put,FiniteMap.get_remove,shownOn,h,h.symm]

theorem block_other {c : H2Conn} {b : BlockCall} {sid : ℕ} (h : b.streamId ≠ sid) :
    (c.block b).1.streams.get sid = c.streams.get sid ∧
      (c.block b).2.filterMap (shownOn sid) = [] := by
  obtain ⟨hstreams,hout⟩ := block_eq c b
  rw [hstreams,hout]
  cases b.decoded c with
  | none => exact ⟨rfl,rfl⟩
  | some p => exact pairBlock_other c.streams b.dir p b.tsNs h

/-- A block with a status takes the request that waits. -/
theorem block_status {c : H2Conn} {b : BlockCall} {status : ℕ}
    (h : (b.decoded c).bind Hpack.Pseudo.status = some status) :
    (c.block b).1.streams.get b.streamId = none ∧
      (c.streams.get b.streamId = none → (c.block b).2.filterMap (shownOn b.streamId) = []) ∧
      ∀ pending, c.streams.get b.streamId = some pending → pending.path ≠ "" →
        (c.block b).2.filterMap (shownOn b.streamId) = [(some status,b.tsNs)] := by
  obtain ⟨hstreams,hout⟩ := block_eq c b
  obtain ⟨p,hp,hstatus⟩ := Option.bind_eq_some_iff.mp h
  rw [hstreams,hout,hp]
  simp only [Option.elim_some,pairBlock,hstatus]
  refine ⟨?_,?_,?_⟩
  · cases c.streams.get b.streamId with
    | none => simp
    | some pending =>
      dsimp only
      split_ifs <;> simp
  · intro hnone
    simp [hnone]
  · intro pending hpending hpath
    simp [hpending,hpath,shownOn]

/-- Every block of the stream that is still to come has a status. -/
def Statuses (sid : ℕ) (blocks : List BlockCall) (c : H2Conn) : Prop :=
  ∀ r ∈ Machine.seen H2Conn.block (readOn sid) c blocks, r.1.isSome

theorem Statuses.next {sid : ℕ} {b : BlockCall} {blocks : List BlockCall} {c : H2Conn}
    (h : Statuses sid (b :: blocks) c) : Statuses sid blocks (c.block b).1 ∧
      (b.streamId = sid → ∃ status, (b.decoded c).bind Hpack.Pseudo.status = some status) := by
  refine ⟨fun r hr => h r (List.mem_append_right _ hr),fun hsid => ?_⟩
  exact Option.isSome_iff_exists.mp
    (h ((b.decoded c).bind Hpack.Pseudo.status,b.tsNs) (List.mem_append_left _ (by simp [readOn,hsid])))

def Waits (sid : ℕ) (blocks : List BlockCall) (c : H2Conn) : Prop :=
  Statuses sid blocks c ∧ ∃ pending, c.streams.get sid = some pending ∧ pending.path ≠ ""

def Idle (sid : ℕ) (blocks : List BlockCall) (c : H2Conn) : Prop :=
  Statuses sid blocks c ∧ c.streams.get sid = none

theorem Idle.block {sid : ℕ} {b : BlockCall} {blocks : List BlockCall} {c : H2Conn}
    (h : Idle sid (b :: blocks) c) :
    Idle sid blocks (c.block b).1 ∧ (c.block b).2.filterMap (shownOn sid) = [] := by
  obtain ⟨hrest,hstatus⟩ := h.1.next
  by_cases hsid : b.streamId = sid
  · obtain ⟨status,hdec⟩ := hstatus hsid
    obtain ⟨hgone,hsilent,-⟩ := block_status hdec
    rw [hsid] at hgone hsilent
    exact ⟨⟨hrest,hgone⟩,hsilent h.2⟩
  · obtain ⟨hget,hsilent⟩ := block_other (c := c) hsid
    exact ⟨⟨hrest,hget.trans h.2⟩,hsilent⟩

/-- A request that the connection takes up: method, path, no status, and room for its stream. -/
def BlockCall.IsRequest (b : BlockCall) (c : H2Conn) : Prop :=
  ∃ p method path, b.decoded c = some p ∧ p.status = none ∧ p.method = some method ∧
    p.path = some path ∧ path ≠ "" ∧
    (c.streams.len < maxStreams ∨ c.streams.contains b.streamId = true)

theorem block_request {c : H2Conn} {b : BlockCall} (h : b.IsRequest c) :
    (∃ pending, (c.block b).1.streams.get b.streamId = some pending ∧ pending.path ≠ "") ∧
      (c.block b).2.filterMap (shownOn b.streamId) = [] := by
  obtain ⟨p,method,path,hp,hstatus,hmethod,hpath,hne,hroom⟩ := h
  obtain ⟨hstreams,hout⟩ := block_eq c b
  rw [hstreams,hout,hp]
  have hroom' : ¬ (c.streams.len ≥ maxStreams ∧ ¬ c.streams.contains b.streamId = true) := by
    rcases hroom with hlen | hin
    · exact fun hbad => absurd hbad.1 (Nat.not_le.mpr hlen)
    · exact fun hbad => hbad.2 hin
  have hfilter : p.path.filter (fun p => decide (p ≠ "")) = some path := by
    rw [hpath,Option.filter_some,if_pos (by simpa using hne)]
  simp only [Option.elim_some,pairBlock,hstatus,hmethod,hfilter,if_neg hroom']
  exact ⟨⟨⟨method,path,b.tsNs,b.dir⟩,FiniteMap.get_put_self _ _ _,hne⟩,rfl⟩

theorem shown_first {c : H2Conn} {req : BlockCall} {blocks : List BlockCall}
    (hreq : req.IsRequest c) (h : Statuses req.streamId blocks (c.block req).1) :
    c.exchangesOn req.streamId (req :: blocks) =
      (Machine.seen H2Conn.block (readOn req.streamId) (c.block req).1 blocks).take 1 := by
  obtain ⟨hpending,hquiet⟩ := block_request hreq
  rw [H2Conn.exchangesOn,Machine.outputs,List.filterMap_append,hquiet,List.nil_append]
  refine Machine.outputs_once H2Conn.block (W := Waits req.streamId) (I := Idle req.streamId)
    Idle.block ?_ ?_ ⟨h,hpending⟩
  · intro b blocks c hw hread
    have hsid : b.streamId ≠ req.streamId := fun hsid => by simp [readOn,hsid] at hread
    obtain ⟨hget,hsilent⟩ := block_other (c := c) hsid
    exact ⟨⟨hw.1.next.1,hget ▸ hw.2⟩,hsilent⟩
  · intro b blocks c seen hw hread
    obtain ⟨hrest,hstatus⟩ := hw.1.next
    rw [readOn] at hread
    split_ifs at hread with hsid
    obtain rfl := Option.some.inj hread
    obtain ⟨status,hdec⟩ := hstatus hsid
    obtain ⟨hgone,-,hanswer⟩ := block_status hdec
    obtain ⟨pending,hget,hpath⟩ := hw.2
    rw [hsid] at hgone hanswer
    exact ⟨⟨hrest,hgone⟩,hdec ▸ hanswer pending hget hpath⟩

end H2

/-- On either plane a request gets one exchange, which carries the status and the end of the first
response behind it: those of the final response just when there is no interim one. -/
theorem first_response_ends_exchange (httparse : HttpParse) (cor : Http1.Correlator)
    (req : Http1.ObserveCall) (d : IoDir) (calls : List Http1.ObserveCall) (c : H2.H2Conn)
    (block : H2.BlockCall) (blocks : List H2.BlockCall) (interims interims' : List (ℕ × ℕ))
    (final final' : ℕ × ℕ) (hreq : req.IsRequest d) (hreplies : Http1.Replies req d calls)
    (hfinal : InterimsThenFinal (calls.filterMap (Http1.readOn httparse req.key)) interims final)
    (hblock : block.IsRequest c)
    (hfinal' : InterimsThenFinal (Machine.seen H2.H2Conn.block (H2.readOn block.streamId)
      (c.block block).1 blocks) interims' final') :
    (cor.exchangesOn httparse req.key (req :: calls) =
        ((interims ++ [final]).take 1).map (fun r => (some r.1,r.2)) ∧
      (cor.exchangesOn httparse req.key (req :: calls) = [(some final.1,final.2)] ↔
        interims = [])) ∧
    (c.exchangesOn block.streamId (block :: blocks) =
        ((interims' ++ [final']).take 1).map (fun r => (some r.1,r.2)) ∧
      (c.exchangesOn block.streamId (block :: blocks) = [(some final'.1,final'.2)] ↔
        interims' = [])) := by
  have hstatuses : H2.Statuses block.streamId blocks (c.block block).1 := by
    intro r hr
    rw [hfinal'.responses] at hr
    obtain ⟨r,-,rfl⟩ := List.mem_map.mp hr
    rfl
  refine ⟨?_,?_⟩
  · rw [Http1.shown_first hreq hreplies cor httparse]
    exact ⟨by rw [hfinal.responses,List.map_take],hfinal.first_final_iff⟩
  · rw [H2.shown_first hblock hstatuses]
    exact ⟨by rw [hfinal'.responses,List.map_take],hfinal'.first_final_iff⟩

/-- A call on one socket at its timestamp. -/
def dialogueCall (dir : IoDir) (text : String) (ts : ℕ) : Http1.ObserveCall :=
  ⟨someSocket.moved dir (octets text) ts,ts,false⟩

def twoStatuses : HttpParse where
  request _ := none
  response b := some (some (if startsWith b (octets "HTTP/1.1 100") then 100 else 200))

theorem first_response_ends_exchange_continue :
    Http1.Correlator.default.exchangesOn twoStatuses ⟨42,3⟩
        [dialogueCall .write "GET / HTTP/1.1" 1,dialogueCall .read "HTTP/1.1 100 Continue" 2,
          dialogueCall .read "HTTP/1.1 200 OK" 3] = [(some 100,2)] ∧
      (H2.H2Conn.new 0).exchangesOn 1 [⟨.write,1,[0x82,0x84],1⟩,⟨.read,1,[0x88],2⟩] =
        [(some 200,2)] := by
  have hreq : (dialogueCall .write "GET / HTTP/1.1" 1).IsRequest .write := by
    unfold Http1.ObserveCall.IsRequest
    decide +kernel
  have hreplies : Http1.Replies (dialogueCall .write "GET / HTTP/1.1" 1) .write
      [dialogueCall .read "HTTP/1.1 100 Continue" 2,dialogueCall .read "HTTP/1.1 200 OK" 3] := by
    refine ⟨?_,?_,?_,?_⟩
    · unfold Http1.ObserveCall.IsResponse
      decide +kernel
    · decide +kernel
    · decide +kernel
    · decide +kernel
  have hblock : H2.BlockCall.IsRequest ⟨.write,1,[0x82,0x84],1⟩ (.new 0) :=
    ⟨⟨some "GET",some "/",none,none⟩,"GET","/",by decide +kernel,rfl,rfl,rfl,by decide,
      Or.inl (by decide +kernel)⟩
  have h := first_response_ends_exchange twoStatuses .default _ .write _ (.new 0)
    ⟨.write,1,[0x82,0x84],1⟩ [⟨.read,1,[0x88],2⟩] [(100,2)] [] (200,3) (200,2) hreq hreplies
    ⟨by decide +kernel,by decide,by decide⟩ hblock ⟨by decide +kernel,by decide,by decide⟩
  exact ⟨h.1.1,h.2.1⟩

/-- A call with an interim answer: the exchange that comes out has the status 100. -/
theorem interim_response_taken_for_final :
    (Machine.outputs Http1.Correlator.call .default
        [dialogueCall .write "GET / HTTP/1.1" 1,dialogueCall .read "HTTP/1.1 100 Continue" 2,
          dialogueCall .read "HTTP/1.1 200 OK" 3]).map (fun x => (x.respPrefix,x.tEndNs)) =
        [(octets "HTTP/1.1 100 Continue",2)] ∧
      (Machine.outputs H2.H2Conn.block (.new 0)
        [⟨.write,1,[0x82,0x84],1⟩,⟨.read,1,[0x08,3,0x31,0x30,0x30],2⟩,⟨.read,1,[0x88],3⟩]).map
          (fun x => (x.status,x.tEndNs)) = [(100,2)] := by
  decide +kernel

end ObsAgent
