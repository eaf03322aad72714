import ObsAgent.Common
import ObsAgent.FiniteMap
import ObsAgent.LastWrite

/-! The HTTP/1.1 correlator: one pending request per socket, answered by the next call on
the socket or dropped by it. -/
namespace ObsAgent
namespace Http1

open LastWrite

structure SockKey where
  tgid : UInt32
  fd : Int32
  deriving DecidableEq

def SockKey.fromEvent (ev : SockIoEvent) : SockKey := ⟨ev.tgid,ev.fd⟩

/-- Network-order port, four or sixteen address octets. -/
structure PeerAddr where
  family : UInt8
  dportBe : UInt16
  daddr : List.Vector UInt8 16
  deriving DecidableEq

structure Pending where
  dir : IoDir
  tsNs : ℕ
  prefixBytes : List UInt8
  atTime : Instant
  cgroupId : ℕ

structure Exchange where
  tgid : UInt32
  fd : Int32
  reqPrefix : List UInt8
  respPrefix : List UInt8
  tStartNs : ℕ
  tEndNs : ℕ
  peer : Option PeerAddr
  reqIsWrite : Bool
  cgroupId : ℕ
  deriving DecidableEq

def looksLikeRequest (b : List UInt8) : Bool :=
  startsWith b (octets "GET ") || startsWith b (octets "POST ") || startsWith b (octets "PUT ") ||
    startsWith b (octets "HEAD ") || startsWith b (octets "DELETE ") ||
    startsWith b (octets "OPTIONS ") || startsWith b (octets "PATCH ")

def looksLikeResponse (b : List UInt8) : Bool := startsWith b (octets "HTTP/")

structure Correlator where
  states : FiniteMap SockKey Pending

namespace Correlator

def default : Correlator := ⟨∅⟩

def evictStale (c : Correlator) (now : Instant) : Correlator :=
  ⟨c.states.retain fun _ s => durationSince now s.atTime ≤ timeout⟩

/-- Which pairs of directions make an exchange. -/
def opposite (clientOnly : Bool) : IoDir → IoDir → Bool
  | .write, .read => true
  | .read, .write => !clientOnly
  | _, _ => false

def observeInner (c : Correlator) (ev : SockIoEvent) (now : Instant) (clientOnly : Bool) :
    Correlator × Option Exchange :=
  let c := c.evictStale now
  match IoDir.fromU8 ev.dir with
  | none => (c,none)
  | some dir =>
    let key := SockKey.fromEvent ev
    let rest := c.states.remove key
    let fresh : Pending := ⟨dir,ev.tsNs,ev.chunk,now,ev.cgroupId⟩
    match c.states.get key with
    | none =>
      if ev.ret < 0 ∨ ev.plen = 0 ∨ ¬ looksLikeRequest ev.chunk then (⟨rest⟩,none)
      else if clientOnly ∧ dir ≠ .write then (⟨rest⟩,none)
      else (⟨rest.put key fresh⟩,none)
    | some pending =>
      if ¬ opposite clientOnly pending.dir dir ∨ ev.ret < 0 ∨ ¬ looksLikeResponse ev.chunk then
        if 0 ≤ ev.ret ∧ looksLikeRequest ev.chunk ∧ (¬ clientOnly ∨ dir = .write) then
          (⟨rest.put key fresh⟩,none)
        else (⟨rest⟩,none)
      else
        (⟨rest⟩,some {
          tgid := key.tgid
          fd := key.fd
          reqPrefix := pending.prefixBytes
          respPrefix := ev.chunk
          tStartNs := pending.tsNs
          tEndNs := ev.tsNs
          peer := none
          reqIsWrite := pending.dir = .write
          cgroupId := pending.cgroupId })

def observe (c : Correlator) (ev : SockIoEvent) (now : Instant) : Correlator × Option Exchange :=
  c.observeInner ev now false

def observeClient (c : Correlator) (ev : SockIoEvent) (now : Instant) :
    Correlator × Option Exchange :=
  c.observeInner ev now true

end Correlator

theorem not_request_of_response {b : List UInt8} (h : looksLikeResponse b = true) :
    looksLikeRequest b = false := by
  have hfirst : ∀ token, 2 ≤ token.length → token.take 2 ≠ (octets "HTTP/").take 2 →
      startsWith b token = false := by
    intro token hlen hne
    rw [Bool.eq_false_iff]
    exact fun ht => hne (take_eq_of_startsWith ht h 2 hlen (by decide +kernel))
  simp only [looksLikeRequest,Bool.or_eq_false_iff]
  exact ⟨⟨⟨⟨⟨⟨hfirst _ (by decide +kernel) (by decide +kernel),
    hfirst _ (by decide +kernel) (by decide +kernel)⟩,
    hfirst _ (by decide +kernel) (by decide +kernel)⟩,
    hfirst _ (by decide +kernel) (by decide +kernel)⟩,
    hfirst _ (by decide +kernel) (by decide +kernel)⟩,
    hfirst _ (by decide +kernel) (by decide +kernel)⟩,
    hfirst _ (by decide +kernel) (by decide +kernel)⟩

theorem plen_of_request {ev : SockIoEvent} (h : looksLikeRequest ev.chunk = true) : ev.plen ≠ 0 := by
  intro hzero
  have hempty : ev.chunk = [] := List.length_eq_zero_iff.mp (by rw [ev.chunk_length,hzero])
  rw [hempty] at h
  revert h
  decide +kernel

/-- The pending request an event leaves, if it is one that is accepted. -/
def accepted (ev : SockIoEvent) (now : Instant) (clientOnly : Bool) (dir : IoDir) :
    Option Pending :=
  if 0 ≤ ev.ret ∧ looksLikeRequest ev.chunk ∧ (clientOnly = true → dir = .write) then
    some ⟨dir,ev.tsNs,ev.chunk,now,ev.cgroupId⟩
  else none

def joinedWith (p : Pending) (ev : SockIoEvent) : Exchange where
  tgid := ev.tgid
  fd := ev.fd
  reqPrefix := p.prefixBytes
  respPrefix := ev.chunk
  tStartNs := p.tsNs
  tEndNs := ev.tsNs
  peer := none
  reqIsWrite := p.dir = .write
  cgroupId := p.cgroupId

/-- Whether an event in direction `dir` answers a pending request. -/
def completes (p : Pending) (ev : SockIoEvent) (clientOnly : Bool) (dir : IoDir) : Prop :=
  Correlator.opposite clientOnly p.dir dir ∧ 0 ≤ ev.ret ∧ looksLikeResponse ev.chunk

instance (p : Pending) (ev : SockIoEvent) (clientOnly : Bool) (dir : IoDir) :
    Decidable (completes p ev clientOnly dir) := inferInstanceAs (Decidable (_ ∧ _))

namespace Correlator

def waiting (c : Correlator) (k : SockKey) (now : Instant) : Option Pending :=
  (c.states.get k).filter fun s => durationSince now s.atTime ≤ timeout

@[simp] theorem get_evictStale (c : Correlator) (now : Instant) (k : SockKey) :
    (c.evictStale now).states.get k = c.waiting k now := by
  simp only [evictStale,waiting,FiniteMap.get_retain]

section

variable (c : Correlator) {ev : SockIoEvent} (now : Instant) (clientOnly : Bool) {dir : IoDir}

theorem observeInner_other {k : SockKey} (h : k ≠ .fromEvent ev ∨ IoDir.fromU8 ev.dir = none) :
    (c.observeInner ev now clientOnly).1.states.get k = c.waiting k now := by
  simp only [observeInner]
  cases hdir : IoDir.fromU8 ev.dir with
  | none => simp
  | some dir =>
    have hk : k ≠ .fromEvent ev := h.resolve_right (by simp [hdir])
    dsimp only
    split <;> split_ifs <;> simp [FiniteMap.get_put,FiniteMap.get_remove,hk]

/-- A call with a direction replaces whatever waits on its socket. -/
theorem observeInner_self (hdir : IoDir.fromU8 ev.dir = some dir) :
    (c.observeInner ev now clientOnly).1.states.get (.fromEvent ev) =
      accepted ev now clientOnly dir := by
  simp only [observeInner,hdir,get_evictStale,accepted]
  by_cases hok : 0 ≤ ev.ret ∧ looksLikeRequest ev.chunk ∧ (clientOnly = true → dir = .write)
  · have hresp : looksLikeResponse ev.chunk = false := Bool.eq_false_iff.mpr fun h => by
      simp [not_request_of_response h] at hok
    have hclient : ¬ clientOnly = true ∨ dir = .write := by
      cases clientOnly <;> simp_all
    rw [if_pos hok]
    cases c.waiting (.fromEvent ev) now with
    | none =>
      have hlen := plen_of_request hok.2.1
      dsimp only
      rw [if_neg (by simp [hok.1,hok.2.1,hlen]),if_neg (by tauto),FiniteMap.get_put_self]
    | some p =>
      dsimp only
      rw [if_pos (by simp [hresp]),if_pos ⟨hok.1,hok.2.1,hclient⟩,FiniteMap.get_put_self]
  · rw [if_neg hok]
    cases c.waiting (.fromEvent ev) now with
    | none =>
      dsimp only
      split_ifs with hbad hno
      · simp
      · simp
      · exact absurd ⟨by omega,by tauto,by tauto⟩ hok
    | some p =>
      dsimp only
      split_ifs with hnot hreq
      · exact absurd ⟨hreq.1,hreq.2.1,by tauto⟩ hok
      · simp
      · simp

theorem observeInner_reply (hdir : IoDir.fromU8 ev.dir = some dir) :
    (c.observeInner ev now clientOnly).2 =
      (c.waiting (.fromEvent ev) now).bind fun p =>
        if completes p ev clientOnly dir then some (joinedWith p ev) else none := by
  simp only [observeInner,hdir,get_evictStale]
  cases c.waiting (.fromEvent ev) now with
  | none =>
    dsimp only
    split_ifs <;> rfl
  | some p =>
    have hnot : ¬ opposite clientOnly p.dir dir ∨ ev.ret < 0 ∨ ¬ looksLikeResponse ev.chunk ↔
        ¬ completes p ev clientOnly dir := by
      simp only [completes,not_and_or,Int.not_le]
    simp only [Option.bind_some,hnot,ite_not]
    split_ifs <;> rfl

end

end Correlator

structure ObserveCall where
  ev : SockIoEvent
  now : Instant
  clientOnly : Bool

namespace ObserveCall

def key (q : ObserveCall) : SockKey := .fromEvent q.ev

def dir (q : ObserveCall) : Option IoDir := IoDir.fromU8 q.ev.dir

/-- What a call does to the request that waits on a socket. -/
def effect (k : SockKey) (q : ObserveCall) : Effect Pending :=
  match q.dir with
  | some d =>
    if q.key = k then
      match accepted q.ev q.now q.clientOnly d with
      | some p => .write p
      | none => .clear
    else .keep
  | none => .keep

end ObserveCall

def Correlator.observeAll (c : Correlator) : List ObserveCall → List (Option Exchange)
  | [] => []
  | q :: qs =>
    let s := c.observeInner q.ev q.now q.clientOnly
    s.2 :: s.1.observeAll qs

/-- The correlator against the calls so far: what waits is what the last call on the socket
left, unless it has become stale. -/
def Follows (c : Correlator) (past : List ObserveCall) (now : Instant) : Prop :=
  ∀ k, c.states.get k = ((held (ObserveCall.effect k) past).map (·.2)).filter
    fun p => durationSince now p.atTime ≤ timeout

theorem Follows.waiting {c : Correlator} {past : List ObserveCall} {now later : Instant}
    (h : Follows c past now) (hle : now ≤ later) (k : SockKey) :
    c.waiting k later = ((held (ObserveCall.effect k) past).map (·.2)).filter
      fun p => durationSince later p.atTime ≤ timeout := by
  rw [Correlator.waiting,h k,filter_later hle]

theorem effect_keep_iff {k : SockKey} {q : ObserveCall} :
    q.effect k = .keep ↔ (q.key = k → q.dir = none) := by
  simp only [ObserveCall.effect]
  cases q.dir with
  | none => simp
  | some d =>
    dsimp only
    split_ifs with hk
    · cases accepted q.ev q.now q.clientOnly d <;> simp [hk]
    · simp [hk]

theorem effect_some {k : SockKey} {q : ObserveCall} {d : IoDir} (hd : q.dir = some d)
    (hk : q.key = k) : q.effect k = match accepted q.ev q.now q.clientOnly d with
      | some p => .write p
      | none => .clear := by
  simp only [ObserveCall.effect,hd,if_pos hk]

theorem Follows.step {c : Correlator} {past : List ObserveCall} {now : Instant}
    (h : Follows c past now) (q : ObserveCall) (hle : now ≤ q.now) :
    Follows (c.observeInner q.ev q.now q.clientOnly).1 (past ++ [q]) q.now := by
  intro k
  rw [held_concat]
  by_cases hk : q.key = k
  · cases hd : q.dir with
    | none =>
      rw [effect_keep_iff.mpr (fun _ => hd),Effect.update,
        c.observeInner_other _ _ (Or.inr hd),h.waiting hle]
    | some d =>
      have hself := c.observeInner_self q.now q.clientOnly hd
      rw [effect_some hd hk,← hk]
      refine hself.trans ?_
      simp only [accepted]
      split_ifs <;> simp [Effect.update,durationSince,Option.filter_some]
  · rw [effect_keep_iff.mpr (fun he => absurd he hk),Effect.update,
      c.observeInner_other _ _ (Or.inl (Ne.symm hk)),h.waiting hle]

/-- What a call returns, as a function of the calls before it. -/
def reply (past : List ObserveCall) (q : ObserveCall) : Option Exchange :=
  q.dir.bind fun d =>
    (((held (ObserveCall.effect q.key) past).map (·.2)).filter
      fun p => durationSince q.now p.atTime ≤ timeout).bind fun p =>
        if completes p q.ev q.clientOnly d then some (joinedWith p q.ev) else none

theorem Follows.reply {c : Correlator} {past : List ObserveCall} {now : Instant}
    (h : Follows c past now) (q : ObserveCall) (hle : now ≤ q.now) :
    (c.observeInner q.ev q.now q.clientOnly).2 = reply past q := by
  cases hd : q.dir with
  | none =>
    have hnone : IoDir.fromU8 q.ev.dir = none := hd
    simp [Http1.reply,hd,Correlator.observeInner,hnone]
  | some d =>
    rw [c.observeInner_reply _ _ hd,h.waiting hle,Http1.reply,hd]
    rfl

theorem Follows.run {calls : List ObserveCall} {c : Correlator} {past : List ObserveCall}
    {now : Instant} (h : Follows c past now) (hle : ∀ q ∈ calls, now ≤ q.now)
    (hmono : calls.Pairwise fun a b => a.now ≤ b.now) (j : ℕ) :
    (c.observeAll calls)[j]? = calls[j]?.map (Http1.reply (past ++ calls.take j)) := by
  induction calls generalizing c past now j with
  | nil => simp [Correlator.observeAll]
  | cons q calls ih =>
    obtain ⟨hq,hmono⟩ := List.pairwise_cons.mp hmono
    have hle' := hle q (List.mem_cons_self ..)
    rw [Correlator.observeAll,h.reply q hle']
    cases j with
    | zero => simp
    | succ j => simpa using ih (h.step q hle') hq hmono j

namespace ObserveCall

def IsRequest (q : ObserveCall) (d : IoDir) : Prop :=
  q.dir = some d ∧ 0 ≤ q.ev.ret ∧ looksLikeRequest q.ev.chunk ∧ (q.clientOnly = true → d = .write)

def IsResponse (q : ObserveCall) (d : IoDir) : Prop :=
  q.dir = some d ∧ 0 ≤ q.ev.ret ∧ looksLikeResponse q.ev.chunk ∧ (q.clientOnly = true → d = .read)

end ObserveCall

/-- Call `j` is a response, and the last call before it on its socket that has a direction
is `i`, a request in the other direction, at most the timeout ago; `x` is their exchange. -/
def Answers (calls : List ObserveCall) (i j : ℕ) (x : Exchange) : Prop :=
  ∃ a b d, calls[i]? = some a ∧ calls[j]? = some b ∧ i < j ∧ a.key = b.key ∧
    (∀ (m : ℕ) q, i < m → m < j → calls[m]? = some q → q.key = b.key → q.dir = none) ∧
    a.IsRequest d ∧ b.IsResponse d.flip ∧ durationSince b.now a.now ≤ timeout ∧
    x = { tgid := b.ev.tgid
          fd := b.ev.fd
          reqPrefix := a.ev.chunk
          respPrefix := b.ev.chunk
          tStartNs := a.ev.tsNs
          tEndNs := b.ev.tsNs
          peer := none
          reqIsWrite := d = .write
          cgroupId := a.ev.cgroupId }

theorem effect_write_iff {k : SockKey} {q : ObserveCall} {p : Pending} :
    q.effect k = .write p ↔ ∃ d, q.key = k ∧ q.IsRequest d ∧
      p = ⟨d,q.ev.tsNs,q.ev.chunk,q.now,q.ev.cgroupId⟩ := by
  cases hd : q.dir with
  | none => simp [ObserveCall.effect,ObserveCall.IsRequest,hd]
  | some d =>
    by_cases hk : q.key = k
    · simp only [effect_some hd hk,accepted,ObserveCall.IsRequest,hd,hk]
      split_ifs with hok
      · constructor
        · intro h
          exact ⟨d,trivial,⟨rfl,hok⟩,(Effect.write.inj h).symm⟩
        · rintro ⟨d',-,⟨hd',-⟩,rfl⟩
          rw [Option.some.inj hd']
      · constructor
        · intro h
          simp at h
        · rintro ⟨d',-,⟨hd',hok'⟩,-⟩
          obtain rfl := Option.some.inj hd'
          exact absurd hok' hok
    · simp [effect_keep_iff.mpr (fun he => absurd he hk),hk]

theorem opposite_iff {clientOnly : Bool} {a b : IoDir} :
    Correlator.opposite clientOnly a b = true ↔ b = a.flip ∧ (clientOnly = true → b = .read) := by
  cases a <;> cases b <;> cases clientOnly <;> simp [Correlator.opposite,IoDir.flip]

theorem reply_eq_some_iff {calls : List ObserveCall} {j : ℕ} {b : ObserveCall} {x : Exchange}
    (hb : calls[j]? = some b) :
    reply (calls.take j) b = some x ↔ ∃ i, Answers calls i j x := by
  constructor
  · intro h
    obtain ⟨d',hd',hbind⟩ := Option.bind_eq_some_iff.mp h
    obtain ⟨p,hp,hx⟩ := Option.bind_eq_some_iff.mp hbind
    obtain ⟨hmap,hfresh⟩ := Option.filter_eq_some_iff.mp hp
    obtain ⟨⟨i,p'⟩,hheld,rfl⟩ := Option.map_eq_some_iff.mp hmap
    obtain ⟨⟨a,ha,hw⟩,hkeep⟩ := held_eq_some_iff.mp hheld
    obtain ⟨d,hk,hreq,rfl⟩ := effect_write_iff.mp hw
    split_ifs at hx with hcomp
    obtain ⟨hopp,hret,hresp⟩ := hcomp
    obtain ⟨rfl,hclient⟩ := opposite_iff.mp hopp
    obtain ⟨hlt,ha⟩ := getElem?_take_eq_some.mp ha
    refine ⟨i,a,b,d,ha,hb,hlt,hk,fun m q him hmj hq hqk => ?_,hreq,⟨hd',hret,hresp,hclient⟩,
      of_decide_eq_true hfresh,(Option.some.inj hx).symm⟩
    exact effect_keep_iff.mp (hkeep m q him (by rwa [List.getElem?_take_of_lt hmj])) hqk
  · rintro ⟨i,a,b',d,ha,hb',hlt,hk,hlast,hreq,⟨hd,hret,hresp,hclient⟩,hfresh,rfl⟩
    obtain rfl : b = b' := Option.some.inj (hb.symm.trans hb')
    have hsince : Since (ObserveCall.effect b.key) (calls.take j) i
        ⟨d,a.ev.tsNs,a.ev.chunk,a.now,a.ev.cgroupId⟩ := by
      refine ⟨⟨a,by rwa [List.getElem?_take_of_lt hlt],
        effect_write_iff.mpr ⟨d,hk,hreq,rfl⟩⟩,fun m q him hq => effect_keep_iff.mpr ?_⟩
      obtain ⟨hmj,hq⟩ := getElem?_take_eq_some.mp hq
      exact hlast m q him hmj hq
    rw [reply,hd,held_eq_some_iff.mpr hsince]
    simp [Option.filter_some,hfresh,completes,opposite_iff.mpr ⟨rfl,hclient⟩,hret,hresp,joinedWith]

theorem ObserveCall.IsRequest.not_response {q : ObserveCall} {d d' : IoDir} (h : q.IsRequest d) :
    ¬ q.IsResponse d' := fun h' => by
  have hreq := h.2.2.1
  rw [not_request_of_response h'.2.2.1] at hreq
  simp at hreq

section Unique

variable {calls : List ObserveCall} {i j i' j' : ℕ} {x x' : Exchange}

theorem Answers.between (h : Answers calls i j x) {m : ℕ} {q : ObserveCall} (him : i < m)
    (hmj : m < j) (hq : calls[m]? = some q) {b : ObserveCall} (hb : calls[j]? = some b)
    (hk : q.key = b.key) : q.dir = none := by
  obtain ⟨_,b',_,_,hb',_,_,hlast,_⟩ := h
  obtain rfl : b = b' := Option.some.inj (hb.symm.trans hb')
  exact hlast m q him hmj hq hk

theorem Answers.not_later (h : Answers calls i j x) (h' : Answers calls i j' x') : ¬ j < j' := by
  intro hlt
  obtain ⟨a,b,d,ha,hb,hij,hk,-,-,hresp,-⟩ := h
  obtain ⟨a',b',d',ha',hb',-,hk',-⟩ := id h'
  obtain rfl : a = a' := Option.some.inj (ha.symm.trans ha')
  have hnone := h'.between hij hlt hb hb' (hk.symm.trans hk')
  rw [hresp.1] at hnone
  simp at hnone

theorem Answers.not_earlier (h : Answers calls i j x) (h' : Answers calls i' j x') : ¬ i < i' := by
  intro hlt
  obtain ⟨a',b',d',ha',hb',hij',hk',-,hreq',-⟩ := h'
  have hnone := h.between hlt hij' ha' hb' hk'
  rw [hreq'.1] at hnone
  simp at hnone

theorem Answers.exchange (h : Answers calls i j x) (h' : Answers calls i j x') : x = x' := by
  obtain ⟨a,b,d,ha,hb,-,-,-,hreq,-,-,rfl⟩ := h
  obtain ⟨a',b',d',ha',hb',-,-,-,hreq',-,-,rfl⟩ := h'
  obtain rfl : a = a' := Option.some.inj (ha.symm.trans ha')
  obtain rfl : b = b' := Option.some.inj (hb.symm.trans hb')
  obtain rfl : d = d' := Option.some.inj (hreq.1.symm.trans hreq'.1)
  rfl

theorem Answers.not_chained (h : Answers calls i j x) (h' : Answers calls i' j' x') : i ≠ j' := by
  rintro rfl
  obtain ⟨a,b,d,ha,-,-,-,-,hreq,-⟩ := h
  obtain ⟨a',b',d',-,hb',-,-,-,-,hresp,-⟩ := h'
  obtain rfl : a = b' := Option.some.inj (ha.symm.trans hb')
  exact hreq.not_response hresp

/-- An event takes part in one exchange at most. -/
theorem Answers.unique (h : Answers calls i j x) (h' : Answers calls i' j' x')
    (hshared : i = i' ∨ i = j' ∨ j = i' ∨ j = j') : i = i' ∧ j = j' ∧ x = x' := by
  rcases hshared with rfl | hij | hji | rfl
  · obtain rfl : j = j' :=
      Nat.le_antisymm (Nat.not_lt.mp (h'.not_later h)) (Nat.not_lt.mp (h.not_later h'))
    exact ⟨rfl,rfl,h.exchange h'⟩
  · exact absurd hij (h.not_chained h')
  · exact absurd hji.symm (h'.not_chained h)
  · obtain rfl : i = i' :=
      Nat.le_antisymm (Nat.not_lt.mp (h'.not_earlier h)) (Nat.not_lt.mp (h.not_earlier h'))
    exact ⟨rfl,rfl,h.exchange h'⟩

end Unique

/-- The correlators of two runs hold the same for a socket. -/
def SameAt (k : SockKey) (now : Instant) (c c' : Correlator) : Prop :=
  c.waiting k now = c'.waiting k now

theorem SameAt.later {k : SockKey} {now later : Instant} {c c' : Correlator}
    (h : SameAt k now c c') (hle : now ≤ later) : SameAt k later c c' := by
  have hfilter : ∀ c : Correlator, c.waiting k later =
      (c.waiting k now).filter fun p => durationSince later p.atTime ≤ timeout := fun c => by
    rw [Correlator.waiting,Correlator.waiting,filter_later hle]
  rw [SameAt,hfilter,hfilter,h]

theorem sameAt_of_get {k : SockKey} {now : Instant} {c c' : Correlator}
    (h : c.states.get k = c'.states.get k) : SameAt k now c c' := by
  rw [SameAt,Correlator.waiting,Correlator.waiting,h]

theorem SameAt.skip {k : SockKey} {c c' : Correlator} {q : ObserveCall} (h : SameAt k q.now c c')
    (hk : q.key ≠ k) : SameAt k q.now (c.observeInner q.ev q.now q.clientOnly).1 c' := by
  have hget := c.observeInner_other q.now q.clientOnly (Or.inl (Ne.symm hk))
  rw [SameAt,← h,Correlator.waiting,hget,Correlator.waiting,filter_later le_rfl]

theorem SameAt.step {c c' : Correlator} {q : ObserveCall} (h : SameAt q.key q.now c c') :
    SameAt q.key q.now (c.observeInner q.ev q.now q.clientOnly).1
        (c'.observeInner q.ev q.now q.clientOnly).1 ∧
      (c.observeInner q.ev q.now q.clientOnly).2 = (c'.observeInner q.ev q.now q.clientOnly).2 := by
  cases hd : IoDir.fromU8 q.ev.dir with
  | none =>
    refine ⟨sameAt_of_get ?_,by simp [Correlator.observeInner,hd]⟩
    rw [c.observeInner_other _ _ (Or.inr hd),c'.observeInner_other _ _ (Or.inr hd),h]
  | some d =>
    refine ⟨sameAt_of_get ?_,?_⟩
    · exact (c.observeInner_self _ _ hd).trans (c'.observeInner_self _ _ hd).symm
    · rw [c.observeInner_reply _ _ hd,c'.observeInner_reply _ _ hd]
      exact congrArg (Option.bind · _) h

theorem SameAt.run {calls : List ObserveCall} {k : SockKey} {now : Instant} {c c' : Correlator}
    (h : SameAt k now c c') (hle : ∀ q ∈ calls, now ≤ q.now)
    (hmono : calls.Pairwise fun a b => a.now ≤ b.now) :
    ((calls.zip (c.observeAll calls)).filter fun q => q.1.key = k).map (·.2) =
      c'.observeAll (calls.filter fun q => q.key = k) := by
  induction calls generalizing c c' now with
  | nil => rfl
  | cons q calls ih =>
    obtain ⟨hq,hmono⟩ := List.pairwise_cons.mp hmono
    have hnow := h.later (hle q (List.mem_cons_self ..))
    simp only [Correlator.observeAll,List.zip_cons_cons,List.filter_cons]
    by_cases hk : q.key = k
    · subst hk
      obtain ⟨hnext,hreply⟩ := hnow.step
      simp only [decide_true,if_true,List.map_cons,Correlator.observeAll,hreply,ih hnext hq hmono]
    · simp only [hk,decide_false,Bool.false_eq_true,if_false]
      exact ih (hnow.skip hk) hq hmono

/-- Over every run with non-decreasing times: a call returns an exchange exactly when it
answers a request, no event takes part in two exchanges, and what a socket's calls return
is what they return without the other sockets. -/
theorem correlator_characterised (calls : List ObserveCall)
    (hmono : calls.Pairwise fun a b => a.now ≤ b.now) :
    (∀ (j : ℕ) x, (Correlator.default.observeAll calls)[j]? = some (some x) ↔
      ∃ i, Answers calls i j x) ∧
    (∀ i j x i' j' x', Answers calls i j x → Answers calls i' j' x' →
      (i = i' ∨ i = j' ∨ j = i' ∨ j = j') → i = i' ∧ j = j' ∧ x = x') ∧
    ∀ k, ((calls.zip (Correlator.default.observeAll calls)).filter fun q => q.1.key = k).map (·.2) =
      Correlator.default.observeAll (calls.filter fun q => q.key = k) := by
  have hstart : Follows Correlator.default [] 0 := fun k => by simp [Correlator.default]
  refine ⟨fun j x => ?_,fun i j x i' j' x' h h' hs => h.unique h' hs,fun k => ?_⟩
  · rw [hstart.run (fun q _ => Nat.zero_le _) hmono,List.nil_append,Option.map_eq_some_iff]
    constructor
    · rintro ⟨b,hb,hx⟩
      exact (reply_eq_some_iff hb).mp hx
    · rintro ⟨i,hans⟩
      obtain ⟨a,b,d,-,hb,-⟩ := id hans
      exact ⟨b,hb,(reply_eq_some_iff hb).mpr ⟨i,hans⟩⟩
  · have hsame : SameAt k 0 Correlator.default Correlator.default := rfl
    exact hsame.run (fun q _ => Nat.zero_le _) hmono

/-- A client's request and its answer, with a call of another process between them. -/
theorem correlator_characterised_two_sockets :
    let request : ObserveCall := ⟨someSocket.moved .write (octets "GET / HTTP/1.1") 1,0,false⟩
    let other : ObserveCall := ⟨{someSocket.moved .read (octets "PUT /x HTTP/1.1") 2 with tgid := 7},5,false⟩
    let response : ObserveCall := ⟨someSocket.moved .read (octets "HTTP/1.1 200 OK") 3,9,true⟩
    ∃ i x, Answers [request,other,response] i 2 x := by
  intro request other response
  obtain ⟨hreply,-,-⟩ := correlator_characterised [request,other,response] (by
    simp [request,other,response])
  have hsome : ((Correlator.default.observeAll [request,other,response])[2]?.join).isSome := by
    decide +kernel
  obtain ⟨x,hx⟩ := Option.isSome_iff_exists.mp hsome
  obtain ⟨i,hans⟩ := (hreply 2 x).mp (Option.join_eq_some_iff.mp hx)
  exact ⟨i,x,hans⟩

end Http1
end ObsAgent
