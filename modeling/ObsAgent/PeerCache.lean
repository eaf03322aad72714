import ObsAgent.SockMeta

/-! The userspace peer cache in front of `SOCK_META`. A lookup asks the cache first, and the
map only if the cache has nothing younger than two minutes. -/
namespace ObsAgent

open Kernel Http1

structure PeerEntry where
  peer : PeerAddr
  atTime : Instant

structure PeerCache where
  map : FiniteMap (UInt32 × Int32) PeerEntry

namespace PeerCache

def ttl : ℕ := 120 * 10^9

def cap : ℕ := 16384

def default : PeerCache := ⟨∅⟩

def insert (c : PeerCache) (tgid : UInt32) (fd : Int32) (peer : PeerAddr) (now : Instant) :
    PeerCache :=
  let map :=
    if c.map.len ≥ cap then c.map.retain fun _ e => durationSince now e.atTime ≤ ttl else c.map
  let map := if map.len ≥ cap then ∅ else map
  ⟨map.put (tgid,fd) ⟨peer,now⟩⟩

def get (c : PeerCache) (tgid : UInt32) (fd : Int32) (now : Instant) :
    PeerCache × Option PeerAddr :=
  match c.map.get (tgid,fd) with
  | some e =>
    if durationSince now e.atTime ≤ ttl then (c,some e.peer)
    else (⟨c.map.remove (tgid,fd)⟩,none)
  | none => (c,none)

end PeerCache

def lookupPeer (sockMeta : SockMetaMap) (peerCache : PeerCache) (tgid : UInt32) (fd : Int32)
    (now : Instant) : PeerCache × Option PeerAddr :=
  if fd < 0 then (peerCache,none)
  else
    match peerCache.get tgid fd now with
    | (peerCache,some p) => (peerCache,some p)
    | (peerCache,none) =>
      match sockMeta.get (sockFdKey tgid fd.toUInt32) with
      | none => (peerCache,none)
      | some m =>
        match PeerAddr.fromMeta m with
        | none => (peerCache,none)
        | some peer => (peerCache.insert tgid fd peer now,some peer)

namespace PeerCache

/-- A lookup with its answer and with what the kernel's table said at that moment. -/
structure Lookup where
  tgid : UInt32
  fd : Int32
  now : Instant
  current : Option PeerAddr
  asked : Bool
  answer : Option PeerAddr
  deriving DecidableEq

inductive Step
  | kernel (step : SockStep)
  | lookup (tgid : UInt32) (fd : Int32) (now : Instant)

/-- Both tables and the lookups so far, the latest first. -/
structure Run where
  sockMeta : SockMetaMap
  cache : PeerCache
  log : List Lookup

def Run.start : Run := ⟨∅,default,[]⟩

/-- The lookup goes on to the kernel's table. -/
def asks (c : PeerCache) (tgid : UInt32) (fd : Int32) (now : Instant) : Bool :=
  decide (0 ≤ fd) && (c.get tgid fd now).2.isNone

def Run.step (r : Run) : Step → Run
  | .kernel step => {r with sockMeta := step.apply r.sockMeta}
  | .lookup tgid fd now =>
    let res := lookupPeer r.sockMeta r.cache tgid fd now
    {r with
      cache := res.1
      log := ⟨tgid,fd,now,r.sockMeta.peer tgid fd.toUInt32,r.cache.asks tgid fd now,res.2⟩ :: r.log}

def run (steps : List Step) : Run := steps.foldl Run.step Run.start

/-- An earlier lookup that filled the cache, still young at the later one. -/
def Lookup.Reaches (l₀ l : Lookup) : Prop :=
  l₀.asked = true ∧ l₀.tgid = l.tgid ∧ l₀.fd = l.fd ∧ durationSince l.now l₀.now ≤ ttl

instance (l₀ l : Lookup) : Decidable (l₀.Reaches l) := by
  unfold Lookup.Reaches; infer_instance

theorem get_eq_some {c : PeerCache} {tgid : UInt32} {fd : Int32} {now : Instant} {p : PeerAddr} :
    (c.get tgid fd now).2 = some p ↔
      ∃ e, c.map.get (tgid,fd) = some e ∧ durationSince now e.atTime ≤ ttl ∧ e.peer = p := by
  rw [get]
  cases c.map.get (tgid,fd) with
  | none => simp
  | some e =>
    by_cases hyoung : durationSince now e.atTime ≤ ttl
    · simp [hyoung]
    · simp [hyoung]

theorem map_get (c : PeerCache) (tgid : UInt32) (fd : Int32) (now : Instant)
    (k : UInt32 × Int32) : (c.get tgid fd now).1.map.get k =
      if k = (tgid,fd) ∧ (c.get tgid fd now).2 = none then none else c.map.get k := by
  rw [get]
  cases hentry : c.map.get (tgid,fd) with
  | none => by_cases hk : k = (tgid,fd) <;> simp [hk,hentry]
  | some e =>
    by_cases hyoung : durationSince now e.atTime ≤ ttl
    · simp [hyoung]
    · simp [hyoung,FiniteMap.get_remove]

theorem asks_eq_true {c : PeerCache} {tgid : UInt32} {fd : Int32} {now : Instant} :
    c.asks tgid fd now = true ↔ 0 ≤ fd ∧ (c.get tgid fd now).2 = none := by
  simp [asks]

theorem lookupPeer_asks (sockMeta : SockMetaMap) {c : PeerCache} {tgid : UInt32} {fd : Int32}
    {now : Instant} (h : c.asks tgid fd now = true) :
    lookupPeer sockMeta c tgid fd now =
      match sockMeta.peer tgid fd.toUInt32 with
      | none => ((c.get tgid fd now).1,none)
      | some p => ((c.get tgid fd now).1.insert tgid fd p now,some p) := by
  obtain ⟨hfd,hmiss⟩ := asks_eq_true.mp h
  have hres : c.get tgid fd now = ((c.get tgid fd now).1,none) := Prod.ext rfl hmiss
  rw [lookupPeer,if_neg (by simpa using hfd),hres,SockMetaMap.peer]
  cases sockMeta.get (sockFdKey tgid fd.toUInt32) with
  | none => rfl
  | some m => simp only [Option.bind_some]

/-- A lookup that leaves the kernel's table alone has found a young entry. -/
theorem hit_of_silent {c : PeerCache} {tgid : UInt32} {fd : Int32} {now : Instant}
    (h : c.asks tgid fd now = false) (hfd : ¬ fd < 0) :
    ∃ e, c.map.get (tgid,fd) = some e ∧ durationSince now e.atTime ≤ ttl ∧
      (c.get tgid fd now).2 = some e.peer := by
  have hhit : (c.get tgid fd now).2 ≠ none := fun hmiss => by
    have := asks_eq_true.mpr ⟨Int32.not_lt.mp hfd,hmiss⟩
    simp [h] at this
  obtain ⟨p,hp⟩ := Option.ne_none_iff_exists'.mp hhit
  obtain ⟨e,he,hyoung,rfl⟩ := get_eq_some.mp hp
  exact ⟨e,he,hyoung,hp⟩

theorem lookupPeer_silent (sockMeta : SockMetaMap) {c : PeerCache} {tgid : UInt32} {fd : Int32}
    {now : Instant} (h : c.asks tgid fd now = false) :
    lookupPeer sockMeta c tgid fd now =
      (c,if fd < 0 then none else (c.get tgid fd now).2) := by
  rw [lookupPeer]
  split_ifs with hfd
  · rfl
  · obtain ⟨e,he,hyoung,-⟩ := hit_of_silent h hfd
    simp [get,he,hyoung]

theorem lookupPeer_answer (sockMeta : SockMetaMap) (c : PeerCache) (tgid : UInt32) (fd : Int32)
    (now : Instant) : (lookupPeer sockMeta c tgid fd now).2 =
      if c.asks tgid fd now then sockMeta.peer tgid fd.toUInt32
      else if fd < 0 then none else (c.get tgid fd now).2 := by
  cases hasks : c.asks tgid fd now with
  | true =>
    rw [lookupPeer_asks sockMeta hasks]
    cases sockMeta.peer tgid fd.toUInt32 <;> rfl
  | false => simp [lookupPeer_silent sockMeta hasks]

theorem insert_entry {c : PeerCache} {tgid : UInt32} {fd : Int32} {p : PeerAddr} {now : Instant}
    {k : UInt32 × Int32} {e : PeerEntry} (h : (c.insert tgid fd p now).map.get k = some e) :
    k = (tgid,fd) ∧ e = ⟨p,now⟩ ∨ c.map.get k = some e := by
  simp only [insert,FiniteMap.get_put] at h
  by_cases hk : k = (tgid,fd)
  · simp only [if_pos hk,Option.some.injEq] at h
    exact Or.inl ⟨hk,h.symm⟩
  · rw [if_neg hk] at h
    right
    split at h
    · split at h
      · exact absurd h (by simp)
      · rw [FiniteMap.get_retain,Option.filter_eq_some_iff] at h
        exact h.1
    · exact h

theorem insert_room {c : PeerCache} (hroom : c.map.len < cap) (tgid : UInt32) (fd : Int32)
    (p : PeerAddr) (now : Instant) :
    c.insert tgid fd p now = ⟨c.map.put (tgid,fd) ⟨p,now⟩⟩ := by
  simp only [insert,if_neg (Nat.not_le.mpr hroom),ge_iff_le]

theorem lookupPeer_entry {sockMeta : SockMetaMap} {c : PeerCache} {tgid : UInt32} {fd : Int32}
    {now : Instant} {k : UInt32 × Int32} {e : PeerEntry}
    (h : (lookupPeer sockMeta c tgid fd now).1.map.get k = some e) :
    c.map.get k = some e ∨ c.asks tgid fd now = true ∧ k = (tgid,fd) ∧
      sockMeta.peer tgid fd.toUInt32 = some e.peer ∧ e.atTime = now := by
  cases hasks : c.asks tgid fd now with
  | false => exact Or.inl (by rwa [lookupPeer_silent sockMeta hasks] at h)
  | true =>
    have hold : (c.get tgid fd now).1.map.get k = some e → c.map.get k = some e := fun hget => by
      rw [map_get] at hget
      split_ifs at hget
      exact hget
    rw [lookupPeer_asks sockMeta hasks] at h
    cases hpeer : sockMeta.peer tgid fd.toUInt32 with
    | none => exact Or.inl (hold (by simpa only [hpeer] using h))
    | some p =>
      simp only [hpeer] at h
      rcases insert_entry h with ⟨rfl,rfl⟩ | h
      · exact Or.inr ⟨rfl,rfl,rfl,rfl⟩
      · exact Or.inl (hold h)

/-- Every entry of the cache was read from the kernel's table by a lookup of the log. -/
def Backed (r : Run) : Prop :=
  ∀ tgid fd e, r.cache.map.get (tgid,fd) = some e →
    ∃ l ∈ r.log, l.asked = true ∧ l.tgid = tgid ∧ l.fd = fd ∧ l.now = e.atTime ∧
      l.current = some e.peer

/-- Where the answer to a lookup comes from. -/
def Explained (before : List Lookup) (l : Lookup) : Prop :=
  l.asked = true ∧ l.answer = l.current ∨ l.fd < 0 ∧ l.answer = none ∨
    ∃ l₀ ∈ before, l₀.Reaches l ∧ ∃ q, l₀.current = some q ∧ l.answer = some q

structure Sound (r : Run) : Prop where
  backed : Backed r
  explained : ∀ l before, l :: before <:+ r.log → Explained before l

theorem backed_step {r : Run} (h : Backed r) (step : Step) : Backed (r.step step) := by
  cases step with
  | kernel step => exact h
  | lookup tgid fd now =>
    intro tgid' fd' e he
    rcases lookupPeer_entry he with hold | ⟨hasks,hk,hpeer,hat⟩
    · obtain ⟨l,hl,hfacts⟩ := h tgid' fd' e hold
      exact ⟨l,List.mem_cons_of_mem _ hl,hfacts⟩
    · simp only [Prod.mk.injEq] at hk
      exact ⟨_,List.mem_cons_self,hasks,hk.1.symm,hk.2.symm,hat.symm,hpeer⟩

theorem explained_lookup {r : Run} (h : Backed r) (tgid : UInt32) (fd : Int32) (now : Instant) :
    Explained r.log ⟨tgid,fd,now,r.sockMeta.peer tgid fd.toUInt32,r.cache.asks tgid fd now,
      (lookupPeer r.sockMeta r.cache tgid fd now).2⟩ := by
  rw [lookupPeer_answer]
  cases hasks : r.cache.asks tgid fd now with
  | true => exact Or.inl ⟨rfl,rfl⟩
  | false =>
    by_cases hfd : fd < 0
    · exact Or.inr (Or.inl ⟨hfd,by simp [hfd]⟩)
    · obtain ⟨e,he,hyoung,hp⟩ := hit_of_silent hasks hfd
      obtain ⟨l,hl,hasked,htgid,hlfd,hat,hcur⟩ := h tgid fd e he
      exact Or.inr (Or.inr ⟨l,hl,⟨hasked,htgid,hlfd,by rwa [hat]⟩,e.peer,hcur,by simp [hfd,hp]⟩)

theorem sound_step {r : Run} (h : Sound r) (step : Step) : Sound (r.step step) := by
  refine ⟨backed_step h.backed step,?_⟩
  cases step with
  | kernel step => exact h.explained
  | lookup tgid fd now =>
    intro l before hsuffix
    rcases List.suffix_cons_iff.mp hsuffix with heq | hsuffix
    · obtain ⟨rfl,rfl⟩ := List.cons.inj heq
      exact explained_lookup h.backed tgid fd now
    · exact h.explained l before hsuffix

theorem sound_run (steps : List Step) : Sound (run steps) := by
  induction steps using List.reverseRecOn with
  | nil => exact ⟨fun _ _ _ he => by simp [run,Run.start,default] at he,
      fun _ _ hs => by simp [run,Run.start] at hs⟩
  | append_singleton steps step ih =>
    rw [run,List.foldl_concat]
    exact sound_step ih step

/-- No socket whose peer is known has a negative descriptor, and no socket has changed its
peer while the cache still held a young entry for it. -/
structure Settled (log : List Lookup) : Prop where
  valid : ∀ l ∈ log, l.current.isSome = true → 0 ≤ l.fd
  stable : log.Pairwise fun l l₀ => l₀.Reaches l → ∀ q ∈ l₀.current, ∀ p ∈ l.current, q = p

/-- The kernel's peer where it has one; otherwise at most what it has said about the socket in
the last two minutes. -/
structure Mirrored (before : List Lookup) (l : Lookup) : Prop where
  present : ∀ p, l.current = some p → l.answer = some p
  absent : l.current = none → ∀ q, l.answer = some q →
    ∃ l₀ ∈ before, l₀.tgid = l.tgid ∧ l₀.fd = l.fd ∧ durationSince l.now l₀.now ≤ ttl ∧
      l₀.current = some q

/-- Lookups return the kernel's peer as long as no socket changes its peer under a young
cache entry. -/
theorem lookups_current_when_settled (steps : List Step) (h : Settled (run steps).log)
    (l : Lookup) (before : List Lookup) (hl : l :: before <:+ (run steps).log) :
    Mirrored before l := by
  have hvalid := h.valid l (hl.subset List.mem_cons_self)
  have hstable := (List.pairwise_cons.mp (h.stable.sublist hl.sublist)).1
  rcases (sound_run steps).explained l before hl with
    ⟨hasked,hans⟩ | ⟨hfd,hans⟩ | ⟨l₀,hl₀,hreach,q,hq,hans⟩
  · exact ⟨fun p hp => by rw [hans,hp],fun hnone q hq => by simp [hans,hnone] at hq⟩
  · refine ⟨fun p hp => ?_,fun _ q hq => by simp [hans] at hq⟩
    exact absurd (hvalid (by simp [hp])) (Int32.not_le.mpr hfd)
  · refine ⟨fun p hp => ?_,fun _ q' hq' => ?_⟩
    · rw [hans,hstable l₀ hl₀ hreach q hq p hp]
    · rw [hans,Option.some.injEq] at hq'
      exact ⟨l₀,hl₀,hreach.2.1,hreach.2.2.1,hreach.2.2.2,hq' ▸ hq⟩

def someProbe : Probe := ⟨42,⟨none,∅,∅⟩,none,0⟩

def firstMeta : SockMeta := SockMeta.withPeerV4 0x0100000A 80

def secondMeta : SockMeta := SockMeta.withPeerV4 0x0200000A 80

/-- A descriptor used for one peer, closed, and used for another, which is looked up some
time after the first. -/
def reuse (pause : ℕ) : List Step :=
  [.kernel (.mark someProbe 3 firstMeta),.lookup 42 3 0,.kernel (.close 42 3),
    .kernel (.mark someProbe 3 secondMeta),.lookup 42 3 pause]

theorem lookups_current_after_two_minutes :
    Settled (run (reuse (ttl + 1))).log ∧
      ∀ l before, l :: before <:+ (run (reuse (ttl + 1))).log → Mirrored before l := by
  have h : Settled (run (reuse (ttl + 1))).log := ⟨by decide +kernel,by decide +kernel⟩
  exact ⟨h,lookups_current_when_settled _ h⟩

/-- A second after the first lookup, the kernel knows the new peer and the lookup returns the
old one. -/
theorem reused_descriptor_keeps_old_peer :
    ∃ l before, l :: before <:+ (run (reuse (10^9))).log ∧
      l.current = PeerAddr.fromMeta secondMeta ∧ l.answer = PeerAddr.fromMeta firstMeta ∧
      ¬ Mirrored before l := by
  refine ⟨⟨42,3,10^9,PeerAddr.fromMeta secondMeta,false,PeerAddr.fromMeta firstMeta⟩,
    [⟨42,3,0,PeerAddr.fromMeta firstMeta,true,PeerAddr.fromMeta firstMeta⟩],by decide +kernel,
    rfl,rfl,fun h => ?_⟩
  exact absurd (h.present _ rfl) (by decide +kernel)

/-- The entry of a lookup that asked the kernel stays while it is young. -/
def Keeps (r : Run) : Prop :=
  ∀ l₀ ∈ r.log, l₀.asked = true → ∀ q, l₀.current = some q →
    ∀ now, (∀ l ∈ r.log, l.now ≤ now) → durationSince now l₀.now ≤ ttl →
      r.cache.map.get (l₀.tgid,l₀.fd) = some ⟨q,l₀.now⟩

theorem get_len_le (c : PeerCache) (tgid : UInt32) (fd : Int32) (now : Instant) :
    (c.get tgid fd now).1.map.len ≤ c.map.len := by
  rw [get]
  split
  · split_ifs
    · exact le_rfl
    · exact FiniteMap.len_remove_le _ _
  · exact le_rfl

theorem lookupPeer_len (sockMeta : SockMetaMap) {c : PeerCache} (hroom : c.map.len < cap)
    (tgid : UInt32) (fd : Int32) (now : Instant) :
    (lookupPeer sockMeta c tgid fd now).1.map.len ≤ c.map.len + 1 := by
  have hget := get_len_le c tgid fd now
  cases hasks : c.asks tgid fd now with
  | false => simp [lookupPeer_silent sockMeta hasks]
  | true =>
    rw [lookupPeer_asks sockMeta hasks]
    cases sockMeta.peer tgid fd.toUInt32 with
    | none => exact hget.trans (Nat.le_succ _)
    | some p =>
      simp only [insert_room (hget.trans_lt hroom)]
      exact (FiniteMap.len_put_le _ _ _).trans (Nat.succ_le_succ hget)

theorem lookupPeer_other (sockMeta : SockMetaMap) {c : PeerCache} (hroom : c.map.len < cap)
    (tgid : UInt32) (fd : Int32) (now : Instant) {k : UInt32 × Int32} (hk : k ≠ (tgid,fd)) :
    (lookupPeer sockMeta c tgid fd now).1.map.get k = c.map.get k := by
  have hget := get_len_le c tgid fd now
  cases hasks : c.asks tgid fd now with
  | false => simp [lookupPeer_silent sockMeta hasks]
  | true =>
    rw [lookupPeer_asks sockMeta hasks]
    cases sockMeta.peer tgid fd.toUInt32 with
    | none => simp [map_get,hk]
    | some p => simp [insert_room (hget.trans_lt hroom),FiniteMap.get_put,map_get,hk]

theorem lookupPeer_fills {sockMeta : SockMetaMap} {c : PeerCache} {tgid : UInt32} {fd : Int32}
    {now : Instant} {p : PeerAddr} (hasks : c.asks tgid fd now = true)
    (hpeer : sockMeta.peer tgid fd.toUInt32 = some p) :
    (lookupPeer sockMeta c tgid fd now).1.map.get (tgid,fd) = some ⟨p,now⟩ := by
  simp [lookupPeer_asks sockMeta hasks,hpeer,insert]

theorem lookupPeer_hit (sockMeta : SockMetaMap) {c : PeerCache} {tgid : UInt32} {fd : Int32}
    {now : Instant} {e : PeerEntry} (hfd : 0 ≤ fd) (he : c.map.get (tgid,fd) = some e)
    (hyoung : durationSince now e.atTime ≤ ttl) :
    lookupPeer sockMeta c tgid fd now = (c,some e.peer) := by
  simp [lookupPeer,Int32.not_lt.mpr hfd,get,he,hyoung]

def InOrder (log : List Lookup) : Prop := log.Pairwise fun l l₀ => l₀.now ≤ l.now

structure Tight (r : Run) : Prop where
  len : r.cache.map.len ≤ r.log.length
  valid : ∀ l ∈ r.log, l.asked = true → 0 ≤ l.fd
  keeps : Keeps r
  served : ∀ l before, l :: before <:+ r.log → ∀ l₀ ∈ before, l₀.Reaches l →
    ∀ q, l₀.current = some q → l.answer = some q

theorem tight_lookup {r : Run} (h : Tight r) (hroom : r.log.length < cap) (tgid : UInt32)
    (fd : Int32) (now : Instant) (hlast : ∀ l ∈ r.log, l.now ≤ now) :
    Tight (r.step (.lookup tgid fd now)) := by
  have hlen : r.cache.map.len < cap := h.len.trans_lt hroom
  have hhit : ∀ l₀ ∈ r.log, l₀.asked = true → ∀ q, l₀.current = some q → l₀.tgid = tgid →
      l₀.fd = fd → durationSince now l₀.now ≤ ttl →
      lookupPeer r.sockMeta r.cache tgid fd now = (r.cache,some q) := by
    rintro l₀ hl₀ hasked q hq rfl rfl hyoung
    exact lookupPeer_hit r.sockMeta (h.valid l₀ hl₀ hasked)
      (h.keeps l₀ hl₀ hasked q hq now hlast hyoung) hyoung
  refine ⟨?_,?_,?_,?_⟩
  · exact (lookupPeer_len r.sockMeta hlen tgid fd now).trans (Nat.succ_le_succ h.len)
  · intro l hl hasked
    rcases List.mem_cons.mp hl with rfl | hl
    · exact (asks_eq_true.mp hasked).1
    · exact h.valid l hl hasked
  · intro l₀ hl₀ hasked q hq later hlater hyoung
    have hnow : now ≤ later := hlater _ List.mem_cons_self
    rcases List.mem_cons.mp hl₀ with rfl | hl₀
    · exact lookupPeer_fills hasked hq
    · have hyoung' : durationSince now l₀.now ≤ ttl :=
        (Nat.sub_le_sub_right hnow l₀.now).trans hyoung
      have hold := h.keeps l₀ hl₀ hasked q hq now hlast hyoung'
      by_cases hk : (l₀.tgid,l₀.fd) = (tgid,fd)
      · simp only [Prod.mk.injEq] at hk
        simpa only [Run.step,hhit l₀ hl₀ hasked q hq hk.1 hk.2 hyoung'] using hold
      · exact (lookupPeer_other r.sockMeta hlen tgid fd now hk).trans hold
  · intro l before hsuffix l₀ hl₀ hreach q hq
    rcases List.suffix_cons_iff.mp hsuffix with heq | hsuffix
    · obtain ⟨rfl,rfl⟩ := List.cons.inj heq
      obtain ⟨hasked,htgid,hfd,hyoung⟩ := hreach
      simp only [hhit l₀ hl₀ hasked q hq htgid hfd hyoung]
    · exact h.served l before hsuffix l₀ hl₀ hreach q hq

theorem tight_run (steps : List Step) (horder : InOrder (run steps).log)
    (hfew : (run steps).log.length ≤ cap) : Tight (run steps) := by
  induction steps using List.reverseRecOn with
  | nil => exact ⟨by simp [run,Run.start,default],by simp [run,Run.start],
      fun _ hl => by simp [run,Run.start] at hl,fun _ _ hs => by simp [run,Run.start] at hs⟩
  | append_singleton steps step ih =>
    rw [run,List.foldl_concat] at horder hfew ⊢
    cases step with
    | kernel step =>
      have h := ih horder hfew
      exact ⟨h.len,h.valid,h.keeps,h.served⟩
    | lookup tgid fd now =>
      obtain ⟨hlast,horder⟩ := List.pairwise_cons.mp horder
      have hroom : (run steps).log.length < cap := hfew
      exact tight_lookup (ih horder hroom.le) hroom tgid fd now hlast

theorem pairwise_of_suffix {α : Type} {R : α → α → Prop} {log : List α}
    (h : ∀ l before, l :: before <:+ log → ∀ l₀ ∈ before, R l l₀) : log.Pairwise R := by
  induction log with
  | nil => exact List.Pairwise.nil
  | cons l log ih =>
    refine List.pairwise_cons.mpr ⟨h l log List.suffix_rfl,ih fun l' before hs => ?_⟩
    exact h l' before (hs.trans (List.suffix_cons l log))

/-- The condition is exact: below the capacity, correct lookups mean settled sockets. -/
theorem settled_of_lookups_current (steps : List Step) (horder : InOrder (run steps).log)
    (hfew : (run steps).log.length ≤ cap)
    (h : ∀ l ∈ (run steps).log, ∀ p, l.current = some p → l.answer = some p) :
    Settled (run steps).log := by
  have htight := tight_run steps horder hfew
  refine ⟨fun l hl hsome => ?_,pairwise_of_suffix fun l before hs l₀ hl₀ hreach q hq p hp => ?_⟩
  · obtain ⟨p,hp⟩ := Option.isSome_iff_exists.mp hsome
    obtain ⟨later,before,hlog⟩ := List.append_of_mem hl
    rcases (sound_run steps).explained l before ⟨later,hlog.symm⟩ with
      ⟨hasked,-⟩ | ⟨-,hans⟩ | ⟨l₀,hl₀,hreach,-⟩
    · exact htight.valid l hl hasked
    · simp [h l hl p hp] at hans
    · rw [← hreach.2.2.1]
      exact htight.valid l₀ (by simp [hlog,hl₀]) hreach.1
  · have hserved := htight.served l before hs l₀ hl₀ hreach q hq
    rw [h l (hs.subset List.mem_cons_self) p hp] at hserved
    exact (Option.some.inj hserved).symm

end PeerCache
end ObsAgent
