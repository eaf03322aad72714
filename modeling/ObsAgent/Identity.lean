import ObsAgent.Cgroup
import ObsAgent.Machine
import ObsAgent.Publish
import ObsAgent.TtlCache

/-! Who a process is: what the agent reads of it under `/proc`, and the two caches in front of
that. -/
namespace ObsAgent

open TtlCache

namespace Text

def trimMatches (p : Char → Bool) (s : String) : String :=
  String.ofList ((s.toList.dropWhile p).rdropWhile p)

/-- `Path::file_name`: empty components and single dots do not count. -/
def fileName (path : String) : Option String :=
  (((split '/' path).filter fun c => c ≠ "" && c ≠ ".").getLast?).filter (· ≠ "..")

/-- `str::get(..n)`. -/
def getTo (n : ℕ) (s : String) : Option String :=
  if n ≤ (octets s).length then Hpack.fromUtf8 ((octets s).take n) else none

end Text

/-- The files of a process, as far as they can be read. -/
structure ProcDir where
  comm : Option String
  cmdline : Option (List UInt8)
  cgroup : Option String

def readComm (text : Option String) : String :=
  (text.map (Text.trimMatches fun c => Text.isWhitespace c || c = '\x00')).getD ""

/-- `lossy` is `String::from_utf8_lossy`. -/
def readCmdlineBasename (lossy : List UInt8 → String) (bytes : Option (List UInt8)) : String :=
  match bytes with
  | none => ""
  | some bytes =>
    let first := bytes.takeWhile (· ≠ 0)
    if first = [] then ""
    else (Text.fileName (lossy first)).getD (lossy first)

def ProcDir.name (lossy : List UInt8 → String) (d : ProcDir) : String :=
  let c := readComm d.comm
  if c = "" then readCmdlineBasename lossy d.cmdline else c

def NodeId.procFallback (tgid : UInt32) (comm : String) : NodeId :=
  let safe := if comm = "" then "unknown" else comm
  ⟨"proc:" ++ safe ++ ":" ++ toString tgid.toNat,tgid,safe,none,none⟩

def shortUid (uid : String) : String := (Text.getTo 8 uid).getD uid

def shortCid (cid : String) : String := (Text.getTo 12 cid).getD cid

def resolveUncached (lossy : List UInt8 → String) (tgid : UInt32) (d : ProcDir) : NodeId :=
  let comm := d.name lossy
  let parsed := parseCgroup (d.cgroup.getD "")
  match parsed.podUid, parsed.containerId with
  | some uid, cid => ⟨"pod:" ++ shortUid uid,tgid,comm,cid,some uid⟩
  | none, some cid => ⟨"ctr:" ++ shortCid cid,tgid,comm,some cid,none⟩
  | none, none => .procFallback tgid comm

abbrev CommCache := FiniteMap UInt32 (String × Instant)

namespace CommCache

/-- `read` is the name that `/proc` has now. -/
def comm (c : CommCache) (tgid : UInt32) (now : Instant) (read : String) : CommCache × String :=
  let q := fetch Prod.snd IdentityResolver.cacheTtl IdentityResolver.cacheCap c tgid now (read,now)
  (q.1,q.2.1)

/-- The thread's name stands in for that of a process that has none. -/
def commPair (c : CommCache) (tgid pid : UInt32) (now : Instant) (read : UInt32 → String) :
    CommCache × String :=
  let q := c.comm tgid now (read tgid)
  if q.2 ≠ "" ∨ pid = 0 ∨ pid = tgid then q else q.1.comm pid now (read pid)

theorem comm_all {Q : UInt32 → String × Instant → Prop} {c : CommCache} (h : FiniteMap.All Q c)
    (tgid : UInt32) (now : Instant) {read : String} (hread : Q tgid (read,now)) :
    FiniteMap.All Q (c.comm tgid now read).1 ∧
      ∃ t, Q tgid ((c.comm tgid now read).2,t) ∧ now - t ≤ IdentityResolver.cacheTtl := by
  obtain ⟨hall,hname⟩ := fetch_all Prod.snd IdentityResolver.cacheTtl IdentityResolver.cacheCap now
    (read,now) h hread
  exact ⟨hall,_,hname,fetch_fresh _ _ rfl⟩

end CommCache

theorem IdentityResolver.resolve_eq_fetch (r : IdentityResolver) (tgid : UInt32) (now : Instant)
    (uncached : NodeId) :
    r.resolve tgid now uncached =
      (⟨(fetch CacheEntry.atTime cacheTtl cacheCap r.cache tgid now ⟨uncached,now⟩).1⟩,
        (fetch CacheEntry.atTime cacheTtl cacheCap r.cache tgid now ⟨uncached,now⟩).2.id) := by
  have hfresh : (fun e : CacheEntry => decide (durationSince now e.atTime ≤ cacheTtl)) =
      fresh CacheEntry.atTime cacheTtl now := rfl
  simp only [resolve,fetch,hfresh]
  cases (r.cache.get tgid).filter (fresh CacheEntry.atTime cacheTtl now) <;> rfl

/-- The resolver with both of its caches. -/
structure Resolver extends IdentityResolver where
  commCache : CommCache

inductive Question
  | resolve (tgid : UInt32)
  | comm (tgid : UInt32)
  | commPair (tgid pid : UInt32)

/-- A question at a time, with what the process files say then. -/
structure Ask where
  question : Question
  now : Instant
  proc : UInt32 → ProcDir

namespace Resolver

def start : Resolver := ⟨.default,∅⟩

section

variable (lossy : List UInt8 → String)

def answer (r : Resolver) (a : Ask) : Resolver × (NodeId ⊕ String) :=
  match a.question with
  | .resolve tgid =>
    let q := r.resolve tgid a.now (resolveUncached lossy tgid (a.proc tgid))
    ({r with toIdentityResolver := q.1},.inl q.2)
  | .comm tgid =>
    let q := r.commCache.comm tgid a.now ((a.proc tgid).name lossy)
    ({r with commCache := q.1},.inr q.2)
  | .commPair tgid pid =>
    let q := r.commCache.commPair tgid pid a.now fun t => (a.proc t).name lossy
    ({r with commCache := q.1},.inr q.2)

def step (r : Resolver) (a : Ask) : Resolver × List (NodeId ⊕ String) :=
  ((r.answer lossy a).1,[(r.answer lossy a).2])

/-- The value was read by one of the questions, not long before. -/
def ReadBefore {α : Type} (asks : List Ask) (now : Instant) (read : (UInt32 → ProcDir) → α)
    (value : α) : Prop :=
  ∃ q ∈ asks, now - q.now ≤ IdentityResolver.cacheTtl ∧ value = read q.proc

/-- A process without a name is answered for with the name of the thread. -/
def Answers (asks : List Ask) (now : Instant) : Question → NodeId ⊕ String → Prop
  | .resolve tgid, .inl id =>
    ReadBefore asks now (fun proc => resolveUncached lossy tgid (proc tgid)) id
  | .comm tgid, .inr name => ReadBefore asks now (fun proc => (proc tgid).name lossy) name
  | .commPair tgid pid, .inr name =>
    ReadBefore asks now (fun proc => (proc tgid).name lossy) name ∨
      ReadBefore asks now (fun proc => (proc tgid).name lossy) "" ∧
        ReadBefore asks now (fun proc => (proc pid).name lossy) name
  | _, _ => False

/-- Both caches hold what was read, and not too much of it. -/
structure Faithful (asks : List Ask) (r : Resolver) : Prop where
  ids : r.cache.All fun tgid e =>
    ∃ q ∈ asks, e.atTime = q.now ∧ e.id = resolveUncached lossy tgid (q.proc tgid)
  names : r.commCache.All fun tgid e => ∃ q ∈ asks, e.2 = q.now ∧ e.1 = (q.proc tgid).name lossy
  idsLen : r.cache.len ≤ IdentityResolver.cacheCap
  namesLen : r.commCache.len ≤ IdentityResolver.cacheCap

variable {lossy} {asks : List Ask} {r : Resolver}

theorem faithful_start : Faithful lossy [] start := by
  refine ⟨.empty,.empty,?_,?_⟩
  · exact Nat.zero_le _
  · exact Nat.zero_le _

theorem Faithful.mono (h : r.Faithful lossy asks) (a : Ask) : r.Faithful lossy (asks ++ [a]) where
  ids tgid e he := by
    obtain ⟨q,hq,hread⟩ := h.ids tgid e he
    exact ⟨q,List.mem_append_left _ hq,hread⟩
  names tgid e he := by
    obtain ⟨q,hq,hread⟩ := h.names tgid e he
    exact ⟨q,List.mem_append_left _ hq,hread⟩
  idsLen := h.idsLen
  namesLen := h.namesLen

theorem Faithful.resolve (h : r.Faithful lossy asks) {a : Ask} (ha : a ∈ asks) (tgid : UInt32) :
    let q := r.resolve tgid a.now (resolveUncached lossy tgid (a.proc tgid))
    ({r with toIdentityResolver := q.1} : Resolver).Faithful lossy asks ∧
      ReadBefore asks a.now (fun proc => resolveUncached lossy tgid (proc tgid)) q.2 := by
  intro q
  let read : CacheEntry := ⟨resolveUncached lossy tgid (a.proc tgid),a.now⟩
  have hq : q = _ := r.resolve_eq_fetch tgid a.now read.id
  obtain ⟨hall,x,hx,htime,hid⟩ := fetch_all CacheEntry.atTime IdentityResolver.cacheTtl
    IdentityResolver.cacheCap a.now read h.ids ⟨a,ha,rfl,rfl⟩
  rw [hq]
  refine ⟨⟨hall,h.names,len_fetch_le (by decide) h.idsLen,h.namesLen⟩,x,hx,?_,hid⟩
  rw [← htime]
  exact fetch_fresh _ _ rfl

theorem Faithful.comm (h : r.Faithful lossy asks) {a : Ask} (ha : a ∈ asks) (tgid : UInt32) :
    let q := r.commCache.comm tgid a.now ((a.proc tgid).name lossy)
    ({r with commCache := q.1} : Resolver).Faithful lossy asks ∧
      ReadBefore asks a.now (fun proc => (proc tgid).name lossy) q.2 := by
  intro q
  obtain ⟨hall,t,⟨x,hx,rfl,hname⟩,hfresh⟩ := CommCache.comm_all h.names tgid a.now
    ⟨a,ha,rfl,rfl⟩
  exact ⟨⟨h.ids,hall,h.idsLen,len_fetch_le (by decide) h.namesLen⟩,x,hx,hfresh,hname⟩

theorem Faithful.commPair (h : r.Faithful lossy asks) {a : Ask} (ha : a ∈ asks)
    (tgid pid : UInt32) :
    let q := r.commCache.commPair tgid pid a.now fun t => (a.proc t).name lossy
    ({r with commCache := q.1} : Resolver).Faithful lossy asks ∧
      (ReadBefore asks a.now (fun proc => (proc tgid).name lossy) q.2 ∨
        ReadBefore asks a.now (fun proc => (proc tgid).name lossy) "" ∧
          ReadBefore asks a.now (fun proc => (proc pid).name lossy) q.2) := by
  intro q
  obtain ⟨hfirst,hname⟩ := h.comm ha tgid
  simp only [q,CommCache.commPair]
  split_ifs with hdone
  · exact ⟨hfirst,.inl hname⟩
  · obtain ⟨hempty,-⟩ := not_or.mp hdone
    rw [not_ne_iff.mp hempty] at hname
    obtain ⟨hsecond,hthread⟩ := hfirst.comm ha pid
    exact ⟨hsecond,.inr ⟨hname,hthread⟩⟩

theorem Faithful.answer (h : r.Faithful lossy asks) (a : Ask) :
    (r.answer lossy a).1.Faithful lossy (asks ++ [a]) ∧
      Answers lossy (asks ++ [a]) a.now a.question (r.answer lossy a).2 := by
  have hmore := h.mono a
  have ha : a ∈ asks ++ [a] := List.mem_append_right _ (List.mem_singleton_self a)
  unfold Resolver.answer
  split
  · next tgid hquestion =>
    rw [hquestion]
    exact hmore.resolve ha tgid
  · next tgid hquestion =>
    rw [hquestion]
    exact hmore.comm ha tgid
  · next tgid pid hquestion =>
    rw [hquestion]
    exact hmore.commPair ha tgid pid

end

end Resolver

/-- Whatever was asked before: every identity and every name that the resolver answers with was
read for this process, or for the thread if the process had none, at most half a minute ago, and
neither cache outgrows its bound. -/
theorem identity_answers_recent (lossy : List UInt8 → String) (asks : List Ask) (a : Ask) :
    let r := Machine.final (Resolver.step lossy) .start asks
    r.cache.len ≤ 8192 ∧ r.commCache.len ≤ 8192 ∧
      Resolver.Answers lossy (asks ++ [a]) a.now a.question (r.answer lossy a).2 := by
  intro r
  have h : r.Faithful lossy asks := Machine.final_history (Resolver.step lossy)
    (I := fun asks r => r.Faithful lossy asks) (fun a h => (h.answer a).1) Resolver.faithful_start asks
  exact ⟨h.idsLen,h.namesLen,(h.answer a).2⟩

end ObsAgent
