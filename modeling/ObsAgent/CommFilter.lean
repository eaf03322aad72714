import Mathlib.Data.List.DropRight
import ObsAgent.FiniteMap

/-! The process filter of the agent and what it reads from `/proc`.  A snapshot lists the entries
that could be read, so that an unreadable root is one without entries. -/
namespace ObsAgent

namespace Text

/-- `char::is_whitespace`. -/
def isWhitespace (c : Char) : Bool :=
  let n := c.toNat
  9 ≤ n && n ≤ 13 || n == 32 || n == 0x85 || n == 0xA0 || n == 0x1680 ||
    0x2000 ≤ n && n ≤ 0x200A || n == 0x2028 || n == 0x2029 || n == 0x202F || n == 0x205F ||
    n == 0x3000

def trim (s : String) : String :=
  String.ofList ((s.toList.dropWhile isWhitespace).rdropWhile isWhitespace)

/-- `str::lines`: a line ends in a line feed, which takes a carriage return in front of it along,
or with the text. -/
def lines (s : String) : List String :=
  let pieces := s.toList.splitOn '\n'
  let ended := pieces.dropLast.map fun l => if l.getLast? = some '\r' then l.dropLast else l
  (ended ++ (pieces.getLast?.filter (· ≠ [])).toList).map String.ofList

def stripPrefix (lead s : String) : Option String :=
  (s.toList.dropPrefix? lead.toList).map String.ofList

def digitsValue : List Char → ℕ → Option ℕ
  | [], v => some v
  | c :: cs, v => if c.isDigit then digitsValue cs (v*10 + (c.toNat - 48)) else none

/-- `str::parse::<u32>`: an optional plus sign, then digits. -/
def parseU32 (s : String) : Option UInt32 :=
  let digits := if s.toList.head? = some '+' then s.toList.tail else s.toList
  if digits = [] then none
  else ((digitsValue digits 0).filter fun v => decide (v < 2^32)).map UInt32.ofNat

end Text

def k8sDefaultDeny : List String :=
  ["dockerd","containerd","kubelet","kube-proxy","otelcol","otelcol-contrib"]

def selfComm : String := "obsagent"

def isSelfComm (comm : String) : Bool := Text.trim comm = selfComm

structure CommFilter where
  denyList : List String
  allowList : Option (List String)

namespace CommFilter

/-- An empty allow list is none. -/
def new (extraDeny : List String) (allow : Option (List String)) (k8sDefaults : Bool) :
    CommFilter where
  denyList := if k8sDefaults then extraDeny ∪ k8sDefaultDeny else extraDeny
  allowList := allow.filter fun l => !l.isEmpty

def allow (f : CommFilter) (comm : String) : Bool :=
  let comm := Text.trim comm
  if isSelfComm comm then false
  else match f.allowList with
    | some allow => allow.contains comm
    | none => !f.denyList.contains comm

def isAllowOnly (f : CommFilter) : Bool := f.allowList.isSome

end CommFilter

/-- An entry of the process directory, with what could be read of its files. -/
structure ProcEntry where
  name : Option String
  status : Option String
  comm : Option String

namespace ProcEntry

def pid (e : ProcEntry) : Option UInt32 := e.name.bind Text.parseU32

def statusText (e : ProcEntry) : String := e.status.getD ""

def commText (e : ProcEntry) : String := (e.comm.map Text.trim).getD ""

end ProcEntry

/-- No process has two entries. -/
structure ProcSnapshot where
  entries : List ProcEntry
  distinct : (entries.filterMap ProcEntry.pid).Nodup

/-- The first line that names a thread group decides. -/
def isThreadGroupLeader (status : String) (pid : UInt32) : Bool :=
  match (Text.lines status).findSome? (Text.stripPrefix "Tgid:") with
  | some rest => Text.parseU32 (Text.trim rest) = some pid
  | none => false

/-- The process and its name, if the entry is a thread-group leader's that has one. -/
def ProcEntry.leader (e : ProcEntry) : Option (UInt32 × String) := do
  let pid ← e.pid
  if !isThreadGroupLeader e.statusText pid then none
  else if e.commText = "" then none
  else some (pid,e.commText)

/-- The visitor is handed one leader after another until it wants no more. -/
def forEachLeaderComm {σ : Type} (visit : σ → UInt32 → String → σ × Bool) :
    List ProcEntry → σ → σ
  | [], s => s
  | e :: es, s =>
    match e.leader with
    | none => forEachLeaderComm visit es s
    | some (pid,comm) =>
      let seen := visit s pid comm
      if seen.2 then forEachLeaderComm visit es seen.1 else seen.1

abbrev TgidSet := FiniteMap UInt32 Unit

def deniedTgidCap : ℕ := 8192

def allowedTgidCap : ℕ := 8192

/-- The visitor of `denied_tgids_from_proc`. -/
def visitDenied (filter : CommFilter) (out : TgidSet) (tgid : UInt32) (comm : String) :
    TgidSet × Bool :=
  if out.len ≥ deniedTgidCap then (out,false)
  else if !out.contains tgid && !filter.allow comm then (out.put tgid (),true)
  else (out,true)

def deniedTgidsFromProc (proc : ProcSnapshot) (filter : CommFilter) (extra : TgidSet) : TgidSet :=
  forEachLeaderComm (visitDenied filter) proc.entries extra

/-- The visitor of `allowed_tgids_from_proc`. -/
def visitAllowed (filter : CommFilter) (out : TgidSet) (tgid : UInt32) (comm : String) :
    TgidSet × Bool :=
  if out.len ≥ allowedTgidCap then (out,false)
  else if filter.allow comm then (out.put tgid (),true)
  else (out,true)

def allowedTgidsFromProc (proc : ProcSnapshot) (filter : CommFilter) : TgidSet :=
  forEachLeaderComm (visitAllowed filter) proc.entries ∅

/-- What to remove and what to insert to get from the one set to the other. -/
def tgidMapDelta (published desired : TgidSet) : List UInt32 × List UInt32 :=
  (published.keys.filter fun t => !desired.contains t,
    desired.keys.filter fun t => !published.contains t)

def ProcSnapshot.leaders (proc : ProcSnapshot) : List (UInt32 × String) :=
  proc.entries.filterMap ProcEntry.leader

theorem ProcEntry.leader_eq_some_iff {e : ProcEntry} {t : UInt32} {comm : String} :
    e.leader = some (t,comm) ↔ e.pid = some t ∧ isThreadGroupLeader e.statusText t = true ∧
      e.commText ≠ "" ∧ e.commText = comm := by
  rw [leader]
  cases e.pid with
  | none => simp
  | some pid =>
    simp only [Option.bind_eq_bind,Option.bind_some,Option.some.injEq]
    split_ifs with hfollows hunnamed
    · refine iff_of_false (by simp) ?_
      rintro ⟨rfl,hleads,-⟩
      simp [hleads] at hfollows
    · exact iff_of_false (by simp) fun h => h.2.2.1 hunnamed
    · rw [Option.some.injEq,Prod.mk.injEq]
      constructor
      · rintro ⟨rfl,rfl⟩
        exact ⟨rfl,by simpa using hfollows,hunnamed,rfl⟩
      · exact fun h => ⟨h.1,h.2.2.2⟩

theorem leaders_sublist (es : List ProcEntry) :
    ((es.filterMap ProcEntry.leader).map Prod.fst).Sublist (es.filterMap ProcEntry.pid) := by
  induction es with
  | nil => exact .slnil
  | cons e es ih =>
    cases hlead : e.leader with
    | none =>
      rw [List.filterMap_cons_none hlead,List.filterMap_cons]
      split
      · exact ih
      · exact ih.cons _
    | some l =>
      have hpid := (ProcEntry.leader_eq_some_iff.mp hlead).1
      rw [List.filterMap_cons_some hlead,List.filterMap_cons_some hpid]
      exact ih.cons_cons _

theorem ProcSnapshot.leader_unique (proc : ProcSnapshot) {t : UInt32} {comm comm' : String}
    (h : (t,comm) ∈ proc.leaders) (h' : (t,comm') ∈ proc.leaders) : comm = comm' := by
  have hnodup := proc.distinct.sublist (leaders_sublist proc.entries)
  exact (Prod.mk.inj (List.inj_on_of_nodup_map hnodup h h' rfl)).2

/-- The names whose processes the filter puts into the map that it uses. -/
def CommFilter.lists (f : CommFilter) (comm : String) : Bool :=
  if f.isAllowOnly then f.allow comm else !f.allow comm

def qualifying (qualifies : String → Bool) (leaders : List (UInt32 × String)) : List UInt32 :=
  (leaders.filter fun l => qualifies l.2).map Prod.fst

theorem ProcSnapshot.mem_qualifying_iff (proc : ProcSnapshot) {t : UInt32} {comm : String}
    (h : (t,comm) ∈ proc.leaders) (qualifies : String → Bool) :
    t ∈ qualifying qualifies proc.leaders ↔ qualifies comm = true := by
  rw [qualifying,List.mem_map]
  constructor
  · rintro ⟨⟨u,comm'⟩,hmem,rfl⟩
    obtain ⟨hin,hq⟩ := List.mem_filter.mp hmem
    rwa [proc.leader_unique h hin]
  · exact fun hq => ⟨_,List.mem_filter.mpr ⟨h,hq⟩,rfl⟩

/-- A visitor that goes on and collects what qualifies while there is room. -/
structure Collects (visit : TgidSet → UInt32 → String → TgidSet × Bool) (cap : ℕ)
    (qualifies : String → Bool) : Prop where
  goesOn : ∀ out tgid comm, out.len < cap → (visit out tgid comm).2 = true
  adds : ∀ out tgid comm, out.len < cap → ∀ t, (visit out tgid comm).1.contains t = true ↔
    out.contains t = true ∨ qualifies comm = true ∧ t = tgid

theorem Collects.forEach {visit : TgidSet → UInt32 → String → TgidSet × Bool} {cap : ℕ}
    {qualifies : String → Bool} (h : Collects visit cap qualifies) (es : List ProcEntry)
    (out : TgidSet) (t : UInt32)
    (hroom : (out.keys.toFinset ∪
      (qualifying qualifies (es.filterMap ProcEntry.leader)).toFinset).card < cap) :
    (forEachLeaderComm visit es out).contains t = true ↔
      out.contains t = true ∨ t ∈ qualifying qualifies (es.filterMap ProcEntry.leader) := by
  induction es generalizing out with
  | nil => simp [forEachLeaderComm,qualifying]
  | cons e es ih =>
    rw [forEachLeaderComm]
    cases hlead : e.leader with
    | none =>
      rw [List.filterMap_cons_none hlead] at hroom ⊢
      exact ih out hroom
    | some l =>
      obtain ⟨pid,comm⟩ := l
      rw [List.filterMap_cons_some hlead] at hroom ⊢
      have hlen : out.len < cap := by
        rw [← out.card_keys]
        exact lt_of_le_of_lt (Finset.card_le_card Finset.subset_union_left) hroom
      have hqual : ∀ u, u ∈ qualifying qualifies ((pid,comm) :: es.filterMap ProcEntry.leader) ↔
          (qualifies comm = true ∧ u = pid) ∨
            u ∈ qualifying qualifies (es.filterMap ProcEntry.leader) := by
        intro u
        rw [qualifying,List.filter_cons]
        split_ifs with hq <;> simp [hq,qualifying]
      have hnext : (visit out pid comm).1.keys.toFinset ∪
          (qualifying qualifies (es.filterMap ProcEntry.leader)).toFinset =
            out.keys.toFinset ∪ (qualifying qualifies
              ((pid,comm) :: es.filterMap ProcEntry.leader)).toFinset := by
        ext u
        simp only [Finset.mem_union,List.mem_toFinset,FiniteMap.mem_keys_iff,hqual]
        have hadds := h.adds out pid comm hlen u
        rw [FiniteMap.contains,FiniteMap.contains] at hadds
        rw [hadds,or_assoc]
      simp only [h.goesOn out pid comm hlen,if_true]
      rw [ih _ (hnext ▸ hroom),h.adds out pid comm hlen,hqual,or_assoc]

theorem visitDenied_collects (filter : CommFilter) :
    Collects (visitDenied filter) deniedTgidCap fun comm => !filter.allow comm := by
  constructor
  · intro out tgid comm hlen
    rw [visitDenied,if_neg (Nat.not_le.mpr hlen)]
    split_ifs <;> rfl
  · intro out tgid comm hlen t
    rw [visitDenied,if_neg (Nat.not_le.mpr hlen)]
    cases hallow : filter.allow comm with
    | true => simp
    | false =>
      by_cases hin : out.contains tgid = true
      · have hsame : t = tgid → out.contains t = true := fun ht => ht ▸ hin
        simpa [hin] using hsame
      · simp [hin,FiniteMap.contains_put,or_comm]

theorem visitAllowed_collects (filter : CommFilter) :
    Collects (visitAllowed filter) allowedTgidCap filter.allow := by
  constructor
  · intro out tgid comm hlen
    rw [visitAllowed,if_neg (Nat.not_le.mpr hlen)]
    split_ifs <;> rfl
  · intro out tgid comm hlen t
    rw [visitAllowed,if_neg (Nat.not_le.mpr hlen)]
    cases hallow : filter.allow comm with
    | true => simp [FiniteMap.contains_put,or_comm]
    | false => simp

/-- With room for all of them, the leaders that are denied are those whose names are. -/
theorem contains_deniedTgidsFromProc {proc : ProcSnapshot} {filter : CommFilter} {extra : TgidSet}
    {t : UInt32} {comm : String} (h : (t,comm) ∈ proc.leaders) (hextra : extra.contains t = false)
    (hroom : (extra.keys.toFinset ∪
      (qualifying (fun comm => !filter.allow comm) proc.leaders).toFinset).card < deniedTgidCap) :
    (deniedTgidsFromProc proc filter extra).contains t = !filter.allow comm := by
  have hin := (visitDenied_collects filter).forEach proc.entries extra t hroom
  rw [← ProcSnapshot.leaders,proc.mem_qualifying_iff h,hextra] at hin
  rw [Bool.eq_iff_iff,deniedTgidsFromProc,hin]
  simp

theorem contains_allowedTgidsFromProc {proc : ProcSnapshot} {filter : CommFilter} {t : UInt32}
    {comm : String} (h : (t,comm) ∈ proc.leaders)
    (hroom : (qualifying filter.allow proc.leaders).toFinset.card < allowedTgidCap) :
    (allowedTgidsFromProc proc filter).contains t = filter.allow comm := by
  have hin := (visitAllowed_collects filter).forEach proc.entries ∅ t
    (by rwa [AList.keys_empty,List.toFinset_nil,Finset.empty_union])
  rw [← ProcSnapshot.leaders,proc.mem_qualifying_iff h] at hin
  rw [Bool.eq_iff_iff,allowedTgidsFromProc,hin]
  simp [FiniteMap.contains]

end ObsAgent
