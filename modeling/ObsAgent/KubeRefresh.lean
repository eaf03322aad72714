import ObsAgent.KubeIndex

/-! The pages of a list against one page with all their items, and what a refresh leaves of the
index when a list fails. -/
namespace ObsAgent

/-- The key of an address, if it is one that is filed. -/
def v4Key (ip : String) : Option UInt32 :=
  if ip = "" || ip.toList.map Char.toLower = "none".toList then none
  else (parseIpv4 ip).map fromNeBytes

theorem get_insertV4Ip (map : IpMap) (ip ns name : String) (k : UInt32) :
    (insertV4Ip map ip ns name).get k = if v4Key ip = some k then some (ns,name) else map.get k := by
  rw [insertV4Ip,v4Key]
  split_ifs with hnone hkey hkey
  · simp at hkey
  · rfl
  · obtain ⟨octets,hparse,hk⟩ := Option.map_eq_some_iff.mp hkey
    rw [hparse,Option.elim_some,hk,FiniteMap.get_put_self]
  · cases hparse : parseIpv4 ip with
    | none => rfl
    | some octets =>
      rw [hparse,Option.map_some,Option.some.injEq] at hkey
      rw [Option.elim_some,FiniteMap.get_put,if_neg (Ne.symm hkey)]

theorem get_foldl_insertV4Ip (ips : List String) (map : IpMap) (ns name : String) (k : UInt32) :
    (ips.foldl (fun map ip => insertV4Ip map ip ns name) map).get k =
      if k ∈ ips.filterMap v4Key then some (ns,name) else map.get k := by
  induction ips generalizing map with
  | nil => rfl
  | cons ip ips ih =>
    rw [List.foldl_cons,ih,get_insertV4Ip]
    have hmem : k ∈ (ip :: ips).filterMap v4Key ↔ v4Key ip = some k ∨ k ∈ ips.filterMap v4Key := by
      simp
    rw [if_congr hmem rfl rfl]
    split_ifs <;> tauto

/-- The pod or service that an item names. -/
def ownerOf (metadata : Option ObjectMeta) : Option (String × String) :=
  metadata.bind fun m =>
    if m.name.getD "" = "" || m.namespaceName.getD "" = "" then none
    else some (m.namespaceName.getD "",m.name.getD "")

namespace PodItem

/-- Running, on a network of its own and not on its way out. -/
def serving (item : PodItem) : Bool :=
  item.status.bind PodStatus.phase = some "Running" && !item.spec.any PodSpec.hostNetwork &&
    !item.metadata.any fun m => m.deletionTimestamp.any (· ≠ "")

def ips (item : PodItem) : List String :=
  item.status.elim [] fun s => s.podIp.toList ++ (s.podIps.getD []).filterMap PodIp.ip

def writesIp (ip : UInt32) (item : PodItem) : Option (String × String) :=
  if item.serving && ip ∈ item.ips.filterMap v4Key then ownerOf item.metadata else none

def writesUid (uid : String) (item : PodItem) : Option (String × String) :=
  if uid ≠ "" ∧ (item.metadata.bind ObjectMeta.uid).getD "" = uid then ownerOf item.metadata
  else none

end PodItem

def ServiceItem.ips (item : ServiceItem) : List String :=
  item.spec.elim [] fun s => s.clusterIp.toList ++ s.clusterIps.getD []

def ServiceItem.writesIp (ip : UInt32) (item : ServiceItem) : Option (String × String) :=
  if ip ∈ item.ips.filterMap v4Key then ownerOf item.metadata else none

section

variable {σ α β : Type}

theorem foldl_optional (step : σ → α → σ) (first : Option α) (rest : List α) (s : σ) :
    rest.foldl step (first.elim s fun a => step s a) = (first.toList ++ rest).foldl step s := by
  cases first <;> rfl

theorem foldl_elim (step : σ → β → σ) (f : α → Option β) (l : List α) (s : σ) :
    l.foldl (fun s a => (f a).elim s fun b => step s b) s = (l.filterMap f).foldl step s := by
  induction l generalizing s with
  | nil => rfl
  | cons a l ih =>
    rw [List.foldl_cons,ih]
    cases ha : f a with
    | none => rw [List.filterMap_cons_none ha]; rfl
    | some b => rw [List.filterMap_cons_some ha]; rfl

theorem ownerOf_cases (metadata : Option ObjectMeta) :
    (ownerOf metadata = none ∧ ∀ (s : σ) (step : ObjectMeta → σ), metadata.elim s (fun m =>
      if m.name.getD "" = "" || m.namespaceName.getD "" = "" then s else step m) = s) ∨
    ∃ m, metadata = some m ∧ ¬ (m.name.getD "" = "" || m.namespaceName.getD "" = "") = true ∧
      ownerOf metadata = some (m.namespaceName.getD "",m.name.getD "") := by
  cases metadata with
  | none => exact Or.inl ⟨rfl,fun _ _ => rfl⟩
  | some m =>
    simp only [ownerOf,Option.elim_some,Option.bind_some]
    by_cases hunnamed : (m.name.getD "" = "" || m.namespaceName.getD "" = "") = true
    · exact Or.inl ⟨if_pos hunnamed,fun _ _ => if_pos hunnamed⟩
    · exact Or.inr ⟨m,rfl,hunnamed,if_neg hunnamed⟩

end

theorem get_indexService (map : IpMap) (item : ServiceItem) (ip : UInt32) :
    (indexService map item).get ip = (item.writesIp ip).or (map.get ip) := by
  rw [indexService,ServiceItem.writesIp]
  obtain ⟨howner,hpass⟩ | ⟨m,hmeta,hnamed,howner⟩ := ownerOf_cases item.metadata
  · rw [hpass,howner,ite_self,Option.none_or]
  rw [howner,hmeta,Option.elim_some,if_neg hnamed]
  cases hspec : item.spec with
  | none =>
    have hips : item.ips = [] := by rw [ServiceItem.ips,hspec]; rfl
    simp [hips]
  | some spec =>
    have hips : item.ips = spec.clusterIp.toList ++ spec.clusterIps.getD [] := by
      rw [ServiceItem.ips,hspec]; rfl
    rw [hips,Option.elim_some,
      foldl_optional fun map ip => insertV4Ip map ip (m.namespaceName.getD "") (m.name.getD ""),
      get_foldl_insertV4Ip]
    split_ifs <;> rfl

theorem byUid_indexUid (index : PodIndex) (uid ns name k : String) :
    (indexUid index uid ns name).byUid.get k =
      if k ≠ "" ∧ uid = k then some (ns,name) else index.byUid.get k := by
  rw [indexUid]
  by_cases huid : uid = ""
  · subst huid
    rw [if_neg (by simp),if_neg fun h => h.1 h.2.symm]
  · rw [if_pos huid]
    simp only [FiniteMap.get_put]
    by_cases hk : k = uid
    · subst hk
      simp [huid]
    · rw [if_neg hk,if_neg fun h => hk h.2.symm]

theorem byPodIp_indexUid (index : PodIndex) (uid ns name : String) :
    (indexUid index uid ns name).byPodIp = index.byPodIp := by
  rw [indexUid]
  split_ifs <;> rfl

theorem byPodIp_indexPodIps (index : PodIndex) (status : PodStatus) (ns name : String)
    (k : UInt32) :
    (indexPodIps index status ns name).byPodIp.get k =
      if k ∈ (status.podIp.toList ++ (status.podIps.getD []).filterMap PodIp.ip).filterMap v4Key
      then some (ns,name) else index.byPodIp.get k := by
  simp only [indexPodIps]
  rw [foldl_elim fun map ip => insertV4Ip map ip ns name,
    foldl_optional fun map ip => insertV4Ip map ip ns name,get_foldl_insertV4Ip]

theorem byUid_indexPod (index : PodIndex) (item : PodItem) (uid : String) :
    (indexPod index item).byUid.get uid = (item.writesUid uid).or (index.byUid.get uid) := by
  rw [indexPod,PodItem.writesUid]
  obtain ⟨howner,hpass⟩ | ⟨m,hmeta,hnamed,howner⟩ := ownerOf_cases item.metadata
  · rw [hpass,howner,ite_self,Option.none_or]
  rw [howner,hmeta,Option.elim_some,if_neg hnamed,Option.bind_some]
  have hrest : ∀ (stop : Bool) (index : PodIndex), (if stop then index
      else item.status.elim index fun status =>
        indexPodIps index status (m.namespaceName.getD "") (m.name.getD "")).byUid =
          index.byUid := by
    intro stop index
    cases stop with
    | true => rfl
    | false => cases item.status <;> rfl
  rw [hrest,byUid_indexUid]
  split_ifs <;> rfl

theorem byPodIp_indexPod (index : PodIndex) (item : PodItem) (ip : UInt32) :
    (indexPod index item).byPodIp.get ip = (item.writesIp ip).or (index.byPodIp.get ip) := by
  rw [indexPod,PodItem.writesIp]
  obtain ⟨howner,hpass⟩ | ⟨m,hmeta,hnamed,howner⟩ := ownerOf_cases item.metadata
  · rw [hpass,howner,ite_self,Option.none_or]
  have hserving : item.serving =
      !(!decide (item.status.bind PodStatus.phase = some "Running") ||
        item.spec.any PodSpec.hostNetwork || m.deletionTimestamp.any (· ≠ "")) := by
    rw [PodItem.serving,hmeta,Option.any_some,Bool.not_or,Bool.not_or,Bool.not_not]
  rw [howner,hmeta,Option.elim_some,if_neg hnamed]
  cases hstop : item.serving with
  | false =>
    rw [hserving,Bool.not_eq_eq_eq_not,Bool.not_false] at hstop
    rw [if_pos hstop,byPodIp_indexUid]
    rfl
  | true =>
    rw [hserving,Bool.not_eq_eq_eq_not,Bool.not_true] at hstop
    rw [if_neg (by rw [hstop]; exact Bool.false_ne_true),Bool.true_and]
    cases hstatus : item.status with
    | none =>
      have hips : item.ips = [] := by rw [PodItem.ips,hstatus]; rfl
      simp [hips,byPodIp_indexUid]
    | some status =>
      have hips : item.ips =
          status.podIp.toList ++ (status.podIps.getD []).filterMap PodIp.ip := by
        rw [PodItem.ips,hstatus]; rfl
      rw [hips,Option.elim_some,byPodIp_indexPodIps,byPodIp_indexUid]
      split_ifs with hmem hread hread
      · rfl
      · exact absurd (decide_eq_true hmem) hread
      · exact absurd (of_decide_eq_true hread) hmem
      · rfl

section

variable {α δ : Type}

/-- The items of a page that could be read and decoded. -/
def Fetched.items (page : Fetched α) : Option (List α) := page.toOption.join.bind KubeList.items

def Fetched.more (page : Fetched α) : Bool :=
  (page.toOption.join.bind fun list => continueToken list.metadata).isSome

/-- Up to this page all can be read, and it is the first that names no other. -/
structure LastPage (pages : ℕ → Fetched α) (n : ℕ) : Prop where
  decodes : ∀ i ≤ n, (pages i).items.isSome = true
  followed : ∀ i < n, (pages i).more = true
  last : (pages n).more = false

theorem LastPage.unique {pages : ℕ → Fetched α} {n n' : ℕ} (h : LastPage pages n)
    (h' : LastPage pages n') : n = n' := by
  rcases lt_trichotomy n n' with hlt | heq | hlt
  · exact absurd (h'.followed n hlt) (by simp [h.last])
  · exact heq
  · exact absurd (h.followed n' hlt) (by simp [h'.last])

def pagesUpTo (pages : ℕ → Fetched α) (n : ℕ) : List (List α) :=
  (List.range (n+1)).map fun i => (pages i).items.getD []

def itemsUpTo (pages : ℕ → Fetched α) (n : ℕ) : List α := (pagesUpTo pages n).flatten

theorem any_continueToken (listMeta : Option ListMeta) :
    (continueToken listMeta).any (· ≠ "") = (continueToken listMeta).isSome := by
  cases htoken : continueToken listMeta with
  | none => rfl
  | some c => simpa using (Option.filter_eq_some_iff.mp htoken).2

theorem readPage_eq_ok_iff (index : List α → δ) (pages : ℕ → Fetched α) (i : ℕ) (p : δ × Bool) :
    readPage index pages i = .ok p ↔
      (pages i).items.isSome = true ∧ p = (index ((pages i).items.getD []),(pages i).more) := by
  rw [readPage,Fetched.items,Fetched.more]
  cases pages i with
  | error e => simp [Except.bind,Except.toOption]
  | ok body =>
    cases body with
    | none => simp [Except.bind,Except.map,Except.toOption,parseListPage]
    | some list =>
      cases hitems : list.items with
      | none => simp [Except.bind,Except.map,Except.toOption,parseListPage,hitems]
      | some items =>
        simp only [Except.bind,Except.map,Except.toOption,parseListPage,hitems,Option.elim_some,
          Option.join_some,Option.bind_some,Option.isSome_some,Option.getD_some,any_continueToken,
          Except.ok.injEq,true_and]
        exact eq_comm

theorem endsAt_readPage_iff (index : List α → δ) (pages : ℕ → Fetched α) (n : ℕ) :
    Paging.EndsAt (readPage index pages) (fun i => index ((pages i).items.getD [])) 0 n ↔
      LastPage pages n := by
  constructor
  · intro h
    have hfollowed : ∀ i < n, (pages i).items.isSome = true ∧ (pages i).more = true := by
      intro i hi
      have hread := h.followed i hi
      rw [Nat.zero_add,readPage_eq_ok_iff] at hread
      exact ⟨hread.1,(congrArg Prod.snd hread.2).symm⟩
    have hlast := h.last
    rw [Nat.zero_add,readPage_eq_ok_iff] at hlast
    refine ⟨fun i hi => ?_,fun i hi => (hfollowed i hi).2,(congrArg Prod.snd hlast.2).symm⟩
    rcases hi.lt_or_eq with hlt | rfl
    · exact (hfollowed i hlt).1
    · exact hlast.1
  · intro h
    refine ⟨fun i hi => ?_,?_⟩
    · rw [Nat.zero_add,readPage_eq_ok_iff,h.followed i hi]
      exact ⟨h.decodes i hi.le,rfl⟩
    · rw [Nat.zero_add,readPage_eq_ok_iff,h.last]
      exact ⟨h.decodes n le_rfl,rfl⟩

/-- A list succeeds with the pages up to its last. -/
theorem listAll_eq_ok_iff (index : List α → δ) (absorb : δ → δ → δ) (empty : δ)
    (pages : ℕ → Fetched α) (r : δ) :
    listAll index absorb empty pages = .ok r ↔
      ∃ n < maxListPages, LastPage pages n ∧
        ((pagesUpTo pages n).map index).foldl absorb empty = r := by
  have hchunk : ∀ i p, readPage index pages i = .ok p → p.1 = index ((pages i).items.getD []) :=
    fun i p hp => congrArg Prod.fst ((readPage_eq_ok_iff index pages i p).mp hp).2
  rw [listAll,Paging.collect_eq_ok_iff _ hchunk]
  simp only [endsAt_readPage_iff,pagesUpTo,List.map_map,List.range_eq_range',Function.comp_def]

theorem listAll_succeeds_iff (index : List α → δ) (absorb : δ → δ → δ) (empty : δ)
    (pages : ℕ → Fetched α) :
    (∃ r, listAll index absorb empty pages = .ok r) ↔ ∃ n < maxListPages, LastPage pages n := by
  constructor
  · rintro ⟨r,hr⟩
    obtain ⟨n,hn,hlast,-⟩ := (listAll_eq_ok_iff index absorb empty pages r).mp hr
    exact ⟨n,hn,hlast⟩
  · rintro ⟨n,hn,hlast⟩
    exact ⟨_,(listAll_eq_ok_iff index absorb empty pages _).mpr ⟨n,hn,hlast,rfl⟩⟩

/-- What a list returns is the work of the pages up to its last. -/
theorem LastPage.eq_of_listAll {index : List α → δ} {absorb : δ → δ → δ} {empty : δ}
    {pages : ℕ → Fetched α} {n : ℕ} (h : LastPage pages n) {r : δ}
    (hr : listAll index absorb empty pages = .ok r) :
    r = ((pagesUpTo pages n).map index).foldl absorb empty := by
  obtain ⟨n',-,hlast,rfl⟩ := (listAll_eq_ok_iff index absorb empty pages r).mp hr
  rw [h.unique hlast]

end

theorem byUid_indexPods (items : List PodItem) (uid : String) :
    (indexPods items).byUid.get uid = items.reverse.findSome? (PodItem.writesUid uid) :=
  Paging.look_index (fun idx : PodIndex => idx.byUid.get uid) rfl
    (fun s x => byUid_indexPod s x uid) items

theorem byPodIp_indexPods (items : List PodItem) (ip : UInt32) :
    (indexPods items).byPodIp.get ip = items.reverse.findSome? (PodItem.writesIp ip) :=
  Paging.look_index (fun idx : PodIndex => idx.byPodIp.get ip) rfl
    (fun s x => byPodIp_indexPod s x ip) items

theorem get_indexServices (items : List ServiceItem) (ip : UInt32) :
    (indexServices items).get ip = items.reverse.findSome? (ServiceItem.writesIp ip) :=
  Paging.look_index (fun map : IpMap => map.get ip) rfl (fun s x => get_indexService s x ip) items

theorem byUid_absorbed (pages : List (List PodItem)) (uid : String) :
    ((pages.map indexPods).foldl PodIndex.absorbPods .empty).byUid.get uid =
      (indexPods pages.flatten).byUid.get uid :=
  Paging.look_absorbed (fun idx : PodIndex => idx.byUid.get uid) rfl
    (fun _ _ => FiniteMap.get_extend ..) (fun xs => byUid_indexPods xs uid) pages

theorem byPodIp_absorbed (pages : List (List PodItem)) (ip : UInt32) :
    ((pages.map indexPods).foldl PodIndex.absorbPods .empty).byPodIp.get ip =
      (indexPods pages.flatten).byPodIp.get ip :=
  Paging.look_absorbed (fun idx : PodIndex => idx.byPodIp.get ip) rfl
    (fun _ _ => FiniteMap.get_extend ..) (fun xs => byPodIp_indexPods xs ip) pages

theorem get_absorbed (pages : List (List ServiceItem)) (ip : UInt32) :
    ((pages.map indexServices).foldl FiniteMap.extend ∅).get ip =
      (indexServices pages.flatten).get ip :=
  Paging.look_absorbed (fun map : IpMap => map.get ip) rfl
    (fun _ _ => FiniteMap.get_extend ..) (fun xs => get_indexServices xs ip) pages

/-- The same entries, in whatever order they were put. -/
structure PodIndex.Same (a b : PodIndex) : Prop where
  byPodIp : ∀ ip, a.byPodIp.get ip = b.byPodIp.get ip
  byClusterIp : ∀ ip, a.byClusterIp.get ip = b.byClusterIp.get ip
  byUid : ∀ uid, a.byUid.get uid = b.byUid.get uid

theorem listAll_single {α δ : Type} (index : List α → δ) (absorb : δ → δ → δ) (empty : δ)
    {pages : ℕ → Fetched α} (h : (pages 0).more = false) :
    (listAll index absorb empty pages).toOption =
      ((pages 0).toOption.bind fun body => (parseListPage index body).toOption).map
        fun p => absorb empty p.1 := by
  rw [listAll,show maxListPages = 511 + 1 from rfl,Paging.collect,readPage]
  rw [Fetched.more] at h
  cases hpage : pages 0 with
  | error e => rfl
  | ok body =>
    rw [hpage] at h
    cases body with
    | none => rfl
    | some list =>
      cases hitems : list.items with
      | none => simp [Except.bind,Except.map,Except.toOption,parseListPage,hitems]
      | some items =>
        have hlast : (continueToken list.metadata).any (· ≠ "") = false :=
          (any_continueToken list.metadata).trans h
        simp only [Except.bind,Except.map,Except.toOption,parseListPage,hitems,Option.elim_some,
          hlast,Option.bind_some,Option.map_some,Bool.false_eq_true,if_false]

theorem getD_services_single {services : ℕ → Fetched ServiceItem} (h : (services 0).more = false)
    (prev : IpMap) (ip : UInt32) :
    ((listAllServices services).toOption.getD prev).get ip =
      ((services 0).toOption.elim prev fun body =>
        ((parseServiceListPage body).toOption.map Prod.fst).getD prev).get ip := by
  rw [listAllServices,listAll_single _ _ _ h]
  cases (services 0).toOption with
  | none => rfl
  | some body =>
    rw [Option.bind_some,Option.elim_some,parseServiceListPage]
    cases (parseListPage indexServices body).toOption with
    | none => rfl
    | some p => exact (FiniteMap.get_extend ..).trans Option.or_none

theorem toOption_map {α β : Type} (f : α → β) (x : Except ListError α) :
    (x.map f).toOption = x.toOption.map f := by
  cases x <;> rfl

theorem join_mergeLists (prev : PodIndex) (podsJson : Option (Option (KubeList PodItem)))
    (servicesJson : Option (Option (KubeList ServiceItem))) :
    (mergeLists prev podsJson servicesJson).toOption.join =
      (podsJson.bind fun body => (parsePodListPage body).toOption).map fun next =>
        {next.1 with byClusterIp := servicesJson.elim prev.byClusterIp fun body =>
          ((parseServiceListPage body).toOption.map Prod.fst).getD prev.byClusterIp} := by
  rw [mergeLists]
  cases podsJson with
  | none => rfl
  | some body =>
    rw [Option.elim_some,Option.bind_some,toOption_map]
    cases (parsePodListPage body).toOption <;> rfl

/-- Polling lists of one page does what merging their bodies does. -/
theorem refreshOnce_single (index : PodIndex) {pods : ℕ → Fetched PodItem}
    {services : ℕ → Fetched ServiceItem} (hpods : (pods 0).more = false)
    (hservices : (services 0).more = false) :
    Option.Rel PodIndex.Same (refreshOnce true pods services index.byClusterIp).toOption
      (mergeLists index (pods 0).toOption (services 0).toOption).toOption.join := by
  rw [refreshOnce,if_neg (by simp),toOption_map,listAllPods,listAll_single _ _ _ hpods,
    join_mergeLists,parsePodListPage,Option.map_map]
  cases (pods 0).toOption.bind fun body => (parseListPage indexPods body).toOption with
  | none => exact .none
  | some p =>
    refine .some ⟨fun ip => ?_,fun ip => getD_services_single hservices _ ip,fun uid => ?_⟩
    · exact (FiniteMap.get_extend ..).trans Option.or_none
    · exact (FiniteMap.get_extend ..).trans Option.or_none

theorem refresh_of_pods_fail (index : PodIndex) (client access : Bool)
    {pods : ℕ → Fetched PodItem} (services : ℕ → Fetched ServiceItem)
    (h : ∀ idx, listAllPods pods ≠ .ok idx) : refresh index client access pods services = index := by
  rw [refresh,refreshOnce]
  cases hlist : listAllPods pods with
  | ok idx => exact absurd hlist (h idx)
  | error e => cases client <;> cases access <;> rfl

theorem refresh_of_services_fail (index : PodIndex) {pods : ℕ → Fetched PodItem}
    {services : ℕ → Fetched ServiceItem} {idx : PodIndex} (hpods : listAllPods pods = .ok idx)
    (h : ∀ map, listAllServices services ≠ .ok map) :
    refresh index true true pods services = {idx with byClusterIp := index.byClusterIp} := by
  rw [refresh,refreshOnce,hpods]
  cases hlist : listAllServices services with
  | ok map => exact absurd hlist (h map)
  | error e => rfl

/-- A list succeeds exactly if its pages can be read up to the last, among those that are asked
for, and then holds what one page with all items would; a refresh without the pods changes nothing,
one without the services keeps their addresses, and of lists of one page it is the merge. -/
theorem pagination_transparent (pods : ℕ → Fetched PodItem) (services : ℕ → Fetched ServiceItem)
    (index : PodIndex) :
    ((∃ idx, listAllPods pods = .ok idx) ↔ ∃ n < 512, LastPage pods n) ∧
    (∀ n, LastPage pods n → ∀ idx, listAllPods pods = .ok idx →
      ∃ whole, parsePodListPage (some ⟨none,some (itemsUpTo pods n)⟩) = .ok (whole,none) ∧
        (∀ uid, idx.byUid.get uid = whole.byUid.get uid) ∧
        (∀ ip, idx.byPodIp.get ip = whole.byPodIp.get ip) ∧
        ∀ ip, idx.byPodIp.get ip =
          (itemsUpTo pods n).reverse.findSome? (PodItem.writesIp ip)) ∧
    ((∃ map, listAllServices services = .ok map) ↔ ∃ n < 512, LastPage services n) ∧
    (∀ n, LastPage services n → ∀ map, listAllServices services = .ok map →
      ∃ whole, parseServiceListPage (some ⟨none,some (itemsUpTo services n)⟩) = .ok (whole,none) ∧
        ∀ ip, map.get ip = whole.get ip) ∧
    (∀ client access, (∀ idx, listAllPods pods ≠ .ok idx) →
      refresh index client access pods services = index) ∧
    (∀ idx, listAllPods pods = .ok idx → (∀ map, listAllServices services ≠ .ok map) →
      refresh index true true pods services = {idx with byClusterIp := index.byClusterIp}) ∧
    ((pods 0).more = false → (services 0).more = false →
      Option.Rel PodIndex.Same (refreshOnce true pods services index.byClusterIp).toOption
        (mergeLists index (pods 0).toOption (services 0).toOption).toOption.join) := by
  refine ⟨listAll_succeeds_iff _ _ _ pods,?_,listAll_succeeds_iff _ _ _ services,?_,?_,?_,?_⟩
  · intro n hlast idx hidx
    rw [hlast.eq_of_listAll hidx]
    exact ⟨_,rfl,byUid_absorbed _,byPodIp_absorbed _,fun ip =>
      (byPodIp_absorbed _ ip).trans (byPodIp_indexPods _ ip)⟩
  · intro n hlast map hmap
    rw [hlast.eq_of_listAll hmap]
    exact ⟨_,rfl,get_absorbed _⟩
  · exact fun client access h => refresh_of_pods_fail index client access services h
  · exact fun idx hidx h => refresh_of_services_fail index hidx h
  · exact refreshOnce_single index

def twoPages (i : ℕ) : Fetched PodItem :=
  .ok (some (if i = 0 then
      ⟨some ⟨some "next"⟩,some [⟨some ⟨some "a",some "demo",some "ua",none⟩,none,
        some ⟨some "Running",some "10.0.0.1",none⟩⟩]⟩
    else
      ⟨none,some [⟨some ⟨some "b",some "demo",some "ub",none⟩,none,
        some ⟨some "Running",some "10.0.0.1",some [⟨some "fd00::1"⟩]⟩⟩]⟩))

/-- The later pod has the address, and a failed list of services keeps those of before. -/
theorem pagination_transparent_two_pages :
    ∃ idx, listAllPods twoPages = .ok idx ∧ idx.byUid.get "ua" = some ("demo","a") ∧
      idx.byPodIp.get 0x0100000A = some ("demo","b") ∧
      refresh ⟨∅,FiniteMap.put ∅ 7 ("demo","api"),∅⟩ true true twoPages (fun _ => .error .fetch) =
        {idx with byClusterIp := FiniteMap.put ∅ 7 ("demo","api")} := by
  have hlast : LastPage twoPages 1 := ⟨by decide,by decide,by decide⟩
  obtain ⟨hpods,hwhole,hservices,-,-,hkept,-⟩ := pagination_transparent twoPages
    (fun _ => .error .fetch) ⟨∅,FiniteMap.put ∅ 7 ("demo","api"),∅⟩
  obtain ⟨idx,hidx⟩ := hpods.mpr ⟨1,by decide,hlast⟩
  obtain ⟨whole,hparse,huid,-,hip⟩ := hwhole 1 hlast idx hidx
  refine ⟨idx,hidx,?_,(hip _).trans (by decide),hkept idx hidx ?_⟩
  · obtain rfl : indexPods (itemsUpTo twoPages 1) = whole :=
      congrArg Prod.fst (Except.ok.inj hparse)
    exact (huid _).trans ((byUid_indexPods _ _).trans (by decide))
  · intro map hmap
    obtain ⟨n,-,hserved⟩ := hservices.mp ⟨map,hmap⟩
    exact Bool.false_ne_true (hserved.decodes n le_rfl)

end ObsAgent
