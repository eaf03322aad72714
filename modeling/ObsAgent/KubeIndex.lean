import ObsAgent.CommFilter
import ObsAgent.Paging
import ObsAgent.Publish

/-! The Kubernetes index and its refresh from the paged lists of the cluster's interface.  A body
is what the decoder makes of it, if it is a list at all. -/
namespace ObsAgent

inductive ListError
  | noAccess
  | fetch
  | json
  | missingItems
  | tooManyPages
  deriving DecidableEq

def maxListPages : ℕ := 512

structure ListMeta where
  continueToken : Option String

structure ObjectMeta where
  name : Option String
  namespaceName : Option String
  uid : Option String
  deletionTimestamp : Option String

structure PodSpec where
  hostNetwork : Bool

structure PodIp where
  ip : Option String

structure PodStatus where
  phase : Option String
  podIp : Option String
  podIps : Option (List PodIp)

structure PodItem where
  metadata : Option ObjectMeta
  spec : Option PodSpec
  status : Option PodStatus

structure ServiceSpec where
  clusterIp : Option String
  clusterIps : Option (List String)

structure ServiceItem where
  metadata : Option ObjectMeta
  spec : Option ServiceSpec

structure KubeList (α : Type) where
  metadata : Option ListMeta
  items : Option (List α)

/-- A page as it comes back: an error, or a body that is a list or is none. -/
abbrev Fetched (α : Type) := Except ListError (Option (KubeList α))

abbrev IpMap := FiniteMap UInt32 (String × String)

/-- At most three digits, without a leading zero. -/
def parseOctet (cs : List Char) : Option UInt8 :=
  if cs = [] ∨ 3 < cs.length ∨ cs.head? = some '0' ∧ 1 < cs.length then none
  else ((Text.digitsValue cs 0).filter fun v => decide (v ≤ 255)).map UInt8.ofNat

/-- `str::parse::<Ipv4Addr>`, as its four octets. -/
def parseIpv4 (s : String) : Option (List UInt8) :=
  ((s.toList.splitOn '.').mapM parseOctet).filter fun octets => octets.length = 4

/-- The octets of a little-endian word. -/
def fromNeBytes (octets : List UInt8) : UInt32 :=
  octets.foldr (fun b v => b.toUInt32 + v <<< 8) 0

def insertV4Ip (map : IpMap) (ip ns name : String) : IpMap :=
  if ip = "" || ip.toList.map Char.toLower = "none".toList then map
  else (parseIpv4 ip).elim map fun octets => map.put (fromNeBytes octets) (ns,name)

def indexUid (index : PodIndex) (uid ns name : String) : PodIndex :=
  if uid ≠ "" then {index with byUid := index.byUid.put uid (ns,name)} else index

def indexPodIps (index : PodIndex) (status : PodStatus) (ns name : String) : PodIndex :=
  let byPodIp := status.podIp.elim index.byPodIp fun ip => insertV4Ip index.byPodIp ip ns name
  let byPodIp := (status.podIps.getD []).foldl (fun map entry =>
    entry.ip.elim map fun ip => insertV4Ip map ip ns name) byPodIp
  {index with byPodIp := byPodIp}

/-- The loop body of `parse_pod_list_page`. -/
def indexPod (index : PodIndex) (item : PodItem) : PodIndex :=
  item.metadata.elim index fun objMeta =>
    let name := objMeta.name.getD ""
    let ns := objMeta.namespaceName.getD ""
    let uid := objMeta.uid.getD ""
    if name = "" || ns = "" then index
    else
      let index := indexUid index uid ns name
      let deleting := objMeta.deletionTimestamp.any (· ≠ "")
      let hostNetwork := item.spec.any PodSpec.hostNetwork
      let running := item.status.bind PodStatus.phase = some "Running"
      if !running || hostNetwork || deleting then index
      else item.status.elim index fun status => indexPodIps index status ns name

/-- The loop body of `parse_service_list_page`. -/
def indexService (map : IpMap) (item : ServiceItem) : IpMap :=
  item.metadata.elim map fun objMeta =>
    let name := objMeta.name.getD ""
    let ns := objMeta.namespaceName.getD ""
    if name = "" || ns = "" then map
    else item.spec.elim map fun spec =>
      let map := spec.clusterIp.elim map fun ip => insertV4Ip map ip ns name
      (spec.clusterIps.getD []).foldl (fun map ip => insertV4Ip map ip ns name) map

def continueToken (listMeta : Option ListMeta) : Option String :=
  (listMeta.bind ListMeta.continueToken).filter (· ≠ "")

/-- A body that is no list, or a list without items, is an error. -/
def parseListPage {α δ : Type} (index : List α → δ) (body : Option (KubeList α)) :
    Except ListError (δ × Option String) :=
  body.elim (.error .json) fun list =>
    list.items.elim (.error .missingItems) fun items =>
      .ok (index items,continueToken list.metadata)

def PodIndex.empty : PodIndex := ⟨∅,∅,∅⟩

def indexPods (items : List PodItem) : PodIndex := items.foldl indexPod .empty

def parsePodListPage : Option (KubeList PodItem) → Except ListError (PodIndex × Option String) :=
  parseListPage indexPods

def indexServices (items : List ServiceItem) : IpMap := items.foldl indexService ∅

def parseServiceListPage :
    Option (KubeList ServiceItem) → Except ListError (IpMap × Option String) :=
  parseListPage indexServices

def PodIndex.absorbPods (idx other : PodIndex) : PodIndex :=
  {idx with byUid := idx.byUid.extend other.byUid, byPodIp := idx.byPodIp.extend other.byPodIp}

/-- A page is read and decoded, and tells whether another one follows. -/
def readPage {α δ : Type} (index : List α → δ) (pages : ℕ → Fetched α) (i : ℕ) :
    Except ListError (δ × Bool) :=
  (pages i).bind fun body =>
    (parseListPage index body).map fun p => (p.1,p.2.any (· ≠ ""))

def listAll {α δ : Type} (index : List α → δ) (absorb : δ → δ → δ) (empty : δ)
    (pages : ℕ → Fetched α) : Except ListError δ :=
  Paging.collect absorb .tooManyPages (readPage index pages) maxListPages 0 empty

def listAllPods : (ℕ → Fetched PodItem) → Except ListError PodIndex :=
  listAll indexPods PodIndex.absorbPods .empty

def listAllServices : (ℕ → Fetched ServiceItem) → Except ListError IpMap :=
  listAll indexServices FiniteMap.extend ∅

/-- The pods decide; without the services the previous addresses of services stay. -/
def refreshOnce (access : Bool) (pods : ℕ → Fetched PodItem) (services : ℕ → Fetched ServiceItem)
    (prevCluster : IpMap) : Except ListError PodIndex :=
  if !access then .error .noAccess
  else (listAllPods pods).map fun next =>
    {next with byClusterIp := (listAllServices services).toOption.getD prevCluster}

/-- One turn of the polling task. -/
def refresh (index : PodIndex) (client access : Bool) (pods : ℕ → Fetched PodItem)
    (services : ℕ → Fetched ServiceItem) : PodIndex :=
  if !client then index
  else (refreshOnce access pods services index.byClusterIp).toOption.getD index

/-- The same for bodies at hand. -/
def mergeLists (prev : PodIndex) (podsJson : Option (Option (KubeList PodItem)))
    (servicesJson : Option (Option (KubeList ServiceItem))) : Except ListError (Option PodIndex) :=
  podsJson.elim (.ok none) fun pods =>
    (parsePodListPage pods).map fun next =>
      some {next.1 with byClusterIp := servicesJson.elim prev.byClusterIp fun body =>
        ((parseServiceListPage body).toOption.map Prod.fst).getD prev.byClusterIp}

end ObsAgent
