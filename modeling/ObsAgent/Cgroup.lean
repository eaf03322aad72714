import ObsAgent.CommFilter
import ObsAgent.Common

/-! What the agent reads from the cgroup file of a process: the pod and the container that it
belongs to. -/
namespace ObsAgent

namespace Text

def stripSuffix (tail s : String) : Option String :=
  (s.toList.dropSuffix? tail.toList).map String.ofList

def split (sep : Char) (s : String) : List String := (s.toList.splitOn sep).map String.ofList

def replace (old new : Char) (s : String) : String :=
  String.ofList (s.toList.map fun c => if c = old then new else c)

theorem stripPrefix_eq_some {lead s rest : String} :
    stripPrefix lead s = some rest ↔ s = lead ++ rest := by
  simp only [stripPrefix,Option.map_eq_some_iff,List.dropPrefix?_eq_some_iff,beq_iff_eq]
  constructor
  · rintro ⟨l,⟨p,hl,rfl⟩,rfl⟩
    apply String.toList_inj.mp
    simp [hl]
  · rintro rfl
    exact ⟨rest.toList,⟨lead.toList,by simp,rfl⟩,by simp⟩

theorem stripSuffix_eq_some {tail s rest : String} :
    stripSuffix tail s = some rest ↔ s = rest ++ tail := by
  simp only [stripSuffix,Option.map_eq_some_iff,List.dropSuffix?_eq_some_iff,beq_iff_eq]
  constructor
  · rintro ⟨l,⟨p,hl,rfl⟩,rfl⟩
    apply String.toList_inj.mp
    simp [hl]
  · rintro rfl
    exact ⟨rest.toList,⟨tail.toList,by simp,rfl⟩,by simp⟩

end Text

def isAsciiHexdigit (b : UInt8) : Bool :=
  0x30 ≤ b && b ≤ 0x39 || 0x41 ≤ b && b ≤ 0x46 || 0x61 ≤ b && b ≤ 0x66

def dash : UInt8 := 0x2d

def looksLikeUid (s : String) : Bool :=
  let b := octets s
  decide (b.length = 36) && b[8]? = some dash && b[13]? = some dash && b[18]? = some dash &&
    b[23]? = some dash && (b.filter (· ≠ dash)).all isAsciiHexdigit

def slicePrefixes : List String :=
  ["kubepods-guaranteed-pod","kubepods-burstable-pod","kubepods-besteffort-pod","kubepods-pod"]

/-- One round of the loop over the slice prefixes. -/
def slicePodUid (part lead : String) : Option String :=
  (Text.stripPrefix lead part).bind fun rest =>
    let uid := Text.replace '_' '-' ((Text.stripSuffix ".slice" rest).getD rest)
    if looksLikeUid uid then some uid else none

def cgroupfsPodUid (part : String) : Option String :=
  (Text.stripPrefix "pod" part).bind fun rest =>
    let uid := Text.replace '_' '-' rest
    if looksLikeUid uid then some uid else none

/-- One round of the loop over the components of a path. -/
def partPodUid (part : String) : Option String :=
  (slicePrefixes.findSome? (slicePodUid part)).or (cgroupfsPodUid part)

def extractPodUid (path : String) : Option String := (Text.split '/' path).findSome? partPodUid

/-- A container id behind a prefix of the runtime. -/
def scopeContainerId (part lead : String) : Option String :=
  (Text.stripPrefix lead part).bind fun rest =>
    let id := (Text.stripSuffix ".scope" rest).getD rest
    if (octets id).length ≥ 12 && (octets id).all isAsciiHexdigit then some id else none

def partContainerId (part : String) : Option String :=
  ((scopeContainerId part "cri-containerd-").or (scopeContainerId part "docker-")).or
    (if (octets part).length = 64 && (octets part).all isAsciiHexdigit then some part else none)

def extractContainerId (path : String) : Option String :=
  (Text.split '/' path).findSome? partContainerId

structure CgroupIds where
  podUid : Option String
  containerId : Option String
  deriving DecidableEq

/-- The text behind the last colon. -/
def lastField (line : String) : String := ((Text.split ':' line).getLast?).getD line

/-- One round of the loop over the lines. -/
def CgroupIds.readLine (out : CgroupIds) (line : String) : CgroupIds where
  podUid := out.podUid.or (extractPodUid (lastField line))
  containerId := out.containerId.or (extractContainerId (lastField line))

def parseCgroup (text : String) : CgroupIds :=
  (Text.lines text).foldl CgroupIds.readLine ⟨none,none⟩

def components (text : String) : List String :=
  (Text.lines text).flatMap fun line => Text.split '/' (lastField line)

theorem foldl_readLine_podUid (lines : List String) (out : CgroupIds) :
    (lines.foldl CgroupIds.readLine out).podUid = out.podUid.or
      ((lines.flatMap fun line => Text.split '/' (lastField line)).findSome? partPodUid) := by
  induction lines generalizing out with
  | nil => simp
  | cons line lines ih =>
    rw [List.foldl_cons,ih,List.flatMap_cons,List.findSome?_append,← Option.or_assoc]
    rfl

theorem parseCgroup_podUid (text : String) :
    (parseCgroup text).podUid = (components text).findSome? partPodUid :=
  foldl_readLine_podUid (Text.lines text) ⟨none,none⟩

/-- Eight, four, four, four and twelve hexadecimal digits, with dashes between them. -/
def IsUid (s : String) : Prop :=
  (octets s).length = 36 ∧ ∀ i b, (octets s)[i]? = some b →
    if i = 8 ∨ i = 13 ∨ i = 18 ∨ i = 23 then b = dash else isAsciiHexdigit b = true

/-- The same with dashes in the place of digits. -/
def ResemblesUid (s : String) : Prop :=
  (octets s).length = 36 ∧ ∀ i b, (octets s)[i]? = some b →
    b = dash ∨ ¬ (i = 8 ∨ i = 13 ∨ i = 18 ∨ i = 23) ∧ isAsciiHexdigit b = true

theorem IsUid.resembles {s : String} (h : IsUid s) : ResemblesUid s := by
  refine ⟨h.1,fun i b hb => ?_⟩
  have hat := h.2 i b hb
  split_ifs at hat with hi
  · exact Or.inl hat
  · exact Or.inr ⟨hi,hat⟩

theorem looksLikeUid_iff (s : String) : looksLikeUid s = true ↔ ResemblesUid s := by
  simp only [looksLikeUid,Bool.and_eq_true,decide_eq_true_eq,List.all_eq_true,List.mem_filter,
    and_imp]
  constructor
  · rintro ⟨⟨⟨⟨⟨hlen,h8⟩,h13⟩,h18⟩,h23⟩,hhex⟩
    refine ⟨hlen,fun i b hb => ?_⟩
    by_cases hi : i = 8 ∨ i = 13 ∨ i = 18 ∨ i = 23
    · left
      rcases hi with rfl | rfl | rfl | rfl <;> simp_all
    · by_cases hd : b = dash
      · exact Or.inl hd
      · exact Or.inr ⟨hi,hhex b (List.mem_of_getElem? hb) hd⟩
  · rintro ⟨hlen,hall⟩
    have hdash : ∀ i, i = 8 ∨ i = 13 ∨ i = 18 ∨ i = 23 → (octets s)[i]? = some dash := by
      intro i hi
      have hlt : i < (octets s).length := by omega
      rcases hall i _ (List.getElem?_eq_getElem hlt) with hd | ⟨hnot,-⟩
      · rw [List.getElem?_eq_getElem hlt,hd]
      · exact absurd hi hnot
    refine ⟨⟨⟨⟨⟨hlen,hdash 8 (by simp)⟩,hdash 13 (by simp)⟩,hdash 18 (by simp)⟩,
      hdash 23 (by simp)⟩,fun b hb hne => ?_⟩
    obtain ⟨i,hi⟩ := List.mem_iff_getElem?.mp hb
    exact ((hall i b hi).resolve_left hne).2

theorem octets_eq_flatMap (s : String) : octets s = s.toList.flatMap String.utf8EncodeChar := by
  conv_lhs => rw [← String.ofList_toList (s := s)]
  rw [octets,String.toUTF8,String.toByteArray_ofList,List.utf8Encode,List.data_toByteArray]

theorem mem_octets {s : String} {c : Char} {b : UInt8} (hc : c ∈ s.toList)
    (hb : String.utf8EncodeChar c = [b]) : b ∈ octets s := by
  rw [octets_eq_flatMap]
  exact List.mem_flatMap.mpr ⟨c,hc,by simp [hb]⟩

theorem ResemblesUid.not_mem {s : String} (h : ResemblesUid s) {c : Char} {b : UInt8}
    (hb : String.utf8EncodeChar c = [b]) (hdash : b ≠ dash) (hhex : isAsciiHexdigit b = false) :
    c ∉ s.toList := by
  intro hc
  obtain ⟨i,hi⟩ := List.mem_iff_getElem?.mp (mem_octets hc hb)
  rcases h.2 i b hi with hd | ⟨-,hx⟩
  · exact hdash hd
  · rw [hhex] at hx
    exact Bool.false_ne_true hx

/-- A component spells a text behind one of the prefixes. -/
def Spells (part w : String) : Prop :=
  (∃ lead ∈ slicePrefixes, part = lead ++ w ∨ part = lead ++ w ++ ".slice") ∨ part = "pod" ++ w

/-- A component that is taken for one of the pod `v`. -/
def Resembles (part v : String) : Prop :=
  ResemblesUid v ∧ ∃ w, v = Text.replace '_' '-' w ∧ Spells part w

/-- A component that the kubelet makes for the pod `u`: a systemd slice, where underscores stand for
the dashes, or a directory. -/
def KubeletComponent (part u : String) : Prop :=
  IsUid u ∧ ((∃ lead ∈ slicePrefixes, part = lead ++ Text.replace '-' '_' u ∨
    part = lead ++ Text.replace '-' '_' u ++ ".slice") ∨ part = "pod" ++ u)

theorem replace_eq_self {s : String} {old new : Char} (h : old ∉ s.toList) :
    Text.replace old new s = s := by
  have hkeep : ∀ c ∈ s.toList, (if c = old then new else c) = c := by
    intro c hc
    rw [if_neg]
    rintro rfl
    exact h hc
  rw [Text.replace,List.map_congr_left hkeep,List.map_id',String.ofList_toList]

theorem replace_replace {s : String} {old new : Char} (h : new ∉ s.toList) :
    Text.replace new old (Text.replace old new s) = s := by
  have hmap : ((s.toList.map fun c => if c = old then new else c).map
      fun c => if c = new then old else c) = s.toList := by
    rw [List.map_map]
    conv_rhs => rw [← List.map_id s.toList]
    apply List.map_congr_left
    intro c hc
    have hne : c ≠ new := fun heq => h (heq ▸ hc)
    by_cases hold : c = old
    · simp [hold]
    · simp [hold,hne]
  rw [Text.replace,Text.replace,String.toList_ofList,hmap,String.ofList_toList]

theorem KubeletComponent.resembles {part u : String} (h : KubeletComponent part u) :
    Resembles part u := by
  have hshape := h.1.resembles
  have hno : '_' ∉ u.toList := hshape.not_mem (b := 0x5f) (by decide) (by decide) (by decide)
  refine ⟨hshape,?_⟩
  rcases h.2 with hslice | hpod
  · exact ⟨Text.replace '-' '_' u,(replace_replace hno).symm,Or.inl hslice⟩
  · exact ⟨u,(replace_eq_self hno).symm,Or.inr hpod⟩

theorem not_dot_of_resemblesUid {w : String} (h : ResemblesUid (Text.replace '_' '-' w)) :
    Text.stripSuffix ".slice" w = none := by
  cases hs : Text.stripSuffix ".slice" w with
  | none => rfl
  | some w' =>
    obtain rfl := Text.stripSuffix_eq_some.mp hs
    exfalso
    refine h.not_mem (c := '.') (b := 0x2e) (by decide) (by decide) (by decide) ?_
    simp [Text.replace]

theorem slicePodUid_eq_some {part lead v : String} :
    slicePodUid part lead = some v ↔ ResemblesUid v ∧ ∃ w, v = Text.replace '_' '-' w ∧
      (part = lead ++ w ∨ part = lead ++ w ++ ".slice") := by
  simp only [slicePodUid,Option.bind_eq_some_iff,Text.stripPrefix_eq_some]
  constructor
  · rintro ⟨rest,rfl,h⟩
    split_ifs at h with hlooks
    obtain rfl := Option.some.inj h
    refine ⟨(looksLikeUid_iff _).mp hlooks,_,rfl,?_⟩
    cases hs : Text.stripSuffix ".slice" rest with
    | none => exact Or.inl rfl
    | some w =>
      obtain rfl := Text.stripSuffix_eq_some.mp hs
      exact Or.inr (String.append_assoc ..).symm
  · rintro ⟨hshape,w,rfl,rfl | rfl⟩
    · refine ⟨w,rfl,?_⟩
      rw [not_dot_of_resemblesUid hshape,Option.getD_none,if_pos ((looksLikeUid_iff _).mpr hshape)]
    · refine ⟨w ++ ".slice",String.append_assoc ..,?_⟩
      rw [Text.stripSuffix_eq_some.mpr rfl,Option.getD_some,
        if_pos ((looksLikeUid_iff _).mpr hshape)]

theorem cgroupfsPodUid_eq_some {part v : String} :
    cgroupfsPodUid part = some v ↔ ResemblesUid v ∧ ∃ w, v = Text.replace '_' '-' w ∧
      part = "pod" ++ w := by
  simp only [cgroupfsPodUid,Option.bind_eq_some_iff,Text.stripPrefix_eq_some]
  constructor
  · rintro ⟨rest,rfl,h⟩
    split_ifs at h with hlooks
    obtain rfl := Option.some.inj h
    exact ⟨(looksLikeUid_iff _).mp hlooks,rest,rfl,rfl⟩
  · rintro ⟨hshape,w,rfl,rfl⟩
    exact ⟨w,rfl,if_pos ((looksLikeUid_iff _).mpr hshape)⟩

theorem lead_unique {a b part w w' : String} (ha : a ∈ "pod" :: slicePrefixes)
    (hb : b ∈ "pod" :: slicePrefixes) (h : part = a ++ w) (h' : part = b ++ w') : a = b := by
  have hfree : ∀ a ∈ "pod" :: slicePrefixes, ∀ b ∈ "pod" :: slicePrefixes,
      a.toList.isPrefixOf b.toList = true → a = b := by decide +kernel
  have hpa : a.toList <+: part.toList := by simp [h]
  have hpb : b.toList <+: part.toList := by simp [h']
  rcases List.prefix_or_prefix_of_prefix hpa hpb with hab | hba
  · exact hfree a ha b hb (List.isPrefixOf_iff_prefix.mpr hab)
  · exact (hfree b hb a ha (List.isPrefixOf_iff_prefix.mpr hba)).symm

theorem slicePodUid_lead {part lead v : String} (h : slicePodUid part lead = some v) :
    ∃ w, part = lead ++ w := by
  obtain ⟨-,w,-,rfl | rfl⟩ := slicePodUid_eq_some.mp h
  · exact ⟨w,rfl⟩
  · exact ⟨w ++ ".slice",String.append_assoc ..⟩

theorem findSome_slicePodUid {part lead v : String} (hlead : lead ∈ slicePrefixes)
    (h : slicePodUid part lead = some v) :
    slicePrefixes.findSome? (slicePodUid part) = some v := by
  cases hf : slicePrefixes.findSome? (slicePodUid part) with
  | none =>
    rw [List.findSome?_eq_none_iff] at hf
    rw [hf lead hlead] at h
    cases h
  | some v' =>
    obtain ⟨lead',hlead',h'⟩ := List.exists_of_findSome?_eq_some hf
    obtain ⟨w,hw⟩ := slicePodUid_lead h
    obtain ⟨w',hw'⟩ := slicePodUid_lead h'
    obtain rfl := lead_unique (List.mem_cons_of_mem _ hlead) (List.mem_cons_of_mem _ hlead') hw hw'
    exact h'.symm.trans h

theorem findSome_slicePodUid_pod (w : String) :
    slicePrefixes.findSome? (slicePodUid ("pod" ++ w)) = none := by
  rw [List.findSome?_eq_none_iff]
  intro lead hlead
  cases h : slicePodUid ("pod" ++ w) lead with
  | none => rfl
  | some v =>
    obtain ⟨w',hw⟩ := slicePodUid_lead h
    obtain rfl := lead_unique (List.mem_cons_self ..) (List.mem_cons_of_mem _ hlead) rfl hw
    exact absurd hlead (by decide)

/-- A component is taken exactly if it resembles one of a pod. -/
theorem partPodUid_eq_some_iff {part v : String} : partPodUid part = some v ↔ Resembles part v := by
  rw [partPodUid,Option.or_eq_some_iff]
  constructor
  · rintro (h | ⟨-,h⟩)
    · obtain ⟨lead,hlead,h⟩ := List.exists_of_findSome?_eq_some h
      obtain ⟨hshape,w,hv,hpart⟩ := slicePodUid_eq_some.mp h
      exact ⟨hshape,w,hv,Or.inl ⟨lead,hlead,hpart⟩⟩
    · obtain ⟨hshape,w,hv,hpart⟩ := cgroupfsPodUid_eq_some.mp h
      exact ⟨hshape,w,hv,Or.inr hpart⟩
  · rintro ⟨hshape,w,hv,⟨lead,hlead,hpart⟩ | hpart⟩
    · exact Or.inl (findSome_slicePodUid hlead (slicePodUid_eq_some.mpr ⟨hshape,w,hv,hpart⟩))
    · refine Or.inr ⟨?_,cgroupfsPodUid_eq_some.mpr ⟨hshape,w,hv,hpart⟩⟩
      rw [hpart]
      exact findSome_slicePodUid_pod w

/-- The first component, among those behind the last colons of the lines, that resembles one of a
pod has the text `v` for its UID. -/
def FirstResembling (text v : String) : Prop :=
  ∃ before part behind, components text = before ++ part :: behind ∧ Resembles part v ∧
    ∀ p ∈ before, ∀ w, ¬ Resembles p w

theorem parseCgroup_eq_some_iff (text v : String) :
    (parseCgroup text).podUid = some v ↔ FirstResembling text v := by
  have hnone : ∀ p, partPodUid p = none ↔ ∀ w, ¬ Resembles p w := by
    intro p
    rw [Option.eq_none_iff_forall_ne_some]
    exact forall_congr' fun w => not_congr partPodUid_eq_some_iff
  rw [parseCgroup_podUid,List.findSome?_eq_some_iff]
  simp only [partPodUid_eq_some_iff,hnone]
  rfl

/-- The first line is `id:controllers:path`, and the first component of the path that the kubelet
made is for the pod `u`. -/
def FirstKubelet (text u : String) : Prop :=
  ∃ line rest id controllers path before part behind, Text.lines text = line :: rest ∧
    line = id ++ ":" ++ controllers ++ ":" ++ path ∧ ':' ∉ id.toList ∧ ':' ∉ controllers.toList ∧
    Text.split '/' path = before ++ part :: behind ∧ KubeletComponent part u ∧
    ∀ p ∈ before, ∀ w, ¬ KubeletComponent p w

/-- A component for the pod stands behind one of the last colons, with none in front of it that
resembles one of another pod. -/
def Visible (text u : String) : Prop :=
  ∃ before part behind, components text = before ++ part :: behind ∧ Resembles part u ∧
    ∀ p ∈ before, ∀ w, Resembles p w → w = u

theorem visible_iff (text u : String) : Visible text u ↔ (parseCgroup text).podUid = some u := by
  constructor
  · rintro ⟨before,part,behind,hsplit,hpart,hbefore⟩
    rw [parseCgroup_podUid,hsplit,List.findSome?_append,List.findSome?_cons,
      partPodUid_eq_some_iff.mpr hpart]
    cases hf : before.findSome? partPodUid with
    | none => rfl
    | some w =>
      obtain ⟨p,hp,hw⟩ := List.exists_of_findSome?_eq_some hf
      rw [hbefore p hp w (partPodUid_eq_some_iff.mp hw)]
      rfl
  · intro h
    obtain ⟨before,part,behind,hsplit,hpart,hbefore⟩ := (parseCgroup_eq_some_iff text u).mp h
    exact ⟨before,part,behind,hsplit,hpart,fun p hp w hw => absurd hw (hbefore p hp w)⟩

/-- The pod of the first kubelet component is visible, and the first component behind the last
colons that resembles one of a pod has a UID. -/
def Unmistakable (text : String) : Prop :=
  (∀ u, FirstKubelet text u → Visible text u) ∧ ∀ v, FirstResembling text v → IsUid v

theorem behind_unique {α : Type} {c : α} {a a' b b' : List α} (ha : c ∉ a) (ha' : c ∉ a')
    (h : a ++ c :: b = a' ++ c :: b') : b = b' := by
  induction a generalizing a' with
  | nil =>
    cases a' with
    | nil => simpa using h
    | cons x a' => exact absurd (List.mem_cons.mpr (Or.inl (List.cons.inj h).1)) ha'
  | cons x a ih =>
    cases a' with
    | nil => exact absurd (List.mem_cons.mpr (Or.inl (List.cons.inj h).1.symm)) ha
    | cons y a' =>
      simp only [List.cons_append,List.cons.injEq] at h
      exact ih (fun hc => ha (List.mem_cons_of_mem x hc))
        (fun hc => ha' (List.mem_cons_of_mem y hc)) h.2

theorem path_unique {id id' controllers controllers' path path' : String}
    (hid : ':' ∉ id.toList) (hid' : ':' ∉ id'.toList) (hc : ':' ∉ controllers.toList)
    (hc' : ':' ∉ controllers'.toList)
    (h : id ++ ":" ++ controllers ++ ":" ++ path = id' ++ ":" ++ controllers' ++ ":" ++ path') :
    path = path' := by
  have hlist := congrArg String.toList h
  simp only [String.toList_append,show ":".toList = [':'] from rfl,List.append_assoc,
    List.singleton_append] at hlist
  exact String.toList_inj.mp (behind_unique hc hc' (behind_unique hid hid' hlist))

theorem lastField_of_not_mem (front : String) {path : String} (h : ':' ∉ path.toList) :
    lastField (front ++ ":" ++ path) = path := by
  have hsplit : (front ++ ":" ++ path).toList.splitOn ':' =
      front.toList.splitOn ':' ++ [path.toList] := by
    have hnone : ∀ c ∈ path.toList, (c == ':') = false := by
      intro c hc
      rw [beq_eq_false_iff_ne]
      rintro rfl
      exact h hc
    rw [String.toList_append,String.toList_append,show ":".toList = [':'] from rfl,
      List.append_assoc,List.singleton_append]
    simp only [List.splitOn_eq_splitOnP]
    rw [List.splitOnP_append_cons _ _ (by simp),List.splitOnP_eq_singleton hnone]
  rw [lastField,Text.split,hsplit]
  simp

/-- In a file of one line whose path has no colon, and where only kubelet components resemble those
of a pod, nothing is mistaken. -/
theorem unmistakable_of_ordinary {text : String} (id controllers path : String)
    (hlines : Text.lines text = [id ++ ":" ++ controllers ++ ":" ++ path])
    (hid : ':' ∉ id.toList) (hcontrollers : ':' ∉ controllers.toList) (hpath : ':' ∉ path.toList)
    (hkubelet : ∀ part ∈ Text.split '/' path, ∀ w, Resembles part w → KubeletComponent part w) :
    Unmistakable text := by
  have hcomponents : components text = Text.split '/' path := by
    simp [components,hlines,lastField_of_not_mem _ hpath]
  constructor
  · rintro u ⟨line,rest,id',controllers',path',before,part,behind,hline,rfl,hid',hc',hsplit,hpart,
      hbefore⟩
    rw [hlines,List.cons.injEq] at hline
    obtain rfl := path_unique hid hid' hcontrollers hc' hline.1
    refine ⟨before,part,behind,hcomponents.trans hsplit,hpart.resembles,fun p hp w hw => ?_⟩
    exact absurd (hkubelet p (by simp [hsplit,hp]) w hw) (hbefore p hp w)
  · rintro v ⟨before,part,behind,hsplit,hpart,-⟩
    rw [hcomponents] at hsplit
    exact (hkubelet part (by simp [hsplit]) v hpart).1

theorem not_resembles {part : String} (h : partPodUid part = none) (w : String) :
    ¬ Resembles part w := by
  intro hw
  rw [← partPodUid_eq_some_iff,h] at hw
  cases hw

theorem isUid_iff_forall (s : String) : ((octets s).length = 36 ∧ ∀ i : Fin (octets s).length,
    if i.val = 8 ∨ i.val = 13 ∨ i.val = 18 ∨ i.val = 23 then (octets s)[i] = dash
    else isAsciiHexdigit (octets s)[i] = true) ↔ IsUid s := by
  refine and_congr_right fun _ => ⟨fun h i b hb => ?_,fun h i => ?_⟩
  · obtain ⟨hi,rfl⟩ := List.getElem?_eq_some_iff.mp hb
    exact h ⟨i,hi⟩
  · exact h i _ (List.getElem?_eq_getElem i.isLt)

instance (s : String) : Decidable (IsUid s) := decidable_of_iff _ (isUid_iff_forall s)

/-- The parser finds the pod of the first kubelet component, and nothing that is no UID, exactly in
the files without mistakable components. -/
theorem parseCgroup_exact_iff (text : String) :
    ((∀ u, FirstKubelet text u → (parseCgroup text).podUid = some u) ∧
      ∀ v, (parseCgroup text).podUid = some v → IsUid v) ↔ Unmistakable text := by
  refine and_congr ?_ ?_
  · exact forall_congr' fun u => imp_congr_right fun _ => (visible_iff text u).symm
  · exact forall_congr' fun v => imp_congr_left (parseCgroup_eq_some_iff text v)

def podDirectory : String :=
  "0::/kubepods/burstable/podaaaaaaaa-bbbb-cccc-dddd-eeeeeeeeeeee/x\n"

/-- The directory of a pod in an ordinary file. -/
theorem parseCgroup_exact_directory : Unmistakable podDirectory ∧
    ∀ v, (parseCgroup podDirectory).podUid = some v → IsUid v := by
  have hordinary : Unmistakable podDirectory := by
    refine unmistakable_of_ordinary "0" ""
      "/kubepods/burstable/podaaaaaaaa-bbbb-cccc-dddd-eeeeeeeeeeee/x" (by decide +kernel)
      (by decide) (by decide) (by decide +kernel) ?_
    have hsplit : Text.split '/' "/kubepods/burstable/podaaaaaaaa-bbbb-cccc-dddd-eeeeeeeeeeee/x" =
        ["","kubepods","burstable","podaaaaaaaa-bbbb-cccc-dddd-eeeeeeeeeeee","x"] := by
      decide +kernel
    intro part hpart w hw
    simp only [hsplit,List.mem_cons,List.not_mem_nil,or_false] at hpart
    rcases hpart with rfl | rfl | rfl | rfl | rfl
    · exact absurd hw (not_resembles (by decide +kernel) w)
    · exact absurd hw (not_resembles (by decide +kernel) w)
    · exact absurd hw (not_resembles (by decide +kernel) w)
    · have hfound : partPodUid "podaaaaaaaa-bbbb-cccc-dddd-eeeeeeeeeeee" =
          some "aaaaaaaa-bbbb-cccc-dddd-eeeeeeeeeeee" := by decide +kernel
      obtain rfl := Option.some.inj (hfound.symm.trans (partPodUid_eq_some_iff.mpr hw))
      exact ⟨by decide +kernel,Or.inr (by decide +kernel)⟩
    · exact absurd hw (not_resembles (by decide +kernel) w)
  exact ⟨hordinary,((parseCgroup_exact_iff podDirectory).mpr hordinary).2⟩

/-- Dashes in the place of all digits are taken for a UID, and a colon in the path hides the pod. -/
theorem mistaken_components :
    (parseCgroup "0::/pod------------------------------------\n").podUid =
      some "------------------------------------" ∧
    ¬ IsUid "------------------------------------" ∧
    FirstKubelet "0::/podaaaaaaaa-bbbb-cccc-dddd-eeeeeeeeeeee/a:b\n"
      "aaaaaaaa-bbbb-cccc-dddd-eeeeeeeeeeee" ∧
    (parseCgroup "0::/podaaaaaaaa-bbbb-cccc-dddd-eeeeeeeeeeee/a:b\n").podUid = none := by
  refine ⟨by decide +kernel,by decide +kernel,?_,by decide +kernel⟩
  refine ⟨"0::/podaaaaaaaa-bbbb-cccc-dddd-eeeeeeeeeeee/a:b",[],"0","",
    "/podaaaaaaaa-bbbb-cccc-dddd-eeeeeeeeeeee/a:b",[""],"podaaaaaaaa-bbbb-cccc-dddd-eeeeeeeeeeee",
    ["a:b"],by decide +kernel,by decide +kernel,by decide,by decide,by decide +kernel,
    ⟨by decide +kernel,Or.inr (by decide +kernel)⟩,?_⟩
  intro p hp w hw
  obtain rfl := List.mem_singleton.mp hp
  exact not_resembles (by decide +kernel) w hw.resembles

end ObsAgent
