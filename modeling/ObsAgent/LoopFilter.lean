import ObsAgent.System

/-! What gets past the filter of the loop: nothing of the agent itself, and only what the filter
allows by a name that was read not long ago. -/
namespace ObsAgent

open Kernel TtlCache

def parseCommList (raw : Option String) : List String :=
  ((Text.split ',' (raw.getD "")).map Text.trim).filter (· ≠ "")

/-- `str::eq_ignore_ascii_case`. -/
def Text.eqIgnoreAsciiCase (s t : String) : Bool :=
  s.toList.map Char.toLower = t.toList.map Char.toLower

def k8sDefaultsEnabled (val : Option String) (tokenExists : Bool) : Bool :=
  if tokenExists then true
  else match val with
    | none => false
    | some s =>
      let s := Text.trim s
      !(s = "" || s = "0" || Text.eqIgnoreAsciiCase s "false" || Text.eqIgnoreAsciiCase s "no")

namespace CommFilter

/-- The three variables, and whether there is a token of the cluster. -/
def fromEnv (extraDeny allow k8s : Option String) (tokenExists : Bool) : CommFilter :=
  .new (parseCommList extraDeny) (allow.map fun s => parseCommList (some s))
    (k8sDefaultsEnabled k8s tokenExists)

theorem empty_not_mem_parseCommList (raw : Option String) : "" ∉ parseCommList raw := by
  simp [parseCommList]

theorem allow_empty (extraDeny allow k8s : Option String) (tokenExists : Bool) :
    (fromEnv extraDeny allow k8s tokenExists).allow "" =
      !(fromEnv extraDeny allow k8s tokenExists).isAllowOnly := by
  have hself : isSelfComm "" = false := by decide
  have htrim : Text.trim "" = "" := by decide
  have hdeny : "" ∉ (fromEnv extraDeny allow k8s tokenExists).denyList := by
    have hdefault : "" ∉ k8sDefaultDeny := by decide
    simp only [fromEnv,new]
    split
    · rw [List.mem_union_iff]
      exact not_or.mpr ⟨empty_not_mem_parseCommList _,hdefault⟩
    · exact empty_not_mem_parseCommList _
  simp only [CommFilter.allow,hself,htrim,isAllowOnly,Bool.false_eq_true,if_false]
  cases hlist : (fromEnv extraDeny allow k8s tokenExists).allowList with
  | none => simpa using hdeny
  | some names =>
    obtain ⟨hsome,-⟩ := Option.filter_eq_some_iff.mp hlist
    obtain ⟨raw,-,rfl⟩ := Option.map_eq_some_iff.mp hsome
    simpa using empty_not_mem_parseCommList (some raw)

theorem isAllowOnly_of_isPassthrough {f : CommFilter} (h : f.isPassthrough = true) :
    f.isAllowOnly = false := by
  have hnone := (Bool.and_eq_true_iff.mp h).1
  rwa [Option.isNone_iff_eq_none,← Option.not_isSome_iff_eq_none,Bool.not_eq_true] at hnone

end CommFilter

theorem CommCache.commPair_all {Q : UInt32 → String × Instant → Prop} {c : CommCache}
    (h : FiniteMap.All Q c) (tgid pid : UInt32) (now : Instant) (read : UInt32 → String)
    (hread : ∀ t, Q t (read t,now)) :
    FiniteMap.All Q (c.commPair tgid pid now read).1 ∧
      ∃ who t, (who = tgid ∨ who = pid) ∧ Q who ((c.commPair tgid pid now read).2,t) ∧
        now - t ≤ IdentityResolver.cacheTtl := by
  obtain ⟨hfirst,t,hname,hfresh⟩ := comm_all h tgid now (hread tgid)
  simp only [commPair]
  split_ifs
  · exact ⟨hfirst,tgid,t,.inl rfl,hname,hfresh⟩
  · obtain ⟨hsecond,t',hthread,hfresh'⟩ := comm_all hfirst pid now (hread pid)
    exact ⟨hsecond,pid,t',.inr rfl,hthread,hfresh'⟩

theorem contains_foldl_put (ids : List UInt32) {s : TgidSet} {t : UInt32}
    (h : s.contains t = true) :
    FiniteMap.contains (ids.foldl (fun ids n => ids.put n ()) s) t = true := by
  induction ids generalizing s with
  | nil => exact h
  | cons n ids ih =>
    refine ih ?_
    rw [FiniteMap.contains_put]
    simp [h]

theorem contains_collectSelfIds (agentTgid : UInt32) (files : SelfFiles) :
    (collectSelfIds agentTgid files).contains agentTgid = true := by
  refine contains_foldl_put _ ?_
  rw [FiniteMap.contains_put]
  simp

theorem contains_extend (m other : TgidSet) (t : UInt32) :
    (m.extend other).contains t = (m.contains t || other.contains t) := by
  rw [FiniteMap.contains,FiniteMap.get_extend,FiniteMap.contains,FiniteMap.contains]
  cases other.get t <;> simp

namespace EventLoop

section

variable (cfg : LoopConfig) (l : EventLoop) (f : Found)

theorem ingestIo_frame (ev : SockIoEvent) (fromTls clientOnly : Bool) :
    let r := l.ingestIo cfg f ev fromTls clientOnly
    r.1.selfIds = l.selfIds ∧ r.1.bpfSelfIds = l.bpfSelfIds ∧
      r.1.commCache = (l.secondCheck cfg f ev.tgid).1 := by
  intro r
  simp only [r,ingestIo]
  rw [foldl_publish]
  exact ⟨rfl,rfl,rfl⟩

theorem dispatch_frame (ev : DecodedEvent) :
    let r := l.dispatch cfg f ev
    r.1.selfIds = l.selfIds ∧ r.1.bpfSelfIds = l.bpfSelfIds ∧
      (r.1.commCache = l.commCache ∨ r.1.commCache = (l.secondCheck cfg f ev.tgid).1) := by
  cases ev with
  | latency ev => exact ⟨rfl,rfl,.inl rfl⟩
  | sockIoTimes ev => exact ⟨rfl,rfl,.inl rfl⟩
  | tlsHandshake ev => exact ⟨rfl,rfl,.inl rfl⟩
  | io ev =>
    obtain ⟨hself,hbpf,hcache⟩ :=
      ingestIo_frame cfg {l with sockioCount := l.sockioCount + 1} f ev false false
    exact ⟨hself,hbpf,.inr hcache⟩
  | tlsIo ev =>
    obtain ⟨hself,hbpf,hcache⟩ :=
      ingestIo_frame cfg {l with tlsioCount := l.tlsioCount + 1} f ev true cfg.tlsClientOnly
    exact ⟨hself,hbpf,.inr hcache⟩

theorem learn_contains {t : UInt32} (h : l.bpfSelfIds.contains t = true) (ev : DecodedEvent) :
    (l.learn f ev).bpfSelfIds.contains t = true := by
  cases ev with
  | latency ev =>
    simp only [learn]
    split_ifs
    · rw [FiniteMap.contains_put,FiniteMap.contains_put,h]
      simp
    · exact h
  | _ => exact h

def classified (ev : DecodedEvent) : EventLoop :=
  {l.learn f ev with commCache := (l.commCache.commPair ev.tgid ev.pid f.now f.names).1}

/-- Behind the classification a record leaves the ids alone, and reads at most one more name. -/
theorem handle_frame (ev : DecodedEvent) :
    let r := l.handle cfg f ev
    r.1.selfIds = l.selfIds ∧ r.1.bpfSelfIds = (l.learn f ev).bpfSelfIds ∧
      (r.1.commCache = (l.classified f ev).commCache ∨
        r.1.commCache = ((l.classified f ev).secondCheck cfg f ev.tgid).1) := by
  have hlearn := l.learn_counts f ev
  have hclassified : l.classified f ev = {l with
      bpfSelfIds := (l.learn f ev).bpfSelfIds
      commCache := (l.commCache.commPair ev.tgid ev.pid f.now f.names).1} := by
    rw [classified,hlearn]
  intro r
  have hr : r = l.handle cfg f ev := rfl
  unfold handle at hr
  dsimp only at hr
  rw [hlearn] at hr
  rw [hclassified]
  split at hr
  · rw [hr]
    exact ⟨rfl,rfl,.inl rfl⟩
  · rw [hr]
    exact ⟨rfl,rfl,.inl rfl⟩
  · rw [hr]
    exact dispatch_frame cfg _ f ev

theorem keep_of_dispatched {ev : DecodedEvent} (h : (l.handle cfg f ev).2.dispatched = true) :
    classifyIngest ev.tgid ev.pid (l.selfIds.extend (l.learn f ev).bpfSelfIds)
      (l.commCache.commPair ev.tgid ev.pid f.now f.names).2 cfg.filter = .keep := by
  have hlearn := l.learn_counts f ev
  unfold handle at h
  dsimp only at h
  rw [hlearn] at h
  split at h
  · simp [Drained.dispatched] at h
  · simp [Drained.dispatched] at h
  · next hkeep => exact hkeep

end

end EventLoop

theorem classifyIngest_eq_keep {eventTgid eventPid : UInt32} {agentIds : TgidSet} {comm : String}
    {filter : CommFilter} (h : classifyIngest eventTgid eventPid agentIds comm filter = .keep) :
    agentIds.contains eventTgid = false ∧ agentIds.contains eventPid = false ∧
      filter.allow comm = true := by
  unfold classifyIngest at h
  split_ifs at h with hself hallow
  simp only [isSelfIds,Bool.or_eq_true,not_or,Bool.not_eq_true] at hself
  exact ⟨hself.1.1,hself.1.2,by simpa using hallow⟩

/-- The name of a process, as it was when a record was taken from the ring. -/
def ReadAt (past : List SystemStep) (t : UInt32) (name : String) (time : Instant) : Prop :=
  ∃ f, SystemStep.drain f ∈ past ∧ time = f.now ∧ name = f.names t

namespace System

/-- What a record finds, with the sockets of the kernel. -/
def found (s : System) (f : Found) : Found :=
  {f with env := {f.env with sockMeta := s.kernel.sockMeta}}

theorem drain_cases (cfg : LoopConfig) (s : System) (f : Found) :
    ((s.drain cfg f).2 = [] ∧
        ((s.drain cfg f).1.loop = s.loop ∨ (s.drain cfg f).1.loop = s.attached)) ∨
      ∃ ev, (s.drain cfg f).1.loop = (s.attached.handle cfg (s.found f) ev).1 ∧
        (s.drain cfg f).2 = [.drained (s.attached.handle cfg (s.found f) ev).2] := by
  cases hring : s.ring with
  | nil =>
    rw [drain_nil hring]
    exact .inl ⟨rfl,.inl rfl⟩
  | cons bytes ring =>
    have hsome : s.drain cfg f = (detach {s with ring := ring}
        (s.attached.item cfg (s.found f) bytes).1,
        (s.attached.item cfg (s.found f) bytes).2.map .drained) := by
      rw [System.drain,hring]
      rfl
    rw [hsome]
    cases hdecode : decodeEvent bytes with
    | none =>
      simp only [EventLoop.item,hdecode]
      exact .inl ⟨rfl,.inr rfl⟩
    | some ev =>
      simp only [EventLoop.item,hdecode]
      exact .inr ⟨ev,rfl,rfl⟩

/-- The record that is taken now is the connect of a calibration, by this process or thread. -/
def Calibrates (cfg : LoopConfig) (s : System) (f : Found) (t : UInt32) : Prop :=
  ∃ d ev, .drained d ∈ (s.drain cfg f).2 ∧ d.event = .latency ev ∧ f.calib ≠ 0 ∧
    fromBe ev.dportBe = f.calib ∧ (t = ev.tgid ∨ t = ev.pid)

/-- The agent knows its own process, and every name that it has was read. -/
structure Screened (cfg : LoopConfig) (past : List SystemStep) (s : System) : Prop where
  self : s.loop.selfIds.contains cfg.agentTgid = true
  names : FiniteMap.All (fun t e => ReadAt past t e.1 e.2) s.loop.commCache

theorem screened_start (cfg : LoopConfig) (files : SelfFiles) (initFails : Bool) (joinWindowNs : ℕ)
    (hub : ExportHub) :
    (System.start (.start cfg files initFails joinWindowNs hub)).Screened cfg [] :=
  ⟨contains_collectSelfIds cfg.agentTgid files,.empty⟩

variable {cfg : LoopConfig} {past : List SystemStep} {s : System}

theorem Screened.mono (h : s.Screened cfg past) (e : SystemStep) :
    s.Screened cfg (past ++ [e]) where
  self := h.self
  names t x hx := by
    obtain ⟨f,hf,hread⟩ := h.names t x hx
    exact ⟨f,List.mem_append_left _ hf,hread⟩

theorem readAt_concat (past : List SystemStep) (f : Found) (t : UInt32) :
    ReadAt (past ++ [.drain f]) t (f.names t) f.now :=
  ⟨f,List.mem_append_right _ (List.mem_singleton_self _),rfl,rfl⟩

theorem Screened.drain (h : s.Screened cfg past) (f : Found) :
    (s.drain cfg f).1.Screened cfg (past ++ [.drain f]) := by
  have hmore := h.mono (.drain f)
  rcases drain_cases cfg s f with ⟨-,hloop | hloop⟩ | ⟨ev,hloop,-⟩
  · exact ⟨hloop ▸ hmore.self,hloop ▸ hmore.names⟩
  · exact ⟨hloop ▸ hmore.self,hloop ▸ hmore.names⟩
  · obtain ⟨hself,-,hcache⟩ := EventLoop.handle_frame cfg s.attached (s.found f) ev
    have hpair := (CommCache.commPair_all hmore.names ev.tgid ev.pid f.now f.names
      (readAt_concat past f)).1
    refine ⟨?_,?_⟩
    · rw [hloop,hself]
      exact h.self
    · rw [hloop]
      rcases hcache with hcache | hcache
      · rw [hcache]
        exact hpair
      · rw [hcache]
        unfold EventLoop.secondCheck
        split_ifs
        · exact hpair
        · exact (CommCache.comm_all hpair ev.tgid f.now (readAt_concat past f ev.tgid)).1

theorem Screened.step (h : s.Screened cfg past) (e : SystemStep) :
    (s.step cfg e).1.Screened cfg (past ++ [e]) := by
  cases e with
  | probe c room kind => exact ⟨h.self,(h.mono _).names⟩
  | drain f => exact h.drain f
  | tick t => exact ⟨h.self,(h.mono _).names⟩
  | sweep files proc faults => exact ⟨contains_collectSelfIds _ _,(h.mono _).names⟩

theorem learned_step {t : UInt32} (h : s.loop.bpfSelfIds.contains t = true) (e : SystemStep) :
    (s.step cfg e).1.loop.bpfSelfIds.contains t = true := by
  cases e with
  | drain f =>
    change (s.drain cfg f).1.loop.bpfSelfIds.contains t = true
    rcases drain_cases cfg s f with ⟨-,hloop | hloop⟩ | ⟨ev,hloop,-⟩
    · rwa [hloop]
    · rwa [hloop]
    · rw [hloop,(EventLoop.handle_frame cfg s.attached (s.found f) ev).2.1]
      exact EventLoop.learn_contains s.attached (s.found f) h ev
  | _ => exact h

theorem Calibrates.learned {f : Found} {t : UInt32} (h : s.Calibrates cfg f t) :
    ∃ ev, (s.drain cfg f).1.loop = (s.attached.handle cfg (s.found f) ev).1 ∧
      (s.drain cfg f).2 = [.drained (s.attached.handle cfg (s.found f) ev).2] ∧
      (s.attached.learn (s.found f) ev).bpfSelfIds.contains t = true := by
  obtain ⟨d,ev,hd,hevent,hcalib,hport,ht⟩ := h
  rcases drain_cases cfg s f with ⟨hnone,-⟩ | ⟨ev',hloop,hout⟩
  · rw [hnone] at hd
    cases hd
  · rw [hout] at hd
    cases List.mem_singleton.mp hd
    rw [(s.attached.handle_counts cfg (s.found f) ev').1] at hevent
    refine ⟨ev',hloop,hout,?_⟩
    have hlearn : (s.attached.learn (s.found f) ev').bpfSelfIds =
        (s.attached.bpfSelfIds.put ev.tgid ()).put ev.pid () := by
      rw [hevent]
      exact congrArg EventLoop.bpfSelfIds (if_pos ⟨hcalib,hport⟩)
    rw [hlearn,FiniteMap.contains_put,FiniteMap.contains_put]
    rcases ht with rfl | rfl <;> simp

end System

/-- Whatever the order of probes, drains, ticks and sweeps: a record that goes to one of the stores is
of no process and no thread that the agent knows as itself, neither by its own id nor by those that
a calibration has shown, then or ever before; and the filter allows a name of its process or thread
that was read at most half a minute ago. -/
theorem dispatched_records_screened (cfg : LoopConfig) (files : SelfFiles) (initFails : Bool)
    (joinWindowNs : ℕ) (hub : ExportHub) (es : List SystemStep) (f : Found) (d : Drained) :
    let run := Machine.final (System.step cfg)
      (System.start (.start cfg files initFails joinWindowNs hub))
    .drained d ∈ ((run es).drain cfg f).2 → d.dispatched = true →
      (∀ t, t = d.event.tgid ∨ t = d.event.pid →
        t ≠ cfg.agentTgid ∧ ¬(run es).Calibrates cfg f t ∧
          ∀ es₁ f₁ es₂, es = es₁ ++ .drain f₁ :: es₂ → ¬(run es₁).Calibrates cfg f₁ t) ∧
      ∃ who name time, (who = d.event.tgid ∨ who = d.event.pid) ∧
        ReadAt (es ++ [.drain f]) who name time ∧ f.now - time ≤ IdentityResolver.cacheTtl ∧
        cfg.filter.allow name = true := by
  intro run hd hdispatched
  have h : (run es).Screened cfg es := Machine.final_history (System.step cfg)
    (I := fun past s => s.Screened cfg past) (fun e h => h.step e)
    (System.screened_start cfg files initFails joinWindowNs hub) es
  rcases System.drain_cases cfg (run es) f with ⟨hnone,-⟩ | ⟨ev,-,hout⟩
  · rw [hnone] at hd
    cases hd
  rw [hout] at hd
  cases List.mem_singleton.mp hd
  have hevent := ((run es).attached.handle_counts cfg ((run es).found f) ev).1
  obtain ⟨htgid,hpid,hallow⟩ := classifyIngest_eq_keep
    (EventLoop.keep_of_dispatched cfg (run es).attached ((run es).found f) hdispatched)
  -- an id that is known is not among those of the record
  have hknown : ∀ t, t = ev.tgid ∨ t = ev.pid →
      (run es).loop.selfIds.contains t = false ∧
        ((run es).attached.learn ((run es).found f) ev).bpfSelfIds.contains t = false := by
    intro t ht
    rw [← Bool.or_eq_false_iff,← contains_extend]
    rcases ht with rfl | rfl
    · exact htgid
    · exact hpid
  rw [hevent]
  refine ⟨fun t ht => ?_,?_⟩
  · obtain ⟨hself,hbpf⟩ := hknown t ht
    refine ⟨?_,?_,?_⟩
    · rintro rfl
      rw [h.self] at hself
      cases hself
    · intro hcalibrates
      obtain ⟨ev',-,hout',hlearned⟩ := hcalibrates.learned
      have hsame : ev' = ev := by
        have heq := List.singleton_inj.mp (hout'.symm.trans hout)
        rw [← hevent,← ((run es).attached.handle_counts cfg ((run es).found f) ev').1,
          SystemEvent.drained.inj heq]
      rw [hsame,hbpf] at hlearned
      cases hlearned
    · rintro es₁ f₁ es₂ rfl hcalibrates
      obtain ⟨ev₁,hloop₁,-,hlearned⟩ := hcalibrates.learned
      have hafter : (System.step cfg (run es₁) (.drain f₁)).1.loop.bpfSelfIds.contains t = true := by
        change ((run es₁).drain cfg f₁).1.loop.bpfSelfIds.contains t = true
        rw [hloop₁,(EventLoop.handle_frame cfg (run es₁).attached ((run es₁).found f₁) ev₁).2.1]
        exact hlearned
      have hnow : (run (es₁ ++ .drain f₁ :: es₂)).loop.bpfSelfIds.contains t = true := by
        simp only [run,Machine.final_append]
        exact Machine.final_invariant (System.step cfg)
          (I := fun s => s.loop.bpfSelfIds.contains t = true) (fun e h => System.learned_step h e)
          hafter es₂
      rw [EventLoop.learn_contains (run _).attached ((run _).found f) hnow ev] at hbpf
      cases hbpf
  · obtain ⟨-,who,time,hwho,hread,hfresh⟩ := CommCache.commPair_all (h.mono (.drain f)).names ev.tgid
      ev.pid f.now f.names (System.readAt_concat es f)
    exact ⟨who,_,time,hwho,hread,hfresh,hallow⟩

theorem dispatched_records_screened_request :
    let run := Machine.final (System.step plainConfig)
      (System.start (.start plainConfig ⟨none,[]⟩ false 0 (.start false 1 0 none)))
    ∃ d, .drained d ∈ ((run (exchangeSteps.take 5)).drain plainConfig (plainFound 5)).2 ∧
      d.dispatched = true ∧ d.event.tgid ≠ 99 := by
  intro run
  have htaken : (((run (exchangeSteps.take 5)).drain plainConfig (plainFound 5)).2.filterMap
      SystemEvent.taken).any Drained.dispatched = true := by decide +kernel
  obtain ⟨d,hd,hdispatched⟩ := List.any_eq_true.mp htaken
  obtain ⟨e,he,htake⟩ := List.mem_filterMap.mp hd
  cases e with
  | submitted c r => cases htake
  | drained d' =>
    cases htake
    have h := dispatched_records_screened plainConfig ⟨none,[]⟩ false 0 (.start false 1 0 none)
      (exchangeSteps.take 5) (plainFound 5) d he hdispatched
    exact ⟨d,he,hdispatched,(h.1 _ (.inl rfl)).1⟩

namespace CommCache

theorem comm_commPair {c : CommCache} (hroom : FiniteMap.len c + 1 < IdentityResolver.cacheCap)
    (tgid pid : UInt32) (now : Instant) (read : UInt32 → String) :
    ((c.commPair tgid pid now read).1.comm tgid now (read tgid)).2 =
      (c.comm tgid now (read tgid)).2 := by
  have hget := get_fetch Prod.snd IdentityResolver.cacheTtl IdentityResolver.cacheCap c tgid now
    (read tgid,now)
  have hfresh : now - (fetch Prod.snd IdentityResolver.cacheTtl IdentityResolver.cacheCap c tgid now
      (read tgid,now)).2.2 ≤ IdentityResolver.cacheTtl := fetch_fresh c tgid rfl
  have hagain : FiniteMap.get (c.commPair tgid pid now read).1 tgid =
      some (fetch Prod.snd IdentityResolver.cacheTtl IdentityResolver.cacheCap c tgid now
        (read tgid,now)).2 := by
    simp only [commPair]
    split_ifs with hdone
    · exact hget
    · -- there is room for two names, so that the second one does not push the first one out
      have hne : tgid ≠ pid := fun heq => hdone (.inr (.inr heq.symm))
      have hlen : FiniteMap.len (c.comm tgid now (read tgid)).1 < IdentityResolver.cacheCap :=
        (len_fetch_le_succ (Nat.lt_of_succ_lt hroom)).trans_lt hroom
      exact (get_fetch_other hlen hne).trans hget
  exact congrArg (fun q => q.2.1) (fetch_of_get hagain hfresh (read tgid,now))

end CommCache

namespace EventLoop

/-- Behind the classification an I/O record goes by the second word. -/
theorem verdict_of_dispatched {cfg : LoopConfig} {l : EventLoop} {f : Found} {ev : DecodedEvent}
    (hio : ∃ io, ev = .io io ∨ ev = .tlsIo io) (h : (l.handle cfg f ev).2.dispatched = true) :
    (l.handle cfg f ev).2.verdict =
      if ((l.classified f ev).secondCheck cfg f ev.tgid).2 then .kept else .refused := by
  have hkeep := keep_of_dispatched cfg l f h
  have hlearn := l.learn_counts f ev
  unfold handle classified
  dsimp only
  rw [hlearn]
  simp only [hkeep]
  obtain ⟨io,rfl | rfl⟩ := hio
  · rfl
  · rfl

end EventLoop

/-- The filter of the environment turns an I/O record away behind the count only if it lists what is
allowed and the process has no name: it has let the record pass by the name of the thread. -/
theorem second_check_refuses_iff (cfg : LoopConfig) (extraDeny allow k8s : Option String)
    (tokenExists : Bool) (hfilter : cfg.filter = .fromEnv extraDeny allow k8s tokenExists)
    (l : EventLoop) (hroom : FiniteMap.len l.commCache + 1 < IdentityResolver.cacheCap) (f : Found)
    (ev : DecodedEvent) (hio : ∃ io, ev = .io io ∨ ev = .tlsIo io)
    (hdispatched : (l.handle cfg f ev).2.dispatched = true) :
    (l.handle cfg f ev).2.verdict = .refused ↔
      cfg.filter.isAllowOnly = true ∧
        (l.commCache.comm ev.tgid f.now (f.names ev.tgid)).2 = "" := by
  have hempty : cfg.filter.allow "" = !cfg.filter.isAllowOnly := by
    rw [hfilter]
    exact CommFilter.allow_empty extraDeny allow k8s tokenExists
  obtain ⟨-,-,hallow⟩ := classifyIngest_eq_keep (EventLoop.keep_of_dispatched cfg l f hdispatched)
  have hname : ((l.classified f ev).commCache.comm ev.tgid f.now (f.names ev.tgid)).2 =
      (l.commCache.comm ev.tgid f.now (f.names ev.tgid)).2 :=
    CommCache.comm_commPair hroom ev.tgid ev.pid f.now f.names
  rw [EventLoop.verdict_of_dispatched hio hdispatched,EventLoop.secondCheck]
  by_cases hpass : cfg.filter.isPassthrough = true
  · simp [if_pos hpass,CommFilter.isAllowOnly_of_isPassthrough hpass]
  · simp only [if_neg hpass,hname]
    refine ⟨fun hrefused => ?_,fun ⟨honly,hnone⟩ => ?_⟩
    · have hdeny : cfg.filter.allow (l.commCache.comm ev.tgid f.now (f.names ev.tgid)).2 = false := by
        by_contra hkept
        rw [Bool.not_eq_false] at hkept
        simp [hkept] at hrefused
      have hnone : (l.commCache.comm ev.tgid f.now (f.names ev.tgid)).2 = "" := by
        by_contra hsome
        rw [CommCache.commPair,if_pos (.inl hsome),hdeny] at hallow
        cases hallow
      rw [hnone,hempty] at hdeny
      exact ⟨by simpa using hdeny,hnone⟩
    · rw [hnone,hempty,honly]
      rfl

def workerConfig : LoopConfig := ⟨99,.fromEnv none (some "worker") none false,true,none⟩

def workerIo : SockIoEvent := ⟨3,0,0,3,11,7,0,0,0,fillPrefix []⟩

/-- No process can be named, and one thread has the name that is allowed. -/
def workerFound : Found :=
  {plainFound 5 with names := fun t => if t = 11 then "worker" else ""}

theorem second_check_refuses_iff_worker :
    let l := EventLoop.start workerConfig ⟨none,[]⟩ false 0 (.start false 1 0 none)
    (l.handle workerConfig workerFound (.io workerIo)).2.dispatched = true ∧
      (l.handle workerConfig workerFound (.io workerIo)).2.verdict = .refused := by
  intro l
  have hdispatched : (l.handle workerConfig workerFound (.io workerIo)).2.dispatched = true := by
    decide +kernel
  have hroom : FiniteMap.len l.commCache + 1 < IdentityResolver.cacheCap := by decide
  have h := second_check_refuses_iff workerConfig none (some "worker") none false rfl l hroom
    workerFound (.io workerIo) ⟨workerIo,.inl rfl⟩ hdispatched
  exact ⟨hdispatched,h.mpr ⟨by decide +kernel,by decide +kernel⟩⟩

end ObsAgent
