import ObsAgent.TlsMaps

/-! Which descriptor a TLS event carries, against what the process itself has bound. -/
namespace ObsAgent
namespace Kernel

/-- A binding that `SSL_set_fd` takes: process, object and descriptor. -/
def TlsStep.bound : TlsStep → Option (UInt32 × UInt64 × Int32)
  | .setFd c ssl fd => if ssl = 0 ∨ fd < 0 then none else some (c.tgid,ssl,fd)
  | _ => none

/-- The descriptor a process has last bound to an object, and neither closed nor lost with the
object since. -/
def bindingStep (p : UInt32) (s : UInt64) (cur : Option Int32) (step : TlsStep) : Option Int32 :=
  match step with
  | .setFd _ _ fd => if step.bound = some (p,s,fd) then some fd else cur
  | .free c ssl => if c.tgid = p ∧ ssl = s then none else cur
  | .close c fd => if c.tgid = p ∧ cur = some fd.toInt32 then none else cur
  | _ => cur

def binding (p : UInt32) (s : UInt64) (past : List TlsStep) : Option Int32 :=
  past.foldl (bindingStep p s) none

/-- Who bound an object last, and to what. -/
def lastBinder (s : UInt64) (past : List TlsStep) : Option (UInt32 × Int32) :=
  past.foldl (fun cur step =>
    match step.bound with
    | some (q,ssl,fd) => if ssl = s then some (q,fd) else cur
    | none => cur) none

/-- The object a process bound last to a descriptor. -/
def lastObject (p : UInt32) (fd : Int32) (past : List TlsStep) : Option UInt64 :=
  past.foldl (fun cur step =>
    match step.bound with
    | some (q,ssl,fd') => if q = p ∧ fd' = fd then some ssl else cur
    | none => cur) none

theorem binding_concat (p : UInt32) (s : UInt64) (past : List TlsStep) (step : TlsStep) :
    binding p s (past ++ [step]) = bindingStep p s (binding p s past) step := by
  rw [binding,List.foldl_concat]
  rfl

theorem lastBinder_concat (s : UInt64) (past : List TlsStep) (step : TlsStep) :
    lastBinder s (past ++ [step]) =
      match step.bound with
      | some (q,ssl,fd) => if ssl = s then some (q,fd) else lastBinder s past
      | none => lastBinder s past := by
  rw [lastBinder,List.foldl_concat]
  rfl

theorem lastObject_concat (p : UInt32) (fd : Int32) (past : List TlsStep) (step : TlsStep) :
    lastObject p fd (past ++ [step]) =
      match step.bound with
      | some (q,ssl,fd') => if q = p ∧ fd' = fd then some ssl else lastObject p fd past
      | none => lastObject p fd past := by
  rw [lastObject,List.foldl_concat]
  rfl

def fdKey (p : UInt32) (fd : Int32) : UInt64 := sockFdKey p fd.toUInt32

theorem fdKey_inj {p q : UInt32} {fd fd' : Int32} : fdKey p fd = fdKey q fd' ↔ p = q ∧ fd = fd' := by
  rw [fdKey,fdKey,sockFdKey_inj]
  refine and_congr_right fun _ => ⟨fun h => ?_,fun h => by rw [h]⟩
  rw [← Int32.toInt32_toUInt32 fd,h,Int32.toInt32_toUInt32]

namespace Maps

@[simp] theorem sslFd_dropReverse (m : Maps) (key ssl : UInt64) :
    (m.dropReverse key ssl).sslFd = m.sslFd := by
  rw [dropReverse]
  split_ifs <;> rfl

theorem fdSsl_dropReverse {m : Maps} {key ssl k s : UInt64} (h : m.fdSsl.get k = some s)
    (hs : s ≠ ssl) : (m.dropReverse key ssl).fdSsl.get k = some s := by
  rw [dropReverse]
  split_ifs with hdrop
  · have hk : k ≠ key := by
      rintro rfl
      rw [h,Option.some.injEq] at hdrop
      exact hs hdrop
    rw [FiniteMap.get_remove,if_neg hk,h]
  · exact h

@[simp] theorem sslFd_markTlsFd (m : Maps) (tgid : UInt32) (fd : Int32) :
    (m.markTlsFd tgid fd).sslFd = m.sslFd := by
  rw [markTlsFd]
  split_ifs <;> rfl

@[simp] theorem fdSsl_markTlsFd (m : Maps) (tgid : UInt32) (fd : Int32) :
    (m.markTlsFd tgid fd).fdSsl = m.fdSsl := by
  rw [markTlsFd]
  split_ifs <;> rfl

section SetFd

variable {m : Maps} {tgid : UInt32} {ssl : UInt64} {fd : Int32}

theorem sslFd_setFd (hok : ¬ (ssl = 0 ∨ fd < 0)) :
    (m.tryEnterSslSetFd tgid ssl fd).sslFd = m.sslFd.put ssl fd := by
  simp only [tryEnterSslSetFd,if_neg hok,sslFd_markTlsFd]
  cases m.sslFd.get ssl with
  | none => rfl
  | some oldFd => dsimp only; split_ifs <;> simp

theorem fdSsl_setFd_self (hok : ¬ (ssl = 0 ∨ fd < 0)) :
    (m.tryEnterSslSetFd tgid ssl fd).fdSsl.get (fdKey tgid fd) = some ssl := by
  simp only [tryEnterSslSetFd,if_neg hok,fdSsl_markTlsFd,fdKey,FiniteMap.get_put_self]

theorem fdSsl_setFd_other {k s : UInt64} (hok : ¬ (ssl = 0 ∨ fd < 0)) (hk : k ≠ fdKey tgid fd)
    (h : m.fdSsl.get k = some s) (hs : s ≠ ssl) :
    (m.tryEnterSslSetFd tgid ssl fd).fdSsl.get k = some s := by
  simp only [tryEnterSslSetFd,if_neg hok,fdSsl_markTlsFd,FiniteMap.get_put]
  rw [if_neg (by exact hk)]
  cases m.sslFd.get ssl with
  | none => exact h
  | some oldFd =>
    dsimp only
    split_ifs
    · exact fdSsl_dropReverse h hs
    · exact h

end SetFd

theorem sslFd_free {m : Maps} {tgid : UInt32} {ssl s : UInt64} {fd : Int32}
    (h : (m.tryEnterSslFree tgid ssl).sslFd.get s = some fd) :
    m.sslFd.get s = some fd ∧ (s = ssl → ssl = 0) := by
  simp only [tryEnterSslFree,clearSslPtr] at h
  split_ifs at h with hzero
  · exact ⟨h,fun _ => hzero⟩
  · cases hfd : m.sslFd.get ssl with
    | none =>
      simp only [hfd] at h
      refine ⟨h,fun hs => ?_⟩
      rw [hs,hfd] at h
      simp at h
    | some fd' =>
      simp only [hfd] at h
      have hget : (m.sslFd.remove ssl).get s = some fd := by
        split_ifs at h
        · exact h
        · simpa using h
      rw [FiniteMap.get_remove] at hget
      split_ifs at hget with hs
      exact ⟨hget,fun heq => absurd heq hs⟩

theorem fdSsl_free {m : Maps} {tgid : UInt32} {ssl k s : UInt64} (h : m.fdSsl.get k = some s)
    (hs : s ≠ ssl) : (m.tryEnterSslFree tgid ssl).fdSsl.get k = some s := by
  simp only [tryEnterSslFree,clearSslPtr]
  split_ifs
  · exact h
  · cases m.sslFd.get ssl with
    | none => exact h
    | some fd =>
      dsimp only
      split_ifs
      · exact h
      · exact fdSsl_dropReverse h hs

/-- A close drops the object that the reverse entry names, if it is bound to this descriptor. -/
theorem sslFd_close {m : Maps} {tgid fd : UInt32} {s : UInt64} {fd' : Int32}
    (h : (m.unmarkSockFd tgid fd).sslFd.get s = some fd') :
    m.sslFd.get s = some fd' ∧
      ¬ (m.fdSsl.get (sockFdKey tgid fd) = some s ∧ fd' = fd.toInt32) := by
  simp only [unmarkSockFd,clearSslForFdKey] at h
  cases hssl : m.fdSsl.get (sockFdKey tgid fd) with
  | none =>
    simp only [hssl] at h
    exact ⟨h,by simp⟩
  | some ssl =>
    simp only [hssl] at h
    split_ifs at h with hfd
    · simp only [FiniteMap.get_remove] at h
      split_ifs at h with hs
      exact ⟨h,fun heq => hs (Option.some.inj heq.1).symm⟩
    · refine ⟨h,fun heq => hfd ?_⟩
      rw [Option.some.inj heq.1,h,heq.2]

theorem fdSsl_close (m : Maps) (tgid fd : UInt32) {k : UInt64} (hk : k ≠ sockFdKey tgid fd) :
    (m.unmarkSockFd tgid fd).fdSsl.get k = m.fdSsl.get k := by
  simp only [unmarkSockFd,clearSslForFdKey]
  cases hssl : m.fdSsl.get (sockFdKey tgid fd) with
  | none => rfl
  | some ssl =>
    dsimp only
    split_ifs <;> simp only [FiniteMap.get_remove,if_neg hk]

/-- Probes of I/O leave both maps alone. -/
def SameBindings (m m' : Maps) : Prop := m'.sslFd = m.sslFd ∧ m'.fdSsl = m.fdSsl

theorem sameBindings_bump (m : Maps) (ssl : UInt64) : m.SameBindings (m.bumpUnmappedSsl ssl) := by
  simp only [bumpUnmappedSsl]
  split_ifs <;> exact ⟨rfl,rfl⟩

theorem sameBindings_admit (m : Maps) (c : Caller) (ssl : UInt64) :
    m.SameBindings (m.admitTls c ssl).1 := by
  rw [admitTls]
  cases m.sslFd.get ssl with
  | none => exact sameBindings_bump m ssl
  | some fd =>
    dsimp only
    split_ifs
    · exact ⟨rfl,rfl⟩
    · exact sameBindings_bump m ssl

theorem sameBindings_enter (m : Maps) (c : Caller) (ssl buf : UInt64) (dir : IoDir) :
    m.SameBindings (m.tryEnterSslIo c ssl buf dir) := by
  have h := sameBindings_admit m c ssl
  simp only [tryEnterSslIo]
  split_ifs
  · exact ⟨rfl,rfl⟩
  · exact h
  · exact h

theorem sameBindings_enterEx (m : Maps) (c : Caller) (ssl buf outlen : UInt64) (dir : IoDir) :
    m.SameBindings (m.tryEnterSslIoEx c ssl buf outlen dir) := by
  have h := sameBindings_admit m c ssl
  simp only [tryEnterSslIoEx]
  split_ifs
  · exact ⟨rfl,rfl⟩
  · exact h
  · exact h

theorem sameBindings_dropPending (m : Maps) (isEx : Bool) (pid : UInt32) :
    m.SameBindings (m.dropPending isEx pid) := by
  rw [dropPending]
  split_ifs <;> exact ⟨rfl,rfl⟩

theorem sameBindings_exit (m : Maps) (c : Caller) (isEx : Bool) (rax : UInt64) :
    m.SameBindings (m.tryExitSslPending c isEx rax).1 := by
  rw [tryExitSslPending]
  cases m.pending isEx c.pid with
  | none => exact ⟨rfl,rfl⟩
  | some p =>
    have h := sameBindings_dropPending m isEx c.pid
    dsimp only
    cases (m.dropPending isEx c.pid).sslFd.get p.sslPtr <;> exact h

theorem exit_event {m : Maps} {c : Caller} {isEx : Bool} {rax : UInt64} {ev : SockIoEvent}
    (h : (m.tryExitSslPending c isEx rax).2 = some ev) :
    ∃ p, m.pending isEx c.pid = some p ∧ m.sslFd.get p.sslPtr = some ev.fd ∧ ev.tgid = c.tgid := by
  rw [tryExitSslPending] at h
  cases hp : m.pending isEx c.pid with
  | none => simp [hp] at h
  | some p =>
    have hsame := (sameBindings_dropPending m isEx c.pid).1
    simp only [hp,hsame] at h
    cases hfd : m.sslFd.get p.sslPtr with
    | none => simp [hfd] at h
    | some fd =>
      simp only [hfd] at h
      obtain ⟨hev,htgid,-⟩ := emitIoKind_event h
      exact ⟨p,rfl,by rw [hev]; exact hfd,htgid⟩

end Maps

/-- What the steps of a run must be like. A TLS call returns only while the last binder of its
object is its own process, or has chosen the same descriptor; and a process closes a descriptor
only while the object it bound to it last is the only one bound to it. -/
def SafeStep (m : Maps) (past : List TlsStep) : TlsStep → Prop
  | .exit c isEx _ => ∀ p, m.pending isEx c.pid = some p → ∀ q fd,
      lastBinder p.sslPtr past = some (q,fd) →
        q = c.tgid ∨ binding c.tgid p.sslPtr past = some fd
  | .close c fd => ∀ s, binding c.tgid s past = some fd.toInt32 →
      lastObject c.tgid fd.toInt32 past = some s
  | _ => True

/-- What is mapped has been bound by its last binder, whose binding is still alive and which the reverse
map still names. -/
structure Traced (m : Maps) (past : List TlsStep) : Prop where
  bound : ∀ s fd, m.sslFd.get s = some fd → s ≠ 0 ∧
    ∃ q, lastBinder s past = some (q,fd) ∧ binding q s past = some fd
  reverse : ∀ s q fd, m.sslFd.get s = some fd → lastBinder s past = some (q,fd) →
    lastObject q fd past = some s → m.fdSsl.get (fdKey q fd) = some s

/-- A step that binds nothing, from what it takes away. -/
theorem Traced.shrink {m m' : Maps} {past : List TlsStep} {step : TlsStep} (h : Traced m past)
    (hnone : step.bound = none)
    (hssl : ∀ s fd, m'.sslFd.get s = some fd → m.sslFd.get s = some fd)
    (hbind : ∀ s q fd, m'.sslFd.get s = some fd → lastBinder s past = some (q,fd) →
      binding q s past = some fd → bindingStep q s (some fd) step = some fd)
    (hfd : ∀ s q fd, m'.sslFd.get s = some fd → lastBinder s past = some (q,fd) →
      binding q s past = some fd → m.fdSsl.get (fdKey q fd) = some s →
      m'.fdSsl.get (fdKey q fd) = some s) :
    Traced m' (past ++ [step]) := by
  have hbinder : ∀ s, lastBinder s (past ++ [step]) = lastBinder s past := fun s => by
    rw [lastBinder_concat,hnone]
  have hobject : ∀ p fd, lastObject p fd (past ++ [step]) = lastObject p fd past := fun p fd => by
    rw [lastObject_concat,hnone]
  refine ⟨fun s fd hs => ?_,fun s q fd hs hq ho => ?_⟩
  · obtain ⟨hne,q,hq,hb⟩ := h.bound s fd (hssl s fd hs)
    refine ⟨hne,q,by rw [hbinder,hq],?_⟩
    rw [binding_concat,hb]
    exact hbind s q fd hs hq hb
  · rw [hbinder] at hq
    rw [hobject] at ho
    obtain ⟨-,q',hq',hb⟩ := h.bound s fd (hssl s fd hs)
    obtain rfl : q' = q := by
      rw [hq,Option.some.injEq,Prod.mk.injEq] at hq'
      exact hq'.1.symm
    exact hfd s q' fd hs hq hb (h.reverse s q' fd (hssl s fd hs) hq ho)

theorem Traced.same {m m' : Maps} {past : List TlsStep} {step : TlsStep} (h : Traced m past)
    (hnone : step.bound = none) (hstep : ∀ q s cur, bindingStep q s cur step = cur)
    (hsame : m.SameBindings m') : Traced m' (past ++ [step]) := by
  apply h.shrink hnone
  · intro s fd hs
    rwa [hsame.1] at hs
  · intro s q fd _ _ _
    exact hstep q s (some fd)
  · intro s q fd _ _ _ hf
    rwa [hsame.2]

section SetFd

variable {m : Maps} {past : List TlsStep} {c : Caller} {ssl : UInt64} {fd : Int32}

theorem binds_setFd (hok : ¬ (ssl = 0 ∨ fd < 0)) :
    (TlsStep.setFd c ssl fd).bound = some (c.tgid,ssl,fd) := if_neg hok

theorem lastBinder_setFd (hok : ¬ (ssl = 0 ∨ fd < 0)) (s : UInt64) :
    lastBinder s (past ++ [.setFd c ssl fd]) =
      if ssl = s then some (c.tgid,fd) else lastBinder s past := by
  rw [lastBinder_concat,binds_setFd hok]

theorem lastObject_setFd (hok : ¬ (ssl = 0 ∨ fd < 0)) (p : UInt32) (fd' : Int32) :
    lastObject p fd' (past ++ [.setFd c ssl fd]) =
      if c.tgid = p ∧ fd = fd' then some ssl else lastObject p fd' past := by
  rw [lastObject_concat,binds_setFd hok]

theorem get_setFd (hok : ¬ (ssl = 0 ∨ fd < 0)) (s : UInt64) :
    (m.tryEnterSslSetFd c.tgid ssl fd).sslFd.get s =
      if s = ssl then some fd else m.sslFd.get s := by
  rw [Maps.sslFd_setFd hok,FiniteMap.get_put]

theorem Traced.bound_setFd (h : Traced m past) (hok : ¬ (ssl = 0 ∨ fd < 0)) {s : UInt64}
    {fd' : Int32} (hs : (m.tryEnterSslSetFd c.tgid ssl fd).sslFd.get s = some fd') :
    s ≠ 0 ∧ ∃ q, lastBinder s (past ++ [.setFd c ssl fd]) = some (q,fd') ∧
      binding q s (past ++ [.setFd c ssl fd]) = some fd' := by
  rw [get_setFd hok] at hs
  rw [lastBinder_setFd hok]
  by_cases hself : s = ssl
  · subst hself
    rw [if_pos rfl,Option.some.injEq] at hs
    subst hs
    refine ⟨fun h0 => hok (Or.inl h0),c.tgid,if_pos rfl,?_⟩
    simp [binding_concat,bindingStep,binds_setFd hok]
  · rw [if_neg hself] at hs
    obtain ⟨hne,q,hq,hb⟩ := h.bound s fd' hs
    refine ⟨hne,q,by rw [if_neg (Ne.symm hself),hq],?_⟩
    simp [binding_concat,bindingStep,binds_setFd hok,Ne.symm hself,hb]

theorem Traced.reverse_setFd (h : Traced m past) (hok : ¬ (ssl = 0 ∨ fd < 0)) {s : UInt64}
    {q : UInt32} {fd' : Int32} (hs : (m.tryEnterSslSetFd c.tgid ssl fd).sslFd.get s = some fd')
    (hq : lastBinder s (past ++ [.setFd c ssl fd]) = some (q,fd'))
    (ho : lastObject q fd' (past ++ [.setFd c ssl fd]) = some s) :
    (m.tryEnterSslSetFd c.tgid ssl fd).fdSsl.get (fdKey q fd') = some s := by
  rw [get_setFd hok] at hs
  rw [lastBinder_setFd hok] at hq
  rw [lastObject_setFd hok] at ho
  by_cases hself : s = ssl
  · subst hself
    rw [if_pos rfl,Option.some.injEq,Prod.mk.injEq] at hq
    obtain ⟨rfl,rfl⟩ := hq
    exact Maps.fdSsl_setFd_self hok
  · rw [if_neg hself] at hs
    rw [if_neg (Ne.symm hself)] at hq
    have hkey : ¬ (c.tgid = q ∧ fd = fd') := fun heq => by
      rw [if_pos heq,Option.some.injEq] at ho
      exact hself ho.symm
    rw [if_neg hkey] at ho
    apply Maps.fdSsl_setFd_other hok _ (h.reverse s q fd' hs hq ho) hself
    rw [ne_eq,fdKey_inj]
    exact fun heq => hkey ⟨heq.1.symm,heq.2.symm⟩

end SetFd

theorem Traced.setFd {m : Maps} {past : List TlsStep} (h : Traced m past) (c : Caller)
    (ssl : UInt64) (fd : Int32) :
    Traced (m.tryEnterSslSetFd c.tgid ssl fd) (past ++ [.setFd c ssl fd]) := by
  by_cases hok : ssl = 0 ∨ fd < 0
  · have hnone : (TlsStep.setFd c ssl fd).bound = none := if_pos hok
    rw [Maps.tryEnterSslSetFd,if_pos hok]
    exact h.same hnone (fun q s cur => by simp [bindingStep,hnone]) ⟨rfl,rfl⟩
  · exact ⟨fun _ _ hs => h.bound_setFd hok hs,fun _ _ _ hs hq ho => h.reverse_setFd hok hs hq ho⟩

theorem Traced.free {m : Maps} {past : List TlsStep} (h : Traced m past) (c : Caller)
    (ssl : UInt64) : Traced (m.tryEnterSslFree c.tgid ssl) (past ++ [.free c ssl]) := by
  have hne : ∀ s fd, (m.tryEnterSslFree c.tgid ssl).sslFd.get s = some fd → s ≠ ssl :=
    fun s fd hs heq => by
      obtain ⟨hold,hzero⟩ := Maps.sslFd_free hs
      exact (h.bound s fd hold).1 (heq.trans (hzero heq))
  apply h.shrink rfl
  · exact fun s fd hs => (Maps.sslFd_free hs).1
  · intro s q fd hs _ _
    simp [bindingStep,(hne s fd hs).symm]
  · intro s q fd hs _ _ hf
    exact Maps.fdSsl_free hf (hne s fd hs)

theorem Traced.close {m : Maps} {past : List TlsStep} (h : Traced m past) (c : Caller)
    (fd : UInt32) (hsafe : SafeStep m past (.close c fd)) :
    Traced (m.unmarkSockFd c.tgid fd) (past ++ [.close c fd]) := by
  have hother : ∀ s q fd', (m.unmarkSockFd c.tgid fd).sslFd.get s = some fd' →
      lastBinder s past = some (q,fd') → binding q s past = some fd' →
      ¬ (c.tgid = q ∧ fd' = fd.toInt32) := by
    rintro s q fd' hs hq hb ⟨rfl,rfl⟩
    obtain ⟨hold,hnot⟩ := Maps.sslFd_close hs
    refine hnot ⟨?_,rfl⟩
    have := h.reverse s c.tgid _ hold hq (hsafe s hb)
    rwa [fdKey,UInt32.toUInt32_toInt32] at this
  apply h.shrink rfl
  · exact fun s fd' hs => (Maps.sslFd_close hs).1
  · intro s q fd' hs hq hb
    have hne := hother s q fd' hs hq hb
    simp only [bindingStep,Option.some.injEq]
    exact if_neg hne
  · intro s q fd' hs hq hb hf
    have hne := hother s q fd' hs hq hb
    rw [Maps.fdSsl_close m c.tgid fd,hf]
    rw [show sockFdKey c.tgid fd = fdKey c.tgid fd.toInt32 by rw [fdKey,UInt32.toUInt32_toInt32],
      ne_eq,fdKey_inj]
    exact fun heq => hne ⟨heq.1.symm,heq.2⟩

theorem Traced.step {m : Maps} {past : List TlsStep} (h : Traced m past) (step : TlsStep)
    (hsafe : SafeStep m past step) : Traced (step.apply m).1 (past ++ [step]) := by
  cases step with
  | setFd c ssl fd => exact h.setFd c ssl fd
  | free c ssl => exact h.free c ssl
  | close c fd => exact h.close c fd hsafe
  | enter c ssl buf dir => exact h.same rfl (fun _ _ _ => rfl) (m.sameBindings_enter c ssl buf dir)
  | enterEx c ssl buf outlen dir =>
    exact h.same rfl (fun _ _ _ => rfl) (m.sameBindings_enterEx c ssl buf outlen dir)
  | exit c isEx rax => exact h.same rfl (fun _ _ _ => rfl) (m.sameBindings_exit c isEx rax)
  | unmapped ssl => exact h.same rfl (fun _ _ _ => rfl) (m.sameBindings_bump ssl)
  | world io => exact h.same rfl (fun _ _ _ => rfl) ⟨rfl,rfl⟩

/-- Every step is safe where the run takes it. -/
def SafeFrom (m : Maps) (past : List TlsStep) : List TlsStep → Prop
  | [] => True
  | step :: rest => SafeStep m past step ∧ SafeFrom (step.apply m).1 (past ++ [step]) rest

theorem Traced.run {m : Maps} {past before : List TlsStep} {step : TlsStep} {after : List TlsStep}
    (h : Traced m past) (hsafe : SafeFrom m past (before ++ step :: after)) :
    Traced (before.foldl (fun m s => (s.apply m).1) m) (past ++ before) ∧
      SafeStep (before.foldl (fun m s => (s.apply m).1) m) (past ++ before) step := by
  induction before generalizing m past with
  | nil => simpa using ⟨h,hsafe.1⟩
  | cons b before ih =>
    have hrest := ih (h.step b hsafe.1) hsafe.2
    rwa [List.append_assoc] at hrest

def TlsStep.object (m : Maps) : TlsStep → Option UInt64
  | .exit c isEx _ => (m.pending isEx c.pid).map PendingTls.sslPtr
  | _ => none

/-- In a safe run every TLS event carries the descriptor that its process has bound to its
object. -/
theorem tls_events_carry_binding (steps : List TlsStep) (hsafe : SafeFrom Maps.start [] steps)
    (before : List TlsStep) (step : TlsStep) (after : List TlsStep)
    (hsplit : steps = before ++ step :: after) (ev : SockIoEvent)
    (hev : (step.apply (TlsStep.run before)).2 = some ev) :
    ∃ s, step.object (TlsStep.run before) = some s ∧ binding ev.tgid s before = some ev.fd := by
  have hstart : Traced Maps.start [] := ⟨by simp [Maps.start],by simp [Maps.start]⟩
  subst hsplit
  obtain ⟨htraced,hstep⟩ := hstart.run hsafe
  cases step with
  | exit c isEx rax =>
    obtain ⟨p,hp,hfd,htgid⟩ := Maps.exit_event hev
    obtain ⟨-,q,hq,hb⟩ := htraced.bound p.sslPtr ev.fd hfd
    refine ⟨p.sslPtr,by simp [TlsStep.object,hp],?_⟩
    rcases hstep p hp q ev.fd hq with rfl | hown
    · rw [htgid]
      exact hb
    · rw [htgid]
      exact hown
  | _ => simp [TlsStep.apply] at hev

/-- A thread of a process whose buffer holds the start of a request. -/
def worker (tgid : UInt32) : Caller where
  tgid := tgid
  filter := ⟨none,∅,∅⟩
  sampleN := none
  prandom := 0
  pid := tgid
  tsNs := 1
  cgroupId := 0
  ringFree := true
  mem := ⟨fun a => (octets "GET / HTTP/1.1").getD a.toNat.pred 0,fun _ => true⟩

def twoSockets : IoMaps where
  sockMeta := markSockMeta (markSockMeta ∅ (worker 1).toProbe 3 (SockMeta.withPeerV4 1 80))
    (worker 1).toProbe 5 (SockMeta.withPeerV4 2 80)
  inflight := ∅
  drops := 0

/-- The second process has used the same address for an object of its own before. -/
def reusedObject : List TlsStep :=
  [.world twoSockets,.setFd (worker 2) 4096 5,.free (worker 2) 4096,.setFd (worker 1) 4096 3,
    .enter (worker 1) 4096 1 .write,.exit (worker 1) false 14]

theorem tls_events_carry_binding_reused_object :
    SafeFrom Maps.start [] reusedObject ∧
      ∃ ev, ((TlsStep.exit (worker 1) false 14).apply (TlsStep.run (reusedObject.take 5))).2 =
        some ev ∧ ev.fd = 3 ∧
        ∃ s, (TlsStep.exit (worker 1) false 14).object (TlsStep.run (reusedObject.take 5)) = some s ∧
          binding ev.tgid s (reusedObject.take 5) = some ev.fd := by
  have hbinder : lastBinder 4096 (reusedObject.take 5) = some (1,3) := by decide +kernel
  have hpending : (TlsStep.run (reusedObject.take 5)).pending false 1 =
      some ⟨1,4096,0,2⟩ := by rfl
  have hsafe : SafeFrom Maps.start [] reusedObject := by
    refine ⟨trivial,trivial,trivial,trivial,trivial,fun p hp q fd hq => ?_,trivial⟩
    obtain rfl : (⟨1,4096,0,2⟩ : PendingTls) = p := Option.some.inj (hpending.symm.trans hp)
    exact Or.inl (congrArg Prod.fst (Option.some.inj (hq.symm.trans hbinder)))
  have hev : (((TlsStep.exit (worker 1) false 14).apply
      (TlsStep.run (reusedObject.take 5))).2.map SockIoEvent.fd) = some 3 := by decide +kernel
  obtain ⟨ev,hev,hfd⟩ := Option.map_eq_some_iff.mp hev
  exact ⟨hsafe,ev,hev,hfd,tls_events_carry_binding reusedObject hsafe (reusedObject.take 5) _ [] rfl
    ev hev⟩

def sharedObject : List TlsStep :=
  [.world twoSockets,.setFd (worker 1) 4096 3,.setFd (worker 2) 4096 5,
    .enter (worker 1) 4096 1 .write]

/-- The event of the first process carries the descriptor of the second. -/
theorem shared_object_carries_foreign_fd :
    ∃ ev, ((TlsStep.exit (worker 1) false 14).apply (TlsStep.run sharedObject)).2 = some ev ∧
      ev.tgid = 1 ∧ ev.fd = 5 ∧
      (TlsStep.exit (worker 1) false 14).object (TlsStep.run sharedObject) = some 4096 ∧
      binding 1 4096 sharedObject = some 3 := by
  have hev : (((TlsStep.exit (worker 1) false 14).apply
      (TlsStep.run sharedObject)).2.map fun ev => (ev.tgid,ev.fd)) = some (1,5) := by
    decide +kernel
  obtain ⟨ev,hev,heq⟩ := Option.map_eq_some_iff.mp hev
  simp only [Prod.mk.injEq] at heq
  exact ⟨ev,hev,heq.1,heq.2,by decide +kernel,by decide +kernel⟩

end Kernel
end ObsAgent
