import ObsAgent.TlsBinding

/-! The three maps between `SSL*` and descriptor agree as long as every object belongs to one
process: the reverse map names an object at most once and where the forward map sends it, and the
TLS mark of a descriptor is there just when the reverse entry is. -/
namespace ObsAgent
namespace Kernel

structure Consistent (own : UInt64 → UInt32) (m : Maps) : Prop where
  reverse : ∀ k s, m.fdSsl.get k = some s → ∃ fd, k = fdKey (own s) fd ∧ m.sslFd.get s = some fd
  forward : ∀ s fd, m.sslFd.get s = some fd → s ≠ 0 ∧ 0 ≤ fd
  marked : ∀ k, (m.tlsFds.get k).isSome = (m.fdSsl.get k).isSome

/-- The reverse entries and the marks of one object are gone, all others are as before. -/
structure Maps.Forgets (m m' : Maps) (ssl : UInt64) : Prop where
  fdSsl : ∀ k, m'.fdSsl.get k = if m.fdSsl.get k = some ssl then none else m.fdSsl.get k
  tlsFds : ∀ k, m'.tlsFds.get k = if m.fdSsl.get k = some ssl then none else m.tlsFds.get k

namespace Maps

theorem get_dropReverse (m : Maps) (key ssl k : UInt64) :
    (m.dropReverse key ssl).fdSsl.get k =
        (if k = key ∧ m.fdSsl.get k = some ssl then none else m.fdSsl.get k) ∧
      (m.dropReverse key ssl).tlsFds.get k =
        if k = key ∧ m.fdSsl.get k = some ssl then none else m.tlsFds.get k := by
  rw [dropReverse]
  by_cases hk : k = key
  · subst hk
    by_cases hs : m.fdSsl.get k = some ssl <;> simp [hs]
  · by_cases hs : m.fdSsl.get key = some ssl <;> simp [hs,hk,FiniteMap.get_remove]

theorem forgets_unnamed {m m' : Maps} {ssl : UInt64} (h : ∀ k, m.fdSsl.get k ≠ some ssl)
    (hfd : m'.fdSsl = m.fdSsl) (htls : m'.tlsFds = m.tlsFds) : m.Forgets m' ssl :=
  ⟨fun k => by rw [hfd,if_neg (h k)],fun k => by rw [htls,if_neg (h k)]⟩

end Maps

namespace Consistent

variable {own : UInt64 → UInt32} {m : Maps} (h : Consistent own m)

include h

theorem unnamed {ssl : UInt64} (hnone : m.sslFd.get ssl = none) (k : UInt64) :
    m.fdSsl.get k ≠ some ssl := by
  intro hk
  obtain ⟨fd,-,hfd⟩ := h.reverse k ssl hk
  rw [hnone] at hfd
  cases hfd

theorem key_of_named {k ssl : UInt64} {fd : Int32} (hk : m.fdSsl.get k = some ssl)
    (hfd : m.sslFd.get ssl = some fd) : k = fdKey (own ssl) fd := by
  obtain ⟨fd',rfl,hfd'⟩ := h.reverse k ssl hk
  rw [Option.some.inj (hfd'.symm.trans hfd)]

theorem forgets_drop {ssl : UInt64} {fd : Int32} (hfd : m.sslFd.get ssl = some fd) :
    m.Forgets (m.dropReverse (fdKey (own ssl) fd) ssl) ssl := by
  have hcond : ∀ k, (k = fdKey (own ssl) fd ∧ m.fdSsl.get k = some ssl) ↔
      m.fdSsl.get k = some ssl := fun k => and_iff_right_of_imp fun hk => h.key_of_named hk hfd
  constructor
  · intro k
    rw [(m.get_dropReverse _ _ k).1]
    simp only [hcond]
  · intro k
    rw [(m.get_dropReverse _ _ k).2]
    simp only [hcond]

/-- Behind `SSL_set_fd` the object is named by its new descriptor and by no other. -/
theorem get_setFd {ssl : UInt64} {fd : Int32} (hok : ¬ (ssl = 0 ∨ fd < 0)) (k : UInt64) :
    (m.tryEnterSslSetFd (own ssl) ssl fd).fdSsl.get k =
        (if k = fdKey (own ssl) fd then some ssl
          else if m.fdSsl.get k = some ssl then none else m.fdSsl.get k) ∧
      (m.tryEnterSslSetFd (own ssl) ssl fd).tlsFds.get k =
        if k = fdKey (own ssl) fd then some 1
          else if m.fdSsl.get k = some ssl then none else m.tlsFds.get k := by
  have hneg : ¬ fd < 0 := fun hlt => hok (Or.inr hlt)
  simp only [Maps.tryEnterSslSetFd,if_neg hok,Maps.markTlsFd,if_neg hneg,FiniteMap.get_put]
  by_cases hk : k = fdKey (own ssl) fd
  · rw [if_pos hk,if_pos hk]
    exact ⟨if_pos hk,if_pos hk⟩
  · rw [if_neg hk,if_neg hk]
    refine ⟨(if_neg hk).trans ?_,(if_neg hk).trans ?_⟩
    all_goals
      cases hold : m.sslFd.get ssl with
      | none => simp [h.unnamed hold k]
      | some old =>
        dsimp only
        by_cases hmoved : old ≠ fd
        · rw [if_pos ⟨(h.forward ssl old hold).2,hmoved⟩]
          first
            | exact (h.forgets_drop hold).fdSsl k
            | exact (h.forgets_drop hold).tlsFds k
        · rw [if_neg fun hm => hmoved hm.2]
          have hunnamed : m.fdSsl.get k ≠ some ssl := fun hs =>
            hk (not_not.mp hmoved ▸ h.key_of_named hs hold)
          rw [if_neg hunnamed]

theorem setFd (ssl : UInt64) (fd : Int32) :
    Consistent own (m.tryEnterSslSetFd (own ssl) ssl fd) := by
  by_cases hok : ssl = 0 ∨ fd < 0
  · rw [Maps.tryEnterSslSetFd,if_pos hok]
    exact h
  have hssl : ∀ s, (m.tryEnterSslSetFd (own ssl) ssl fd).sslFd.get s =
      if s = ssl then some fd else m.sslFd.get s := fun s => by
    rw [Maps.sslFd_setFd hok,FiniteMap.get_put]
  refine ⟨fun k s hk => ?_,fun s fd' hs => ?_,fun k => ?_⟩
  · rw [(h.get_setFd hok k).1] at hk
    split_ifs at hk with hkey hs
    · obtain rfl := Option.some.inj hk
      exact ⟨fd,hkey,by rw [hssl,if_pos rfl]⟩
    · obtain ⟨fd',hkey',hfd'⟩ := h.reverse k s hk
      have hne : s ≠ ssl := by
        rintro rfl
        exact hs hk
      exact ⟨fd',hkey',by rw [hssl,if_neg hne,hfd']⟩
  · rw [hssl] at hs
    split_ifs at hs with he
    · obtain rfl := Option.some.inj hs
      exact ⟨fun h0 => hok (Or.inl (he ▸ h0)),Int32.not_lt.mp fun hlt => hok (Or.inr hlt)⟩
    · exact h.forward s fd' hs
  · rw [(h.get_setFd hok k).1,(h.get_setFd hok k).2]
    split_ifs
    · rfl
    · rfl
    · exact h.marked k

/-- Behind `SSL_free` nothing mentions the object. -/
theorem get_free (ssl : UInt64) :
    m.Forgets (m.tryEnterSslFree (own ssl) ssl) ssl ∧
      ∀ s, (m.tryEnterSslFree (own ssl) ssl).sslFd.get s =
        if s = ssl then none else m.sslFd.get s := by
  simp only [Maps.tryEnterSslFree,Maps.clearSslPtr]
  by_cases hzero : ssl = 0
  · have hnone : m.sslFd.get ssl = none :=
      Option.eq_none_iff_forall_ne_some.mpr fun fd hfd => (h.forward ssl fd hfd).1 hzero
    rw [if_pos hzero]
    refine ⟨Maps.forgets_unnamed (h.unnamed hnone) rfl rfl,fun s => ?_⟩
    split_ifs with hs
    · rw [hs,hnone]
    · rfl
  · rw [if_neg hzero]
    cases hold : m.sslFd.get ssl with
    | none =>
      refine ⟨Maps.forgets_unnamed (h.unnamed hold) rfl rfl,fun s => ?_⟩
      split_ifs with hs
      · rw [hs,hold]
      · rfl
    | some fd =>
      have hneg : ¬ fd < 0 := Int32.not_lt.mpr (h.forward ssl fd hold).2
      have hdrop := h.forgets_drop hold
      simp only [if_neg hneg]
      refine ⟨⟨fun k => ?_,fun k => ?_⟩,fun s => ?_⟩
      · rw [← hdrop.fdSsl k,(m.get_dropReverse _ _ k).1,(Maps.get_dropReverse _ _ _ k).1]
        rfl
      · rw [← hdrop.tlsFds k,(m.get_dropReverse _ _ k).2,(Maps.get_dropReverse _ _ _ k).2]
        rfl
      · rw [Maps.sslFd_dropReverse,FiniteMap.get_remove]

theorem free (ssl : UInt64) : Consistent own (m.tryEnterSslFree (own ssl) ssl) := by
  obtain ⟨hforget,hssl⟩ := h.get_free ssl
  refine ⟨fun k s hk => ?_,fun s fd hs => ?_,fun k => ?_⟩
  · rw [hforget.fdSsl] at hk
    split_ifs at hk with hnamed
    obtain ⟨fd,hkey,hfd⟩ := h.reverse k s hk
    have hne : s ≠ ssl := by
      rintro rfl
      exact hnamed hk
    exact ⟨fd,hkey,by rw [hssl,if_neg hne,hfd]⟩
  · rw [hssl] at hs
    split_ifs at hs
    exact h.forward s fd hs
  · rw [hforget.fdSsl,hforget.tlsFds]
    split_ifs
    · rfl
    · exact h.marked k

/-- Behind a close nothing is kept under the descriptor, and the object it named is unbound. -/
theorem get_close (tgid fd : UInt32) :
    (∀ k, (m.unmarkSockFd tgid fd).fdSsl.get k =
      if k = sockFdKey tgid fd then none else m.fdSsl.get k) ∧
    (∀ k, (m.unmarkSockFd tgid fd).tlsFds.get k =
      if k = sockFdKey tgid fd then none else m.tlsFds.get k) ∧
    ∀ s, (m.unmarkSockFd tgid fd).sslFd.get s =
      if m.fdSsl.get (sockFdKey tgid fd) = some s then none else m.sslFd.get s := by
  simp only [Maps.unmarkSockFd,Maps.clearSslForFdKey]
  cases hnamed : m.fdSsl.get (sockFdKey tgid fd) with
  | none =>
    refine ⟨fun k => ?_,fun k => FiniteMap.get_remove _ _ _,fun s => by simp⟩
    split_ifs with hk
    · rw [hk,hnamed]
    · rfl
  | some ssl =>
    obtain ⟨fd',hkey,hfd'⟩ := h.reverse _ ssl hnamed
    have hfd : fd' = fd.toInt32 := by
      rw [fdKey] at hkey
      rw [(sockFdKey_inj.mp hkey).2,Int32.toInt32_toUInt32]
    have hmapped : m.sslFd.get ssl = some fd.toInt32 := hfd ▸ hfd'
    simp only [hmapped,if_true]
    refine ⟨fun k => FiniteMap.get_remove _ _ _,fun k => FiniteMap.get_remove _ _ _,fun s => ?_⟩
    rw [FiniteMap.get_remove]
    simp only [Option.some.injEq,eq_comm (a := s)]

theorem close (tgid fd : UInt32) : Consistent own (m.unmarkSockFd tgid fd) := by
  obtain ⟨hfd,htls,hssl⟩ := h.get_close tgid fd
  refine ⟨fun k s hk => ?_,fun s fd' hs => ?_,fun k => ?_⟩
  · rw [hfd] at hk
    split_ifs at hk with hkey
    obtain ⟨fd',hk',hs⟩ := h.reverse k s hk
    -- the object of another key is not the one that the closed descriptor named
    have hother : m.fdSsl.get (sockFdKey tgid fd) ≠ some s := fun hclosed =>
      hkey (hk'.trans (h.key_of_named hclosed hs).symm)
    exact ⟨fd',hk',by rw [hssl,if_neg hother,hs]⟩
  · rw [hssl] at hs
    split_ifs at hs
    exact h.forward s fd' hs
  · rw [hfd,htls]
    split_ifs
    · rfl
    · exact h.marked k

theorem same {m' : Maps} (hsame : m.SameBindings m') (htls : m'.tlsFds = m.tlsFds) :
    Consistent own m' := by
  obtain ⟨hssl,hfd⟩ := hsame
  exact ⟨hssl ▸ hfd ▸ h.reverse,hssl ▸ h.forward,htls ▸ hfd ▸ h.marked⟩

end Consistent

/-- The step of a process on its own object. -/
def TlsStep.OwnedBy (own : UInt64 → UInt32) : TlsStep → Prop
  | .setFd c ssl _ | .free c ssl => c.tgid = own ssl
  | _ => True

theorem Maps.tlsFds_bump (m : Maps) (ssl : UInt64) : (m.bumpUnmappedSsl ssl).tlsFds = m.tlsFds := by
  rw [Maps.bumpUnmappedSsl]
  split_ifs <;> rfl

theorem Maps.tlsFds_admit (m : Maps) (c : Caller) (ssl : UInt64) :
    (m.admitTls c ssl).1.tlsFds = m.tlsFds := by
  rw [Maps.admitTls]
  repeat' split
  · rfl
  · exact m.tlsFds_bump ssl
  · exact m.tlsFds_bump ssl

theorem Maps.tlsFds_exit (m : Maps) (c : Caller) (isEx : Bool) (rax : UInt64) :
    (m.tryExitSslPending c isEx rax).1.tlsFds = m.tlsFds := by
  have hdrop : (m.dropPending isEx c.pid).tlsFds = m.tlsFds := by
    rw [Maps.dropPending]
    split_ifs <;> rfl
  simp only [Maps.tryExitSslPending]
  repeat' split
  · rfl
  · exact hdrop
  · exact hdrop

theorem Consistent.step {own : UInt64 → UInt32} {m : Maps} (h : Consistent own m) {step : TlsStep}
    (hown : step.OwnedBy own) : Consistent own (step.apply m).1 := by
  cases step with
  | setFd c ssl fd =>
    rw [TlsStep.apply,show c.tgid = own ssl from hown]
    exact h.setFd ssl fd
  | free c ssl =>
    rw [TlsStep.apply,show c.tgid = own ssl from hown]
    exact h.free ssl
  | close c fd => exact h.close c.tgid fd
  | enter c ssl buf dir =>
    refine h.same (m.sameBindings_enter c ssl buf dir) ?_
    simp only [TlsStep.apply,Maps.tryEnterSslIo]
    split_ifs <;> simp [Maps.tlsFds_admit]
  | enterEx c ssl buf outlen dir =>
    refine h.same (m.sameBindings_enterEx c ssl buf outlen dir) ?_
    simp only [TlsStep.apply,Maps.tryEnterSslIoEx]
    split_ifs <;> simp [Maps.tlsFds_admit]
  | exit c isEx rax => exact h.same (m.sameBindings_exit c isEx rax) (m.tlsFds_exit c isEx rax)
  | unmapped ssl => exact h.same (m.sameBindings_bump ssl) (m.tlsFds_bump ssl)
  | world io => exact h.same ⟨rfl,rfl⟩ rfl

theorem run_consistent {own : UInt64 → UInt32} {steps : List TlsStep}
    (hown : ∀ step ∈ steps, step.OwnedBy own) : Consistent own (TlsStep.run steps) := by
  induction steps using List.reverseRecOn with
  | nil => exact ⟨by simp [TlsStep.run,Maps.start],by simp [TlsStep.run,Maps.start],fun _ => rfl⟩
  | append_singleton steps step ih =>
    rw [TlsStep.run,List.foldl_concat]
    exact (ih fun s hs => hown s (by simp [hs])).step (hown step (by simp))

/-- In every state of a run in which each object belongs to one process the three maps agree, a close
leaves nothing of its descriptor and an `SSL_free` nothing of its object. -/
theorem tls_maps_consistent (own : UInt64 → UInt32) (steps : List TlsStep)
    (hown : ∀ step ∈ steps, step.OwnedBy own) :
    (∀ tgid fd s, (TlsStep.run steps).fdSsl.get (sockFdKey tgid fd) = some s →
      (TlsStep.run steps).sslFd.get s = some fd.toInt32) ∧
    (∀ k k' s, (TlsStep.run steps).fdSsl.get k = some s → (TlsStep.run steps).fdSsl.get k' = some s →
      k = k') ∧
    (∀ tgid fd, (TlsStep.run steps).tlsFds.contains (sockFdKey tgid fd) =
      (TlsStep.run steps).fdSsl.contains (sockFdKey tgid fd)) ∧
    (∀ c fd, let m := ((TlsStep.close c fd).apply (TlsStep.run steps)).1
      m.fdSsl.get (sockFdKey c.tgid fd) = none ∧ m.tlsFds.get (sockFdKey c.tgid fd) = none ∧
      ∀ s, (TlsStep.run steps).fdSsl.get (sockFdKey c.tgid fd) = some s →
        m.sslFd.get s ≠ some fd.toInt32) ∧
    (∀ c ssl, c.tgid = own ssl → let m := ((TlsStep.free c ssl).apply (TlsStep.run steps)).1
      m.sslFd.get ssl = none ∧ ∀ k, m.fdSsl.get k ≠ some ssl) := by
  have h := run_consistent hown
  refine ⟨fun tgid fd s hs => ?_,fun k k' s hk hk' => ?_,fun tgid fd => h.marked _,
    fun c fd => ?_,fun c ssl htgid => ?_⟩
  · obtain ⟨fd',hkey,hfd'⟩ := h.reverse _ s hs
    rw [fdKey] at hkey
    rw [(sockFdKey_inj.mp hkey).2,Int32.toInt32_toUInt32,hfd']
  · obtain ⟨fd,rfl,hfd⟩ := h.reverse k s hk
    exact (h.key_of_named hk' hfd).symm
  · obtain ⟨hfd,htls,hssl⟩ := h.get_close c.tgid fd
    refine ⟨(hfd _).trans (if_pos rfl),(htls _).trans (if_pos rfl),fun s hs => ?_⟩
    simp only [TlsStep.apply,hssl,hs,if_true]
    simp
  · obtain ⟨hforget,hssl⟩ := h.get_free ssl
    simp only [TlsStep.apply,htgid]
    refine ⟨by rw [hssl,if_pos rfl],fun k hk => ?_⟩
    rw [hforget.fdSsl] at hk
    split_ifs at hk with hnamed
    exact hnamed hk

def bareCaller (tgid : UInt32) : Caller :=
  ⟨⟨tgid,⟨none,∅,∅⟩,none,0⟩,1,0,0,true,⟨fun _ => 0,fun _ => true⟩⟩

/-- One process moves an object to another descriptor and binds a second object to it. -/
theorem tls_maps_consistent_rebound :
    (TlsStep.run [.setFd (bareCaller 7) 100 3,.setFd (bareCaller 7) 100 4,
        .setFd (bareCaller 7) 200 4]).fdSsl.get (sockFdKey 7 4) = some 200 ∧
      (TlsStep.run [.setFd (bareCaller 7) 100 3,.setFd (bareCaller 7) 100 4,
        .setFd (bareCaller 7) 200 4]).sslFd.get 200 = some 4 := by
  have hnamed : (TlsStep.run [.setFd (bareCaller 7) 100 3,.setFd (bareCaller 7) 100 4,
      .setFd (bareCaller 7) 200 4]).fdSsl.get (sockFdKey 7 4) = some 200 := by decide +kernel
  refine ⟨hnamed,?_⟩
  exact (tls_maps_consistent (fun _ => 7) [.setFd (bareCaller 7) 100 3,.setFd (bareCaller 7) 100 4,
    .setFd (bareCaller 7) 200 4] (by simp [TlsStep.OwnedBy,bareCaller])).1 7 4 200 hnamed

end Kernel
end ObsAgent
