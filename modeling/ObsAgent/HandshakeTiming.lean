import ObsAgent.CallPairing

/-! The latency of a TLS handshake.  `SSL_do_handshake` may return and be called again many times
until the handshake is done, by any thread; the time counts from the first attempt. -/
namespace ObsAgent
namespace Kernel

open Stash (Role Closed)

/-- A step that ends what is known of a handshake: it succeeds, the object is freed, or the
descriptor that is bound to it is closed. -/
def KernelStep.Ends (ssl : UInt64) (m : ProbeMaps) : KernelStep → Prop
  | .fire _ _ (.enterSslFree ssl') => ssl' = ssl ∧ ssl ≠ 0
  | .fire c _ (.enterClose fd) => m.fdSsl.get (sockFdKey c.tgid fd.toUInt32) = some ssl
  | .fire c _ (.exitSslDoHandshake ret) => m.pendingHs.get c.pid = some ssl ∧ ret = 1
  | _ => False

/-- The time that a step notes for a handshake that has none. -/
def KernelStep.starts (ssl : UInt64) : KernelStep → Option ℕ
  | .fire c room (.enterSslDoHandshake ssl') =>
    if ssl' = ssl ∧ ssl ≠ 0 ∧ ProbeMaps.captured c ∧ room.handshakeStart then some c.tsNs else none
  | _ => none

theorem ProbeMaps.tryEnterSslDoHandshake_start (m : ProbeMaps) (c : Caller) (room : Room)
    (ssl ssl' : UInt64) : (m.tryEnterSslDoHandshake c room ssl').handshakeStart.get ssl =
      (m.handshakeStart.get ssl).or
        (KernelStep.starts ssl (.fire c room (.enterSslDoHandshake ssl'))) := by
  cases hc : captured c with
  | false => simp [tryEnterSslDoHandshake,KernelStep.starts,hc]
  | true =>
    by_cases hzero : ssl' = 0
    · simp only [tryEnterSslDoHandshake,KernelStep.starts,hzero,if_true,ite_self]
      by_cases hssl : 0 = ssl
      · simp [← hssl]
      · simp [hssl]
    · cases hstart : m.handshakeStart.get ssl' with
      | some ts =>
        have hcontains : m.handshakeStart.contains ssl' = true := by
          rw [FiniteMap.contains,hstart]
          rfl
        simp only [tryEnterSslDoHandshake,KernelStep.starts,hc,hzero,hcontains]
        by_cases hssl : ssl' = ssl
        · subst hssl
          simp [hstart]
        · simp [hssl]
      | none =>
        have hcontains : m.handshakeStart.contains ssl' = false := by
          rw [FiniteMap.contains,hstart]
          rfl
        simp only [tryEnterSslDoHandshake,KernelStep.starts,hc,hzero,hcontains]
        change (place room.handshakeStart m.handshakeStart ssl' c.tsNs).get ssl = _
        rw [get_place]
        by_cases hssl : ssl = ssl'
        · subst hssl
          simp [hstart,hzero]
        · simp [hssl,Ne.symm hssl]

theorem ProbeMaps.tryExitSslDoHandshake_start (m : ProbeMaps) (c : Caller) (room : Room) (ret : Int32)
    (ssl : UInt64) : (m.tryExitSslDoHandshake c room ret).1.handshakeStart.get ssl =
      if m.pendingHs.get c.pid = some ssl ∧ ret = 1 then none else m.handshakeStart.get ssl := by
  cases hpending : m.pendingHs.get c.pid with
  | none => simp [tryExitSslDoHandshake,hpending]
  | some ssl' =>
    by_cases hret : ret = 1
    · cases hstart : m.handshakeStart.get ssl' with
      | none =>
        simp only [tryExitSslDoHandshake,hpending,hret,hstart]
        by_cases hssl : ssl' = ssl
        · subst hssl
          simp [hstart]
        · simp [hssl]
      | some start =>
        have hremoved : (m.tryExitSslDoHandshake c room ret).1.handshakeStart =
            m.handshakeStart.remove ssl' := by
          cases hfd : m.sslFd.get ssl' with
          | none => simp [tryExitSslDoHandshake,hpending,hret,hstart,hfd]
          | some fd => cases hc : captured c <;> simp [tryExitSslDoHandshake,hpending,hret,hstart,hfd,hc]
        rw [hremoved,FiniteMap.get_remove]
        simp [hret,eq_comm]
    · simp [tryExitSslDoHandshake,hpending,hret]

theorem ProbeMaps.tryEnterClose_start (m : ProbeMaps) (c : Caller) (fd : UInt64) (ssl : UInt64) :
    (m.tryEnterClose c fd).handshakeStart.get ssl =
      if m.fdSsl.get (sockFdKey c.tgid fd.toUInt32) = some ssl then none
      else m.handshakeStart.get ssl := by
  cases hget : m.fdSsl.get (sockFdKey c.tgid fd.toUInt32) with
  | none => simp [tryEnterClose,hget]
  | some ssl' =>
    simp only [tryEnterClose,hget,FiniteMap.get_remove]
    simp [eq_comm]

theorem ProbeMaps.tryEnterSslFree_start (m : ProbeMaps) (c : Caller) (ssl ssl' : UInt64) :
    (m.tryEnterSslFree c ssl').handshakeStart.get ssl =
      if ssl' = ssl ∧ ssl ≠ 0 then none else m.handshakeStart.get ssl := by
  by_cases hzero : ssl' = 0
  · have hnot : ¬(ssl' = ssl ∧ ssl ≠ 0) := fun h => h.2 (h.1 ▸ hzero)
    rw [tryEnterSslFree,if_pos hzero,if_neg hnot]
  · simp only [tryEnterSslFree,hzero,if_false,FiniteMap.get_remove]
    by_cases hssl : ssl' = ssl
    · subst hssl
      simp [hzero]
    · simp [hssl,Ne.symm hssl]

theorem handshakeStart_firstKept (ssl : UInt64) :
    Stash.FirstKept ProbeMaps.step (fun m => m.handshakeStart.get ssl) (KernelStep.starts ssl)
      (fun m e => e.Ends ssl m) where
  ended m e hend := by
    cases e with
    | clearInflight tgid fd => exact hend.elim
    | fire c room probe =>
      cases probe with
      | enterClose fd => exact (m.tryEnterClose_start c fd ssl).trans (if_pos hend)
      | enterSslFree ssl' => exact (m.tryEnterSslFree_start c ssl ssl').trans (if_pos hend)
      | exitSslDoHandshake ret =>
        exact (m.tryExitSslDoHandshake_start c room ret ssl).trans (if_pos hend)
      | _ => exact hend.elim
  kept m e hend := by
    cases e with
    | clearInflight tgid fd =>
      simp only [ProbeMaps.step,ProbeMaps.clearInflight_toCalls,KernelStep.starts,Option.or_none]
    | fire c room probe =>
      have huntouched := (m.fire_untouched c room probe).handshakeStart
      cases probe with
      | enterClose fd =>
        exact ((m.tryEnterClose_start c fd ssl).trans (if_neg hend)).trans Option.or_none.symm
      | enterSslFree ssl' =>
        exact ((m.tryEnterSslFree_start c ssl ssl').trans (if_neg hend)).trans Option.or_none.symm
      | enterSslDoHandshake ssl' => exact m.tryEnterSslDoHandshake_start c room ssl ssl'
      | exitSslDoHandshake ret =>
        exact ((m.tryExitSslDoHandshake_start c room ret ssl).trans (if_neg hend)).trans
          Option.or_none.symm
      | _ =>
        rw [ProbeMaps.step,huntouched rfl]
        exact Option.or_none.symm

def handshakeStash (_ : ProbeMaps) (c : Caller) (room : Room) : ProbeKind → Option UInt64
  | .enterSslDoHandshake ssl =>
    if ssl ≠ 0 ∧ ProbeMaps.captured c ∧ room.pendingHs then some ssl else none
  | _ => none

theorem pendingHs_slot :
    ThreadSlot (fun m => m.pendingHs) ProbeKind.handshakeRole handshakeStash where
  enter m c room probe hrole tid := by
    cases probe with
    | enterSslDoHandshake ssl =>
      change (m.tryEnterSslDoHandshake c room ssl).pendingHs.get tid = _
      by_cases hnone : ProbeMaps.captured c = false ∨ ssl = 0
      · have hsame : m.tryEnterSslDoHandshake c room ssl = m := by
          rcases hnone with hc | hzero
          · simp [ProbeMaps.tryEnterSslDoHandshake,hc]
          · simp [ProbeMaps.tryEnterSslDoHandshake,hzero]
        have hstash : handshakeStash m c room (.enterSslDoHandshake ssl) = none := by
          rcases hnone with hc | hzero
          · simp [handshakeStash,hc]
          · simp [handshakeStash,hzero]
        rw [hsame,hstash]
        exact (get_of_no_stash m.pendingHs c.pid tid).symm
      · obtain ⟨hc,hzero⟩ := not_or.mp hnone
        rw [Bool.not_eq_false] at hc
        have hplaced : (m.tryEnterSslDoHandshake c room ssl).pendingHs =
            place room.pendingHs m.pendingHs c.pid ssl := by
          simp only [ProbeMaps.tryEnterSslDoHandshake,hc,hzero]
          cases m.handshakeStart.contains ssl <;> rfl
        rw [hplaced,get_place,handshakeStash]
        simp [hc,hzero]
    | _ => cases hrole
  exit m c room probe hrole tid := by
    cases probe with
    | exitSslDoHandshake ret =>
      change (m.tryExitSslDoHandshake c room ret).1.pendingHs.get tid = _
      cases hget : m.pendingHs.get c.pid with
      | none =>
        simp only [ProbeMaps.tryExitSslDoHandshake,hget]
        exact get_of_taken hget tid
      | some ssl =>
        have htaken : (m.tryExitSslDoHandshake c room ret).1.pendingHs = m.pendingHs.remove c.pid := by
          simp only [ProbeMaps.tryExitSslDoHandshake,hget]
          split
          · rfl
          · split
            · rfl
            · split
              · rw [ProbeMaps.bumpUnmappedSsl_toCalls]
              · split
                · rfl
                · rw [ProbeMaps.submit_toCalls]
        rw [htaken]
        exact m.pendingHs.get_remove c.pid tid
    | _ => cases hrole
  idle m c room probe hrole := (m.fire_untouched c room probe).pendingHs hrole
  clear m tgid fd := congrArg Calls.pendingHs (m.clearInflight_toCalls tgid fd)

theorem ProbeMaps.tryExitSslDoHandshake_record {m : ProbeMaps} {c : Caller} {room : Room}
    {ret : Int32} {r : RingEvent} (hr : r ∈ (m.tryExitSslDoHandshake c room ret).2) :
    ∃ ssl start fd, m.pendingHs.get c.pid = some ssl ∧ m.handshakeStart.get ssl = some start ∧
      m.sslFd.get ssl = some fd ∧ ret = 1 ∧ captured c = true ∧
      r = .handshake ⟨EventKind.tlsHandshake.toU8,c.pid,c.tgid,fd,1,c.tsNs - start,c.tsNs⟩ := by
  simp only [tryExitSslDoHandshake] at hr
  split at hr
  · cases hr
  · next ssl hssl =>
    split at hr
    · cases hr
    · next hret =>
      split at hr
      · cases hr
      · next start hstart =>
        split at hr
        · cases hr
        · next fd hfd =>
          split at hr
          · cases hr
          · next hc =>
            have hone : ret = 1 := not_not.mp hret
            rw [(submit_submits _ c _).records] at hr
            split_ifs at hr
            · refine ⟨ssl,start,fd,hssl,hstart,hfd,hone,by simpa using hc,?_⟩
              subst hone
              simpa using hr
            · cases hr

theorem KernelStep.starts_some {ssl : UInt64} {e : KernelStep} {ts : ℕ}
    (h : e.starts ssl = some ts) :
    ∃ c room, e = .fire c room (.enterSslDoHandshake ssl) ∧ ProbeMaps.captured c = true ∧
      c.tsNs = ts ∧ ssl ≠ 0 := by
  cases e with
  | clearInflight tgid fd => cases h
  | fire c room probe =>
    cases probe with
    | enterSslDoHandshake ssl' =>
      simp only [starts] at h
      split_ifs at h with hstart
      obtain ⟨rfl,hzero,hc,-⟩ := hstart
      exact ⟨c,room,rfl,hc,Option.some.inj h,hzero⟩
    | _ => cases h

/-- Since the last end of a handshake on the object, or since the probes run, no captured attempt on
it was noted. -/
def Unattempted (ssl : UInt64) (es : List KernelStep) : Prop :=
  ∃ old since, es = old ++ since ∧
    (old = [] ∨ ∃ es' e, old = es' ++ [e] ∧ e.Ends ssl (Machine.final ProbeMaps.step .start es')) ∧
      ∀ c room, .fire c room (.enterSslDoHandshake ssl) ∈ since → ProbeMaps.captured c = true →
        room.handshakeStart = false

theorem unattempted_of_no_start {ssl : UInt64} (hssl : ssl ≠ 0) {es : List KernelStep}
    (hnone : (Machine.final ProbeMaps.step .start es).handshakeStart.get ssl = none) :
    Unattempted ssl es := by
  obtain ⟨old,since,hes,hold,hsince⟩ := (handshakeStart_firstKept ssl).unstarted hnone
  refine ⟨old,since,hes,hold,fun c room hattempt hc => ?_⟩
  have hstart := hsince _ hattempt
  simpa [KernelStep.starts,hssl,hc] using hstart

/-- The record of a handshake is about the object of the thread's own call, and its time counts from
the first attempt on this object, whoever made it, since the last handshake on it ended. -/
theorem handshake_latency_from_first_attempt (before between : List KernelStep) (c c' : Caller)
    (room room' : Room) (ssl : UInt64) (ret : Int32) (hthread : c'.pid = c.pid)
    (hclosed : Closed (KernelStep.roleOf ProbeKind.handshakeRole c.pid) before)
    (hidle : ∀ e ∈ between, KernelStep.roleOf ProbeKind.handshakeRole c.pid e = .idle) :
    let es := before ++ .fire c room (.enterSslDoHandshake ssl) :: between
    let m := Machine.final ProbeMaps.step .start es
    ∀ r ∈ (m.step (.fire c' room' (.exitSslDoHandshake ret))).2,
      ret = 1 ∧ ProbeMaps.captured c' = true ∧ ∃ fd, m.sslFd.get ssl = some fd ∧
      ∃ pre c₀ room₀ mid, es = pre ++ .fire c₀ room₀ (.enterSslDoHandshake ssl) :: mid ∧
        ProbeMaps.captured c₀ = true ∧ Unattempted ssl pre ∧
        Machine.Along ProbeMaps.step (fun m e => ¬e.Ends ssl m) (Machine.final ProbeMaps.step .start
          (pre ++ [.fire c₀ room₀ (.enterSslDoHandshake ssl)])) mid ∧
        r = .handshake ⟨EventKind.tlsHandshake.toU8,c'.pid,c'.tgid,fd,1,c'.tsNs - c₀.tsNs,
          c'.tsNs⟩ := by
  intro es m r hr
  have hslot := pendingHs_slot.taken rfl c room (.enterSslDoHandshake ssl) rfl hclosed hidle
  obtain ⟨ssl',start,fd,hpending,hstart,hfd,hret,hc',hrecord⟩ :=
    ProbeMaps.tryExitSslDoHandshake_record hr
  have hssl : ssl' = ssl := by
    rw [hthread] at hpending
    have heq := hpending.symm.trans hslot
    simp only [handshakeStash] at heq
    split_ifs at heq
    exact Option.some.inj heq
  subst hssl
  obtain ⟨pre,e,mid,hes,hgiven,hempty,halong⟩ := (handshakeStart_firstKept ssl').origin rfl hstart
  obtain ⟨c₀,room₀,rfl,hc₀,hts,hzero⟩ := KernelStep.starts_some hgiven
  subst hts
  exact ⟨hret,hc',fd,hfd,pre,c₀,room₀,mid,hes,hc₀,unattempted_of_no_start hzero hempty,halong,hrecord⟩

/-- Two attempts of different threads; the second one succeeds, and the time counts from the
first. -/
theorem handshake_latency_from_first_attempt_of_two :
    let mem : UserMemory := ⟨fun _ => 0,fun _ => true⟩
    let before := [.fire (plainCaller 7 11 100 mem) .all (.enterSslSetFd 64 3),
      .fire (plainCaller 7 11 200 mem) .all (.enterSslDoHandshake 64),
      .fire (plainCaller 7 11 300 mem) .all (.exitSslDoHandshake (-1))]
    let es := before ++ [.fire (plainCaller 7 12 400 mem) .all (.enterSslDoHandshake 64)]
    let m := Machine.final ProbeMaps.step .start es
    (m.step (.fire (plainCaller 7 12 500 mem) .all (.exitSslDoHandshake 1))).2 =
        [.handshake ⟨6,12,7,3,1,300,500⟩] ∧
      ∃ pre c₀ room₀ mid, es = pre ++ .fire c₀ room₀ (.enterSslDoHandshake 64) :: mid ∧
        Unattempted 64 pre ∧ 500 - Caller.tsNs c₀ = 300 := by
  intro mem before es m
  have hout : (m.step (.fire (plainCaller 7 12 500 mem) .all (.exitSslDoHandshake 1))).2 =
    [.handshake ⟨6,12,7,3,1,300,500⟩] := by decide +kernel
  obtain ⟨-,-,fd,-,pre,c₀,room₀,mid,hes,-,hfirst,-,hrecord⟩ :=
    handshake_latency_from_first_attempt before [] (plainCaller 7 12 400 mem)
      (plainCaller 7 12 500 mem) .all .all 64 1 rfl (Stash.closed_of_no_enter (by decide)) (by decide)
      (.handshake ⟨6,12,7,3,1,300,500⟩) (by rw [hout]; exact List.mem_singleton_self _)
  refine ⟨hout,pre,c₀,room₀,mid,hes,hfirst,?_⟩
  have hlatency := (TlsHandshakeEvent.mk.inj (RingEvent.handshake.inj hrecord)).2.2.2.2.2.1
  exact hlatency.symm

end Kernel
end ObsAgent
