import ObsAgent.Payloads

/-! `INFLIGHT` of a marked connection is not cleared, unless something of an earlier user of the
descriptor is pending when the connection is opened. -/
namespace ObsAgent

open Kernel Http1 H2

namespace H2

/-- The clears that are pending are of sockets that are not marked. -/
def H2Registry.Owing (r : H2Registry) : Prop := ∀ k ∈ r.unmark, r.conns.get ⟨k.1,k.2⟩ = none

section Registry

variable {r : H2Registry}

theorem H2Registry.Owing.dropConn (h : r.Owing) (tgid : UInt32) (fd : Int32) :
    (r.dropConn tgid fd).Owing := by
  have hget := Agent.get_dropConn r ⟨tgid,fd⟩
  intro k hk
  rw [hget]
  split_ifs with hkey
  · rfl
  · refine h k ?_
    simp only [H2Registry.dropConn] at hk
    split at hk
    · exact hk
    · rcases List.mem_append.mp hk with hk | hk
      · exact hk
      · exact absurd (by rw [List.mem_singleton.mp hk]) hkey

theorem H2Registry.Owing.retain (h : r.Owing) (keep : ConnKey → H2Conn → Bool) :
    (r.retainConns keep).Owing := by
  intro k hk
  rcases List.mem_append.mp hk with hk | hk
  · have hnone := h k hk
    simp only [H2Registry.retainConns,FiniteMap.get_retain,hnone,Option.filter_none]
  · obtain ⟨key,hkey,rfl⟩ := List.mem_map.mp hk
    exact (FiniteMap.get_of_rejected hkey).2

/-- A fed connection owes a clear only if it is gone. -/
theorem feedConn_unmark (r : H2Registry) (key : ConnKey) (conn : H2Conn) (dir : IoDir)
    (ev : SockIoEvent) (now : Instant) (clientOnly : Bool) :
    ∀ k ∈ (r.feedConn key conn dir ev now clientOnly).1.unmark, k ∈ r.unmark ∨
      k = (key.tgid,key.fd) ∧
        (r.feedConn key conn dir ev now clientOnly).1.conns.get key = none := by
  intro k hk
  simp only [H2Registry.feedConn] at hk ⊢
  split_ifs at hk ⊢
  · rcases List.mem_append.mp hk with hk | hk
    · exact Or.inl hk
    · exact Or.inr ⟨List.mem_singleton.mp hk,FiniteMap.get_remove_self _ _⟩
  · exact Or.inl hk

theorem unmark_forget (r : H2Registry) (key : ConnKey) (chunk : List UInt8) :
    (r.forget key chunk).unmark = r.unmark := by
  rw [H2Registry.forget]
  split_ifs <;> rfl

theorem feed_unmark (r : H2Registry) (ev : SockIoEvent) (now : Instant) (clientOnly : Bool) :
    ∀ k ∈ (r.feed ev now clientOnly).1.unmark, k ∈ r.unmark ∨
      k = (ev.tgid,ev.fd) ∧ (r.feed ev now clientOnly).1.conns.get ev.connKey = none := by
  intro k hk
  have hforget := unmark_forget r ⟨ev.tgid,ev.fd⟩ ev.chunk
  have hfed := r.feed_fed ev now clientOnly
  generalize r.feed ev now clientOnly = q at hfed hk ⊢
  cases hfed with
  | ignored => exact Or.inl hk
  | foreign => exact Or.inl (hforget ▸ hk)
  | full hr _ => exact Or.inl (hforget ▸ hr ▸ hk)
  | known hr _ =>
    rw [← hforget,hr]
    exact feedConn_unmark _ _ _ _ _ _ _ k hk
  | opened hr _ _ hq =>
    subst hq
    rw [← hforget,hr]
    exact feedConn_unmark _ _ _ _ _ _ _ k hk

theorem H2Registry.Owing.feed (h : r.Owing) {ev : SockIoEvent}
    (hkey : (ev.tgid,ev.fd) ∉ r.unmark) (now : Instant) (clientOnly : Bool) :
    (r.feed ev now clientOnly).1.Owing := by
  intro k hk
  rcases feed_unmark r ev now clientOnly k hk with hold | ⟨rfl,hgone⟩
  · have hne : (⟨k.1,k.2⟩ : ConnKey) ≠ ev.connKey := fun heq => by
      obtain ⟨htgid,hfd⟩ := ConnKey.mk.inj heq
      exact hkey (by rwa [← htgid,← hfd])
    rw [feed_other r ev now clientOnly hne]
    exact h k hold
  · exact hgone

end Registry
end H2

namespace Http1

theorem evictStale_unmark (r : Reassembler) (now : Instant) :
    ∀ k ∈ (r.evictStale now).unmark, k ∈ r.unmark ∨
      ∃ dir, (r.bufs.get ⟨k.1,k.2,dir⟩).isSome = true := by
  intro k hk
  rcases List.mem_append.mp hk with hk | hk
  · exact Or.inl hk
  · obtain ⟨key,hkey,rfl⟩ := List.mem_map.mp hk
    exact Or.inr ⟨key.dir,(FiniteMap.get_of_rejected hkey).1⟩

theorem push_unmark (r : Reassembler) (ev : SockIoEvent) (now : Instant) :
    (r.push ev now).1.unmark = (r.evictStale now).unmark := by
  simp only [Reassembler.push]
  cases IoDir.fromU8 ev.dir with
  | none => rfl
  | some dir =>
    by_cases hgo : ev.ret < 0 ∨ ev.plen = 0
    · simp only [if_pos hgo]
    · simp only [if_neg hgo]
      split <;> split_ifs <;> rfl

end Http1

namespace Agent

/-- Nothing is pending of an earlier user of the socket, no buffer and no clear. -/
structure Settled (s : Agent) (k : ConnKey) : Prop where
  buffers : ∀ dir, s.reassembler.bufs.get ⟨k.tgid,k.fd,dir⟩ = none
  clears : (k.tgid,k.fd) ∉ s.h2.unmark

theorem no_buffers_iff (r : Reassembler) (k : ConnKey) :
    (∀ b ∈ r.bufs.keys, (⟨b.tgid,b.fd⟩ : ConnKey) ≠ k) ↔
      ∀ dir, r.bufs.get ⟨k.tgid,k.fd,dir⟩ = none := by
  constructor
  · intro h dir
    by_contra hsome
    exact h ⟨k.tgid,k.fd,dir⟩
      ((FiniteMap.mem_keys_iff _ _).mpr (Option.isSome_iff_ne_none.mpr hsome)) rfl
  · rintro h b hb rfl
    rw [FiniteMap.mem_keys_iff,h b.dir] at hb
    simp at hb

instance (s : Agent) (k : ConnKey) : Decidable (s.Settled k) :=
  decidable_of_iff ((∀ b ∈ s.reassembler.bufs.keys, (⟨b.tgid,b.fd⟩ : ConnKey) ≠ k) ∧
    (k.tgid,k.fd) ∉ s.h2.unmark)
    ⟨fun h => ⟨(no_buffers_iff _ _).mp h.1,h.2⟩,fun h => ⟨(no_buffers_iff _ _).mpr h.1,h.2⟩⟩

/-- Nothing is pending of a marked socket. -/
structure Sticky (s : Agent) : Prop where
  buffers : ∀ k, (s.h2.conns.get k).isSome = true →
    ∀ dir, s.reassembler.bufs.get ⟨k.tgid,k.fd,dir⟩ = none
  owing : s.h2.Owing
  taken : s.reassembler.unmark = []

theorem sticky_start : start.Sticky :=
  ⟨fun k hk => by simp [start,H2Registry.default] at hk,fun k hk => by
    simp [start,H2Registry.default] at hk,rfl⟩

theorem clearings_unmarked {s : Agent} {unmarks : List (UInt32 × Int32)}
    (h : ∀ k ∈ unmarks, s.h2.conns.get ⟨k.1,k.2⟩ = none) :
    ∀ c ∈ s.clearings unmarks, c.marked = false := by
  intro c hc
  obtain ⟨k,hk,rfl⟩ := List.mem_map.mp hc
  simp only [H2Registry.isMarked,FiniteMap.contains,h k hk,Option.isSome_none]

section Step

variable {s : Agent}

theorem Sticky.settled (h : s.Sticky) {k : ConnKey} (hk : (s.h2.conns.get k).isSome = true) :
    s.Settled k where
  buffers := h.buffers k hk
  clears hin := by simp [h.owing _ hin] at hk

theorem Sticky.unmarking (h : s.Sticky) {s' : Agent} (howing : s'.h2.Owing)
    (hfewer : ∀ k, (s'.h2.conns.get k).isSome = true → (s.h2.conns.get k).isSome = true)
    (hsame : s'.reassembler = s.reassembler) : s'.Sticky where
  buffers k hk := by
    rw [hsame]
    exact h.buffers k (hfewer k hk)
  owing := howing
  taken := hsame ▸ h.taken

theorem owing_taken (r : H2Registry) : r.takeUnmark.1.Owing := fun k hk => by
  simp [H2Registry.takeUnmark] at hk

theorem marked_of_dropConn {r : H2Registry} (key : ConnKey) {k : ConnKey}
    (h : ((r.dropConn key.tgid key.fd).conns.get k).isSome = true) :
    (r.conns.get k).isSome = true := by
  rw [get_dropConn] at h
  split_ifs at h
  · simp at h
  · exact h

theorem marked_of_retain {r : H2Registry} {keep : ConnKey → H2Conn → Bool} {k : ConnKey}
    (h : ((r.retainConns keep).conns.get k).isSome = true) : (r.conns.get k).isSome = true :=
  FiniteMap.get_isSome_of_retain h

theorem Sticky.demote (h : s.Sticky) (ev : SockIoEvent) :
    (s.demote ev).1.Sticky ∧ ∀ c ∈ (s.demote ev).2, c.marked = false := by
  rw [Agent.demote]
  split_ifs
  · refine ⟨h.unmarking ?_ (fun k hk => ?_) (clearAll_reassembler _ _),clearings_unmarked ?_⟩
    · rw [clearAll_h2]
      exact owing_taken _
    · rw [clearAll_h2] at hk
      exact marked_of_dropConn ev.connKey hk
    · exact h.owing.dropConn ev.tgid ev.fd
  · exact ⟨h,by simp⟩

theorem Sticky.feedH2 (h : s.Sticky) {ev : SockIoEvent} (hkey : s.Settled ev.connKey)
    (clientOnly : Bool) (now : Instant) :
    (s.feedH2 ev clientOnly now).1.Sticky ∧
      ∀ c ∈ (s.feedH2 ev clientOnly now).2.cleared, c.marked = false := by
  simp only [Agent.feedH2]
  refine ⟨⟨fun k hk dir => ?_,?_,?_⟩,clearings_unmarked (h.owing.feed hkey.clears now clientOnly)⟩
  · rw [clearAll_reassembler]
    rw [clearAll_h2] at hk
    by_cases hk' : k = ev.connKey
    · rw [hk']
      exact hkey.buffers dir
    · refine h.buffers k ?_ dir
      rwa [← feed_other s.h2 ev now clientOnly hk']
  · rw [clearAll_h2]
    exact owing_taken _
  · rw [clearAll_reassembler]
    exact h.taken

theorem Sticky.stale (h : s.Sticky) (now : Instant) :
    ∀ k ∈ (s.reassembler.evictStale now).unmark, s.h2.conns.get ⟨k.1,k.2⟩ = none := by
  intro k hk
  rcases evictStale_unmark s.reassembler now k hk with hk | ⟨dir,hbuf⟩
  · simp [h.taken] at hk
  · by_contra hmarked
    have hnone := h.buffers ⟨k.1,k.2⟩ (Option.isSome_iff_ne_none.mpr hmarked) dir
    rw [hnone] at hbuf
    simp at hbuf

theorem buffered_none {r : Reassembler} {k : BufKey} (h : r.bufs.get k = none) (now : Instant) :
    r.buffered k now = none := by rw [Reassembler.buffered,h,Option.filter_none]

theorem Sticky.pushed (h : s.Sticky) {ev : SockIoEvent} (hkey : s.h2.conns.get ev.connKey = none)
    (now : Instant) {s' : Agent} (hh2 : s'.h2 = s.h2)
    (hreasm : s'.reassembler = (s.reassembler.push ev now).1.takeUnmark.1) : s'.Sticky where
  buffers k hk dir := by
    rw [hh2] at hk
    have hne : k ≠ ev.connKey := fun heq => by simp [heq,hkey] at hk
    rw [hreasm]
    exact (get_push_other s.reassembler ev now hne).trans (buffered_none (h.buffers k hk dir) now)
  owing := hh2 ▸ h.owing
  taken := by rw [hreasm]; rfl

theorem Sticky.feedHttp1 (h : s.Sticky) {ev : SockIoEvent} (hkey : s.h2.conns.get ev.connKey = none)
    (fromTls clientOnly : Bool) (now : Instant) :
    (s.feedHttp1 ev fromTls clientOnly now).1.Sticky ∧
      ∀ c ∈ (s.feedHttp1 ev fromTls clientOnly now).2.cleared, c.marked = false := by
  have hstale : ∀ k ∈ (s.reassembler.push ev now).1.unmark, s.h2.conns.get ⟨k.1,k.2⟩ = none := by
    rw [push_unmark]
    exact h.stale now
  have hwhole := push_key s.reassembler ev now
  rw [Agent.feedHttp1]
  cases hout : (s.reassembler.push ev now).2 with
  | none =>
    exact ⟨h.pushed hkey now (clearAll_h2 _ _) (clearAll_reassembler _ _),clearings_unmarked hstale⟩
  | some whole =>
    refine ⟨h.pushed hkey now (by simp) (by simp),fun c hc => ?_⟩
    rcases List.mem_append.mp hc with hc | hc
    · exact clearings_unmarked hstale c hc
    · refine clearings_unmarked (fun k hk => ?_) c hc
      rw [List.mem_singleton.mp hk]
      simp only [clearAll_h2]
      exact (hwhole whole hout ▸ hkey :)

theorem Sticky.tick (h : s.Sticky) (now : Instant) (isLive : UInt32 → Int32 → Bool) :
    (s.tick now isLive).1.Sticky ∧ ∀ c ∈ (s.tick now isLive).2.cleared, c.marked = false := by
  have howing := (h.owing.retain fun _ c => decide (durationSince now c.atTime ≤ timeout)).retain
    fun k _ => isLive k.tgid k.fd
  have hfewer : ∀ k, (((s.h2.evictStale now).evictClosed isLive).conns.get k).isSome = true →
      (s.h2.conns.get k).isSome = true := fun k hk =>
    marked_of_retain (marked_of_retain hk)
  simp only [Agent.tick]
  refine ⟨⟨fun k hk dir => ?_,?_,?_⟩,clearings_unmarked fun k hk => ?_⟩
  · rw [clearAll_h2] at hk
    rw [clearAll_reassembler]
    exact (s.reassembler.get_evictStale now _).trans
      (buffered_none (h.buffers k (hfewer k hk) dir) now)
  · rw [clearAll_h2]
    exact owing_taken _
  · rw [clearAll_reassembler]
    rfl
  · rcases List.mem_append.mp hk with hk | hk
    · have hnone := h.stale now k hk
      by_contra hmarked
      have hin := hfewer ⟨k.1,k.2⟩ (Option.isSome_iff_ne_none.mpr hmarked)
      simp [hnone] at hin
    · exact howing k hk

/-- An HTTP/2 connection is opened with nothing pending of an earlier user of its socket. -/
def opensSettled (s : Agent) : AgentStep → Prop
  | .io ev _ _ _ allowed => allowed = true → s.h2.isMarked ev.tgid ev.fd = false →
      looksLikeH2 ev.chunk = true → s.Settled ev.connKey
  | .tick _ _ => True

instance (s : Agent) : (e : AgentStep) → Decidable (s.opensSettled e)
  | .io .. => inferInstanceAs (Decidable (_ → _ → _ → _))
  | .tick .. => inferInstanceAs (Decidable True)

def clears (s : Agent) (e : AgentStep) : Agent × List Clearing := ((s.step e).1,(s.step e).2.cleared)

theorem Sticky.denied (h : s.Sticky) (ev : SockIoEvent) (fromTls clientOnly : Bool)
    (now : Instant) :
    (s.ingestHttpIo ev fromTls clientOnly now false).1.Sticky ∧
      ∀ c ∈ (s.ingestHttpIo ev fromTls clientOnly now false).2.cleared, c.marked = false := by
  simp only [ingestHttpIo,Bool.not_false,if_true]
  refine ⟨h.unmarking ?_ (fun k hk => ?_) (clearInflight_reassembler _ _ _),
    clearings_unmarked fun k hk => ?_⟩
  · rw [clearInflight_h2]
    exact h.owing.dropConn ev.tgid ev.fd
  · rw [clearInflight_h2] at hk
    exact marked_of_dropConn ev.connKey hk
  · rw [List.mem_singleton.mp hk]
    exact (get_dropConn s.h2 ev.connKey ev.connKey).trans (if_pos rfl)

theorem Sticky.routed (h : s.Sticky) {ev : SockIoEvent}
    (hopen : s.h2.isMarked ev.tgid ev.fd = false → looksLikeH2 ev.chunk = true →
      s.Settled ev.connKey)
    (hroute : ((s.demote ev).1.h2.isMarked ev.tgid ev.fd || looksLikeH2 ev.chunk) = true) :
    (s.demote ev).1.Settled ev.connKey := by
  cases hmarked : (s.demote ev).1.h2.isMarked ev.tgid ev.fd with
  | true => exact (h.demote ev).1.settled hmarked
  | false =>
    have hlooks : looksLikeH2 ev.chunk = true := by simpa [hmarked] using hroute
    have hkept : ¬ (s.h2.isMarked ev.tgid ev.fd && looksLikeHttp11 ev.chunk) = true := fun hgone => by
      simp only [Bool.and_eq_true] at hgone
      rw [looksLikeH2_of_http11 hgone.2] at hlooks
      simp at hlooks
    rw [Agent.demote,if_neg hkept] at hmarked ⊢
    exact hopen hmarked hlooks

theorem Sticky.step (h : s.Sticky) {e : AgentStep} (hopen : s.opensSettled e) :
    (s.clears e).1.Sticky ∧ ∀ c ∈ (s.clears e).2, c.marked = false := by
  cases e with
  | tick now isLive => exact h.tick now isLive
  | io ev fromTls clientOnly now allowed =>
    cases allowed with
    | false => exact h.denied ev fromTls clientOnly now
    | true =>
      obtain ⟨hdemoted,hcleared⟩ := h.demote ev
      have hnext : ∀ q, (if (s.demote ev).1.h2.isMarked ev.tgid ev.fd || looksLikeH2 ev.chunk then
          (s.demote ev).1.feedH2 ev clientOnly now
          else (s.demote ev).1.feedHttp1 ev fromTls clientOnly now) = q →
          q.1.Sticky ∧ ∀ c ∈ q.2.cleared, c.marked = false := by
        rintro q rfl
        split_ifs with hroute
        · exact hdemoted.feedH2 (h.routed (hopen rfl) hroute) clientOnly now
        · refine hdemoted.feedHttp1 ?_ fromTls clientOnly now
          simp only [Bool.or_eq_true,not_or,Bool.not_eq_true] at hroute
          exact Option.isSome_eq_false_iff.mp hroute.1 |> Option.isNone_iff_eq_none.mp
      obtain ⟨hsticky,hrest⟩ := hnext _ rfl
      refine ⟨hsticky,fun c hc => ?_⟩
      rcases List.mem_append.mp hc with hc | hc
      · exact hcleared c hc
      · exact hrest c hc

end Step

end Agent

/-- Over every run in which HTTP/2 connections are opened with nothing pending of an earlier user
of the socket, no socket is cleared while it is marked. -/
theorem marked_sockets_stay_inflight (steps : List AgentStep)
    (hopen : Machine.Along Agent.clears (fun s e => s.opensSettled e) .start steps) :
    ∀ c ∈ Machine.outputs Agent.clears .start steps, c.marked = false :=
  Machine.outputs_along Agent.clears (fun h hopen => h.step hopen) Agent.sticky_start hopen

/-- A request of one user of the descriptor, then an HTTP/2 connection of the next. -/
def stickySteps : List AgentStep :=
  [.io (someSocket.moved .write (octets "GET / HTTP/1.1\r\n\r\n") 1) false false 0 true,
    .io (someSocket.moved .write clientPreface 2) false false 1 true,
    .tick 2 fun _ _ => true,
    .io (someSocket.moved .write [0,0,0,7,0,0,0,0,0] 3) false false 3 true]

theorem marked_sockets_stay_inflight_reused_descriptor :
    (Machine.outputs Agent.clears .start stickySteps).length = 2 ∧
      ∀ c ∈ Machine.outputs Agent.clears .start stickySteps, c.marked = false :=
  ⟨by decide +kernel,marked_sockets_stay_inflight stickySteps
    ⟨by decide +kernel,by decide +kernel,by decide +kernel,by decide +kernel,trivial⟩⟩

/-- The header of an earlier user times out under a connection that is in use, and the clear that
is left from a denied event is made when the connection is opened again. -/
theorem marked_socket_cleared :
    (⟨42,3,true⟩ : Clearing) ∈ Machine.outputs Agent.clears .start
      [.io (someSocket.moved .write (octets "GET / HTTP/1.1\r\n") 1) false false 0 true,
        .io (someSocket.moved .write clientPreface 2) false false 1 true,
        .io (someSocket.moved .write [0,0,0,4,0,0,0,0,0] 3) false false timeout true,
        .tick (timeout + 1) fun _ _ => true] ∧
    (⟨42,3,true⟩ : Clearing) ∈ Machine.outputs Agent.clears .start
      [.io (someSocket.moved .write clientPreface 1) false false 0 true,
        .io (someSocket.moved .write [0,0,0,4,0,0,0,0,0] 2) false false 1 false,
        .io (someSocket.moved .write clientPreface 3) false false 2 true] := by
  constructor <;> decide +kernel

end ObsAgent
