import ObsAgent.Machine
import ObsAgent.Socket

/-! Sockets do not interfere: the exchanges of one are those of the run on its events alone. -/
namespace ObsAgent

open Kernel Http1 H2

/-- The steps of a socket: its own events, and every tick. -/
def AgentStep.concerns (k : ConnKey) : AgentStep → Bool
  | .io ev _ _ _ _ => ev.connKey = k
  | .tick _ _ => true

namespace Agent

def publish (s : Agent) (e : AgentStep) : Agent × List Published := ((s.step e).1,(s.step e).2.out)

/-- The keys that are marked HTTP/2 in some state of a run. -/
def everMarked (s : Agent) : List AgentStep → Finset ConnKey
  | [] => s.h2.conns.keys.toFinset
  | e :: steps => s.h2.conns.keys.toFinset ∪ everMarked (s.step e).1 steps

theorem keys_subset_everMarked (s : Agent) (steps : List AgentStep) :
    s.h2.conns.keys.toFinset ⊆ s.everMarked steps := by
  cases steps with
  | nil => exact subset_rfl
  | cons e steps => exact Finset.subset_union_left

theorem len_le_everMarked (s : Agent) (steps : List AgentStep) :
    s.h2.conns.len ≤ (s.everMarked steps).card := by
  rw [← FiniteMap.card_keys]
  exact Finset.card_le_card (s.keys_subset_everMarked steps)

/-- The two runs hold the same for the socket, and the second holds no other connection. -/
structure Alike (k : ConnKey) (steps : List AgentStep) (s t : Agent) : Prop where
  later : ∃ now, s.socket k now = t.socket k now ∧ ∀ e ∈ steps, now ≤ e.now
  ordered : steps.Pairwise fun a b => a.now ≤ b.now
  few : (s.everMarked steps).card < maxConns
  alone : ∀ k', k' ≠ k → t.h2.conns.get k' = none

section Step

variable {k : ConnKey} {e : AgentStep} {steps : List AgentStep} {s t : Agent}

theorem Alike.now (h : Alike k (e :: steps) s t) : s.socket k e.now = t.socket k e.now := by
  obtain ⟨now,hsame,hle⟩ := h.later
  have hnow := hle e (List.mem_cons_self ..)
  rw [s.socket_later k hnow,t.socket_later k hnow,hsame]

theorem Alike.next (h : Alike k (e :: steps) s t) {t' : Agent}
    (hsame : (s.step e).1.socket k e.now = t'.socket k e.now)
    (halone : ∀ k', k' ≠ k → t'.h2.conns.get k' = none) : Alike k steps (s.step e).1 t' where
  later := ⟨e.now,hsame,(List.pairwise_cons.mp h.ordered).1⟩
  ordered := (List.pairwise_cons.mp h.ordered).2
  few := (Finset.card_le_card Finset.subset_union_right).trans_lt h.few
  alone := halone

theorem Alike.room (h : Alike k steps s t) :
    s.h2.conns.len < maxConns ∧ t.h2.conns.len < maxConns := by
  refine ⟨(s.len_le_everMarked steps).trans_lt h.few,?_⟩
  have hkeys : t.h2.conns.keys.toFinset ⊆ {k} := fun k' hk' => by
    rw [List.mem_toFinset,FiniteMap.mem_keys_iff] at hk'
    by_contra hne
    rw [h.alone k' (by simpa using hne)] at hk'
    simp at hk'
  have hcard := Finset.card_le_card hkeys
  rw [FiniteMap.card_keys,Finset.card_singleton] at hcard
  exact hcard.trans_lt (by decide)

theorem Alike.skip (h : Alike k (e :: steps) s t) (hk : e.concerns k = false) :
    Alike k steps (s.publish e).1 t ∧
      (s.publish e).2.filter (fun x => decide (x.key = k)) = [] := by
  cases e with
  | tick now isLive => simp [AgentStep.concerns] at hk
  | io ev fromTls clientOnly now allowed =>
    have hne : k ≠ ev.connKey := by simpa [AgentStep.concerns,eq_comm] using hk
    constructor
    · exact h.next ((s.ingestHttpIo_other ev fromTls clientOnly now allowed hne).trans h.now) h.alone
    · rw [List.filter_eq_nil_iff]
      intro x hx
      have hkey := s.ingestHttpIo_key ev fromTls clientOnly now allowed x hx
      simp [hkey,Ne.symm hne]

theorem Alike.both (h : Alike k (e :: steps) s t) (hk : e.concerns k = true) :
    Alike k steps (s.publish e).1 (t.publish e).1 ∧
      (s.publish e).2.filter (fun x => decide (x.key = k)) = (t.publish e).2 := by
  have hnow := h.now
  cases e with
  | tick now isLive =>
    refine ⟨h.next ?_ fun k' hk' => ?_,rfl⟩
    · exact (s.tick_socket now k isLive).trans ((congrArg (Socket.tick · now _) hnow).trans
        (t.tick_socket now k isLive).symm)
    · have hconn : _ = (Socket.tick (t.socket k' now) now _).conn :=
        congrArg Socket.conn (t.tick_socket now k' isLive)
      refine hconn.trans ?_
      simp [Socket.tick,socket,h.alone k' hk']
  | io ev fromTls clientOnly now allowed =>
    obtain rfl : ev.connKey = k := by simpa [AgentStep.concerns] using hk
    obtain ⟨hs,ht⟩ := h.room
    have hself := (s.ingestHttpIo_self ev fromTls clientOnly now allowed hs).trans
      ((congrArg (Socket.ingest · ev fromTls clientOnly now allowed) hnow).trans
        (t.ingestHttpIo_self ev fromTls clientOnly now allowed ht).symm)
    obtain ⟨hsocket,hout⟩ := Prod.mk.inj hself
    refine ⟨h.next hsocket fun k' hk' => ?_,?_⟩
    · have hconn := congrArg Socket.conn
        (t.ingestHttpIo_other ev fromTls clientOnly now allowed hk')
      exact hconn.trans (h.alone k' hk')
    · refine (List.filter_eq_self.mpr fun x hx => ?_).trans hout
      simpa using s.ingestHttpIo_key ev fromTls clientOnly now allowed x hx

end Step

end Agent

open Agent in
theorem outputs_of_socket {steps : List AgentStep} (hmono : steps.Pairwise fun a b => a.now ≤ b.now)
    (hfew : (Agent.start.everMarked steps).card < maxConns) (k : ConnKey) :
    (Machine.outputs Agent.publish .start steps).filter (fun x => decide (x.key = k)) =
      Machine.outputs Agent.publish .start (steps.filter (·.concerns k)) :=
  Machine.outputs_filter publish (fun h => h.skip) (fun h => h.both)
    (R := Alike k) ⟨⟨0,rfl,fun _ _ => Nat.zero_le _⟩,hmono,hfew,fun _ _ => rfl⟩

/-- Over every run with non-decreasing times in which fewer than `maxConns` keys are ever marked
HTTP/2, the exchanges of a socket are those of the run that keeps its events and the ticks, and
so the same however the events of the other sockets lie between. -/
theorem sockets_do_not_interfere (steps : List AgentStep)
    (hmono : steps.Pairwise fun a b => a.now ≤ b.now)
    (hfew : (Agent.start.everMarked steps).card < maxConns) (k : ConnKey) :
    (Machine.outputs Agent.publish .start steps).filter (fun x => decide (x.key = k)) =
      Machine.outputs Agent.publish .start (steps.filter (·.concerns k)) ∧
    ∀ other : List AgentStep, other.Pairwise (fun a b => a.now ≤ b.now) →
      (Agent.start.everMarked other).card < maxConns →
      other.filter (·.concerns k) = steps.filter (·.concerns k) →
        (Machine.outputs Agent.publish .start other).filter (fun x => decide (x.key = k)) =
          (Machine.outputs Agent.publish .start steps).filter (fun x => decide (x.key = k)) := by
  have hsteps := outputs_of_socket hmono hfew k
  refine ⟨hsteps,fun other hmono' hfew' hsame => ?_⟩
  rw [outputs_of_socket hmono' hfew' k,hsteps,hsame]

/-- A request and its response, with a call of another process and a tick between them. -/
def twoSocketSteps : List AgentStep :=
  [.io (someSocket.moved .write (octets "GET / HTTP/1.1\r\n\r\n") 1) false false 0 true,
    .io {someSocket.moved .write (clientPreface) 2 with tgid := 7} false false 1 true,
    .tick 2 fun _ _ => true,
    .io (someSocket.moved .read (octets "HTTP/1.1 200 OK\r\n\r\n") 3) false false 3 true]

theorem sockets_do_not_interfere_two_sockets :
    ((Machine.outputs Agent.publish .start twoSocketSteps).filter
        (fun x => decide (x.key = ⟨42,3⟩))).length = 1 ∧
      (Machine.outputs Agent.publish .start twoSocketSteps).filter
          (fun x => decide (x.key = ⟨42,3⟩)) =
        Machine.outputs Agent.publish .start (twoSocketSteps.filter (·.concerns ⟨42,3⟩)) :=
  ⟨by decide +kernel,(sockets_do_not_interfere twoSocketSteps (by decide +kernel)
    (by decide +kernel) ⟨42,3⟩).1⟩

end ObsAgent
