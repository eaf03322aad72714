import ObsAgent.Demux

/-! `push_bytes` on arbitrary pieces of a frame sequence, and the independence of its
results from the cutting. -/
namespace ObsAgent
namespace H2

theorem setPipe_of_buf {conn : H2Conn} {dir : IoDir} {p : DirPipe} {l : List UInt8} {n : ℕ}
    (hp : p = {conn.pipe dir with leftover := l, skip := n}) :
    conn.setPipe dir p = setBuf conn dir l n := by
  rw [hp,setBuf]

theorem pushLoop_nil (conn : H2Conn) (dir : IoDir) (ts : ℕ) (acc : Emitted) :
    pushLoop conn dir [] ts acc =
      ((drainFrames conn dir ts).1,acc ++ (drainFrames conn dir ts).2) := by
  have htaken : takeSkip (conn.pipe dir) [] = (conn.pipe dir,[]) := by simp [takeSkip]
  rw [pushLoop]
  simp [htaken]

theorem pushLoop_skipped (conn : H2Conn) (dir : IoDir) {src : List UInt8} {n : ℕ} (ts : ℕ)
    (acc : Emitted) (hsrc : src ≠ []) (hle : src.length ≤ n) :
    pushLoop (setBuf conn dir [] n) dir src ts acc =
      (setBuf conn dir [] (n - src.length),acc) := by
  have hpos := List.length_pos_iff.mpr hsrc
  have htaken : takeSkip ((setBuf conn dir [] n).pipe dir) src =
      ({conn.pipe dir with leftover := [], skip := n - src.length},[]) := by
    rw [takeSkip,if_neg (by simp [hsrc]; omega)]
    simp [Nat.min_eq_left hle]
  rw [pushLoop]
  simp only [htaken,if_true]
  rw [setPipe_of_buf (l := []) (n := n - src.length) (by simp),setBuf_setBuf,drainFrames_nil]
  simp

/-- Octets behind a skip are pushed as if the skip had been taken before. -/
theorem pushLoop_skip (conn : H2Conn) (dir : IoDir) {src : List UInt8} {n : ℕ} (ts : ℕ)
    (acc : Emitted) (hn : 0 < n) (hlt : n < src.length) :
    pushLoop (setBuf conn dir [] n) dir src ts acc =
      pushLoop (setBuf conn dir [] 0) dir (src.drop n) ts acc := by
  have hsrc : src ≠ [] := List.length_pos_iff.mp (by omega)
  have hleft : takeSkip ((setBuf conn dir [] n).pipe dir) src =
      ({conn.pipe dir with leftover := [], skip := 0},src.drop n) := by
    rw [takeSkip,if_neg (by simp [hsrc]; omega)]
    simp [Nat.min_eq_right hlt.le]
  have hright : takeSkip ((setBuf conn dir [] 0).pipe dir) (src.drop n) =
      ({conn.pipe dir with leftover := [], skip := 0},src.drop n) := by
    simp [takeSkip]
  conv_lhs => rw [pushLoop]
  conv_rhs => rw [pushLoop]
  simp only [hleft,hright]
  simp [setBuf]

theorem pushLoop_fill (conn : H2Conn) (dir : IoDir) {src l : List UInt8} (ts : ℕ) (acc : Emitted)
    (hsrc : src ≠ []) (hroom : l.length < leftoverCap) (q : H2Conn × Emitted)
    (hq : drainFrames (setBuf conn dir (l ++ src.take (leftoverCap - l.length)) 0) dir ts = q) :
    pushLoop (setBuf conn dir l 0) dir src ts acc =
      if (acc ++ q.2).outcome.halted then (q.1,acc ++ q.2)
      else pushLoop q.1 dir (src.drop (leftoverCap - l.length)) ts (acc ++ q.2) := by
  have htaken : takeSkip ((setBuf conn dir l 0).pipe dir) src =
      ((setBuf conn dir l 0).pipe dir,src) := by
    simp [takeSkip]
  have htake : src.take (min src.length (leftoverCap - l.length)) =
      src.take (leftoverCap - l.length) := by
    rw [Nat.min_comm,← List.take_take,List.take_length]
  have hdrop : src.drop (min src.length (leftoverCap - l.length)) =
      src.drop (leftoverCap - l.length) := by
    rcases Nat.le_total src.length (leftoverCap - l.length) with h | h
    · rw [Nat.min_eq_left h,List.drop_length,List.drop_of_length_le h]
    · rw [Nat.min_eq_right h]
  have hfill : setLeftover (setBuf conn dir l 0) dir (l ++ src.take (leftoverCap - l.length)) =
      setBuf conn dir (l ++ src.take (leftoverCap - l.length)) 0 := by
    rw [setLeftover_eq,setBuf_setBuf,pipe_setBuf]
  have hl : ((setBuf conn dir l 0).pipe dir).leftover = l := by simp
  rw [pushLoop]
  simp only [htaken,H2Conn.setPipe_pipe,hl,htake,hdrop,hfill,hq]
  rw [if_neg hsrc,if_neg (by omega)]

/-- The loop on the next `m` octets of a string whose first `n` octets are stored. -/
theorem pushLoop_stored (conn : H2Conn) (dir : IoDir) (ts : ℕ) (acc : Emitted) {s : List UInt8}
    {n m k : ℕ} (hroom : n < leftoverCap) (hm : 0 < m) (hlen : n + m ≤ s.length)
    (hk : min (leftoverCap - n) m = k) (q : H2Conn × Emitted)
    (hq : drainFrames (setBuf conn dir (s.take (n + k)) 0) dir ts = q) :
    pushLoop (setBuf conn dir (s.take n) 0) dir ((s.drop n).take m) ts acc =
      if (acc ++ q.2).outcome.halted then (q.1,acc ++ q.2)
      else pushLoop q.1 dir ((s.drop (n + k)).take (m - k)) ts (acc ++ q.2) := by
  have hkept : (s.take n).length = n := by
    rw [List.length_take]
    omega
  have hsrc : ((s.drop n).take m).length = m := by
    rw [List.length_take,List.length_drop]
    omega
  have hbuf : s.take n ++ ((s.drop n).take m).take (leftoverCap - n) = s.take (n + k) := by
    rw [List.take_take,hk,List.take_add]
  have hdrop : ((s.drop n).take m).drop (leftoverCap - n) = (s.drop (n + k)).take (m - k) := by
    rcases Nat.le_total m (leftoverCap - n) with h | h
    · rw [List.drop_of_length_le (by omega),show m - k = 0 by omega,List.take_zero]
    · rw [List.drop_take,List.drop_drop,show leftoverCap - n = k by omega]
  have hne : (s.drop n).take m ≠ [] := List.length_pos_iff.mp (by omega)
  have hstep := pushLoop_fill conn dir ts acc hne (hkept.trans_lt hroom) q
  rw [hkept,hbuf,hdrop] at hstep
  exact hstep hq

theorem stored_lt_cap {f : Frame} {n : ℕ} (hn : n < f.bytes.length)
    (h : ¬ (headerLen ≤ n ∧ skipPayload f.hdr)) : n < leftoverCap := by
  have hwhole := f.whole
  by_cases hhead : headerLen ≤ n
  · have hs : ¬ skipPayload f.hdr = true := fun hs => h ⟨hhead,hs⟩
    simp only [skipPayload] at hs
    split_ifs at hs
    · simp only [decide_eq_true_eq] at hs
      omega
    · exact absurd rfl hs
  · simp only [headerLen,leftoverCap] at *
    omega

/-- What a connection must be like to read these frames. -/
structure Ready (conn : H2Conn) (dir : IoDir) (fs : List Frame) : Prop where
  clean : Clean conn dir
  noPreface : ∀ f ∈ fs, f.hdr.length ≠ prefaceLength

theorem Ready.next {conn : H2Conn} {dir : IoDir} {f : Frame} {fs : List Frame}
    (h : Ready conn dir (f :: fs)) (ts : ℕ) : Ready (frameStep conn dir f ts).1 dir fs where
  clean := h.clean.frameStep f ts
  noPreface := fun g hg => h.noPreface g (List.mem_cons_of_mem f hg)

/-- Pushing the next `m` octets, all at time `ts`, leads from the effect of the first `n`
octets to the effect of the first `n + m`. -/
def Advances (dir : IoDir) (ts m : ℕ) (fs : List Frame) : Prop :=
  ∀ (conn : H2Conn) (τ : ℕ → ℕ) (n : ℕ) (acc : Emitted), Ready conn dir fs →
    n + m ≤ (Frame.wire fs).length → (∀ i, n ≤ i → i < n + m → τ i = ts) →
    acc.outcome.halted = false → (deliver dir conn τ fs n).2.outcome.halted = false →
    ∃ d, Agrees (pushLoop (deliver dir conn τ fs n).1 dir (((Frame.wire fs).drop n).take m) ts acc)
        ((deliver dir conn τ fs (n + m)).1,acc ++ d) ∧
      (deliver dir conn τ fs n).2 ++ d = (deliver dir conn τ fs (n + m)).2

theorem agrees_rfl (q : H2Conn × Emitted) : Agrees q q := ⟨rfl,fun _ => rfl⟩

theorem advances_nil (dir : IoDir) (ts m : ℕ) : Advances dir ts m [] := by
  intro conn τ n acc hr hlen _ _ _
  simp only [Frame.wire_nil,List.length_nil] at hlen
  obtain ⟨rfl,rfl⟩ : n = 0 ∧ m = 0 := by omega
  have hdrain := drainFrames_nil conn dir 0 ts
  rw [hr.clean] at hdrain
  refine ⟨.empty,?_,rfl⟩
  simp only [Frame.wire_nil,List.drop_nil,List.take_nil,deliver,pushLoop_nil,hdrain]
  exact agrees_rfl _

section Cut

variable {dir : IoDir} {ts m n : ℕ} {f : Frame} {fs : List Frame} {conn : H2Conn} {τ : ℕ → ℕ}
  {acc : Emitted}

theorem drainFrames_cut (hr : Ready conn dir (f :: fs)) (hn : n < f.bytes.length) :
    drainFrames (cutFrame conn dir f n).1 dir ts = ((cutFrame conn dir f n).1,.empty) := by
  by_cases hs : headerLen ≤ n ∧ skipPayload f.hdr
  · rw [cutFrame,if_pos hs]
    exact drainFrames_nil _ _ _ _
  · have hdrain := drainFrames_deliver hr.clean hr.noPreface n ts
    rw [deliver_cut _ _ _ _ hn,cutFrame,if_neg hs,Frame.wire_cons,
      List.take_append_of_le_length hn.le] at hdrain
    rw [cutFrame,if_neg hs]
    exact hdrain.eq rfl

theorem advances_skip (ih : ∀ m' < m, Advances dir ts m' fs) (hr : Ready conn dir (f :: fs))
    (hn : n < f.bytes.length) (hlen : n + m ≤ (Frame.wire (f :: fs)).length)
    (hτ : ∀ i, n ≤ i → i < n + m → τ i = ts) (hacc : acc.outcome.halted = false)
    (hlive : (deliver dir conn τ (f :: fs) n).2.outcome.halted = false) (hm : 0 < m)
    (hs : headerLen ≤ n ∧ skipPayload f.hdr) :
    ∃ d, Agrees (pushLoop (deliver dir conn τ (f :: fs) n).1 dir
        (((Frame.wire (f :: fs)).drop n).take m) ts acc)
          ((deliver dir conn τ (f :: fs) (n + m)).1,acc ++ d) ∧
      (deliver dir conn τ (f :: fs) n).2 ++ d = (deliver dir conn τ (f :: fs) (n + m)).2 := by
  have hclean := hr.clean.frameStep f (τ (f.bytes.length - 1))
  have hsrc : (((Frame.wire (f :: fs)).drop n).take m).length = m := by
    rw [List.length_take,List.length_drop]
    omega
  have hne : ((Frame.wire (f :: fs)).drop n).take m ≠ [] := List.length_pos_iff.mp (by omega)
  rw [deliver_cut _ _ _ _ hn,cutFrame,if_pos hs,skipFrame_eq hs.2 (τ (f.bytes.length - 1))]
    at hlive ⊢
  rcases Nat.lt_trichotomy (n + m) f.bytes.length with hlt | heq | hgt
  · refine ⟨.empty,?_,?_⟩
    · rw [pushLoop_skipped _ _ _ _ hne (by omega),deliver_cut _ _ _ _ hlt,cutFrame,
        if_pos ⟨by omega,hs.2⟩,skipFrame_eq hs.2 (τ (f.bytes.length - 1)),hsrc,
        Nat.sub_sub,Emitted.append_empty]
      exact agrees_rfl _
    · rw [deliver_cut _ _ _ _ hlt,cutFrame,if_pos ⟨by omega,hs.2⟩,
        skipFrame_eq hs.2 (τ (f.bytes.length - 1)),Emitted.append_empty]
  · refine ⟨.empty,?_,?_⟩
    · rw [pushLoop_skipped _ _ _ _ hne (by omega),deliver_whole _ _ _ _ heq.ge hlive,hsrc,
        Nat.sub_sub,heq,Nat.sub_self,deliver_zero hclean,hclean]
      simpa using agrees_rfl _
    · rw [deliver_whole _ _ _ _ heq.ge hlive,heq,Nat.sub_self,deliver_zero hclean]
  · have hdrop : (((Frame.wire (f :: fs)).drop n).take m).drop (f.bytes.length - n) =
        ((Frame.wire fs).drop 0).take (m - (f.bytes.length - n)) := by
      rw [List.drop_take,List.drop_drop,Nat.add_sub_of_le hn.le,Frame.wire_cons,List.drop_left,
        List.drop_zero]
    have hrest : n + m - f.bytes.length = 0 + (m - (f.bytes.length - n)) := by omega
    rw [pushLoop_skip _ _ _ _ (by omega) (by omega),hdrop,hclean,
      deliver_whole _ _ _ _ hgt.le hlive,hrest]
    obtain ⟨d,hd,he⟩ := ih (m - (f.bytes.length - n)) (by omega) _
      (fun i => τ (f.bytes.length + i)) 0 acc (hr.next (τ (f.bytes.length - 1)))
      (by rw [Frame.wire_cons,List.length_append] at hlen; omega)
      (fun i _ hi => hτ _ (by omega) (by omega)) hacc (by rw [deliver_zero hclean]; rfl)
    rw [deliver_zero hclean] at hd he
    refine ⟨d,hd,?_⟩
    rw [← he,Emitted.empty_append]

/-- A piece of a stored frame, and whatever of the following frames fits in the buffer. -/
theorem advances_fill (ih : ∀ m' < m, Advances dir ts m' (f :: fs))
    (hr : Ready conn dir (f :: fs)) (hn : n < f.bytes.length)
    (hlen : n + m ≤ (Frame.wire (f :: fs)).length) (hτ : ∀ i, n ≤ i → i < n + m → τ i = ts)
    (hacc : acc.outcome.halted = false) (hm : 0 < m) (hs : ¬ (headerLen ≤ n ∧ skipPayload f.hdr)) :
    ∃ d, Agrees (pushLoop (deliver dir conn τ (f :: fs) n).1 dir
        (((Frame.wire (f :: fs)).drop n).take m) ts acc)
          ((deliver dir conn τ (f :: fs) (n + m)).1,acc ++ d) ∧
      (deliver dir conn τ (f :: fs) n).2 ++ d = (deliver dir conn τ (f :: fs) (n + m)).2 := by
  have hroom := stored_lt_cap hn hs
  generalize hk : min (leftoverCap - n) m = k
  have hkept : (Frame.wire (f :: fs)).take n = f.bytes.take n := by
    rw [Frame.wire_cons,List.take_append_of_le_length hn.le]
  have hq : Agrees (drainFrames (setBuf conn dir ((Frame.wire (f :: fs)).take (n + k)) 0) dir ts)
      (deliver dir conn τ (f :: fs) (n + k)) := by
    rw [deliver_late hn (fun i hi hi' => hτ i hi (by omega))]
    exact drainFrames_deliver hr.clean hr.noPreface _ _
  have hstep := pushLoop_stored conn dir ts acc hroom hm hlen hk _ rfl
  rw [hq.emitted] at hstep
  refine ⟨(deliver dir conn τ (f :: fs) (n + m)).2,?_,?_⟩
  · rw [deliver_cut (n := n) _ _ _ _ hn,cutFrame,if_neg hs,← hkept,hstep]
    cases hlive : (deliver dir conn τ (f :: fs) (n + k)).2.outcome.halted with
    | true =>
      rw [if_pos (by simp [hlive]),deliver_after_end (k := n + m) hlive (by omega)]
      exact ⟨rfl,fun h => by simp [hlive] at h⟩
    | false =>
      have hgo : (acc ++ (deliver dir conn τ (f :: fs) (n + k)).2).outcome.halted = false := by
        simp [hacc,hlive]
      rw [if_neg (Bool.eq_false_iff.mp hgo),hq.conn hlive]
      obtain ⟨d,hd,he⟩ := ih (m - k) (by omega) conn τ (n + k) _ hr (by omega)
        (fun i hi hi' => hτ i (by omega) (by omega)) hgo hlive
      rw [show n + k + (m - k) = n + m by omega] at hd he
      rwa [Emitted.append_assoc,he] at hd
  · rw [deliver_cut (n := n) _ _ _ _ hn,cutFrame,if_neg hs,Emitted.empty_append]

end Cut

/-- The invariant of `push_bytes`. -/
theorem advances (dir : IoDir) (ts m : ℕ) (fs : List Frame) : Advances dir ts m fs := by
  induction m using Nat.strong_induction_on generalizing fs with
  | _ m ihm =>
    induction fs with
    | nil => exact advances_nil dir ts m
    | cons f fs ihf =>
      intro conn τ n acc hr hlen hτ hacc hlive
      by_cases hfull : f.bytes.length ≤ n
      · cases hf : (frameStep conn dir f (τ (f.bytes.length - 1))).2.outcome.halted with
        | true =>
          rw [deliver_ended _ _ _ _ hfull hf,hf] at hlive
          simp at hlive
        | false =>
          have hsrc : ((Frame.wire (f :: fs)).drop n).take m =
              ((Frame.wire fs).drop (n - f.bytes.length)).take m := by
            rw [Frame.wire_cons,List.drop_append,List.drop_of_length_le hfull,List.nil_append]
          rw [Frame.wire_cons,List.length_append] at hlen
          rw [deliver_whole _ _ _ _ hfull hf] at hlive ⊢
          rw [hsrc,deliver_whole _ _ _ _ (by omega) hf,
            show n + m - f.bytes.length = n - f.bytes.length + m by omega]
          obtain ⟨d,hd,he⟩ := ihf _ (fun i => τ (f.bytes.length + i)) (n - f.bytes.length) acc
            (hr.next (τ (f.bytes.length - 1))) (by omega)
            (fun i hi hi' => hτ _ (by omega) (by omega)) hacc (by simpa [hf] using hlive)
          exact ⟨d,hd,by rw [← he,Emitted.append_assoc]⟩
      · rcases Nat.eq_zero_or_pos m with rfl | hm
        · refine ⟨.empty,?_,by simp⟩
          rw [List.take_zero,pushLoop_nil,Nat.add_zero,deliver_cut _ _ _ _ (by omega),
            drainFrames_cut hr (by omega)]
          exact agrees_rfl _
        · by_cases hs : headerLen ≤ n ∧ skipPayload f.hdr
          · exact advances_skip (fun m' hm' => ihm m' hm' fs) hr (by omega) hlen hτ hacc hlive hm hs
          · exact advances_fill (fun m' hm' => ihm m' hm' (f :: fs)) hr (by omega) hlen hτ hacc hm hs

/-- One direction's octets: a preface or none, then frames. -/
def octetStream (preface : Bool) (fs : List Frame) : List UInt8 :=
  (if preface then clientPreface else []) ++ Frame.wire fs

/-- The effect of the first `n` octets of a stream. -/
def receive (dir : IoDir) (conn : H2Conn) (τ : ℕ → ℕ) (preface : Bool) (fs : List Frame) (n : ℕ) :
    H2Conn × Emitted :=
  if preface then
    if n < clientPreface.length then (setBuf conn dir (clientPreface.take n) 0,.empty)
    else deliver dir conn (fun i => τ (clientPreface.length + i)) fs (n - clientPreface.length)
  else deliver dir conn τ fs n

theorem clientPreface_length : clientPreface.length = 24 := by decide +kernel

theorem drainFrames_preface (conn : H2Conn) (dir : IoDir) (ts : ℕ) {n : ℕ}
    (hn : n < clientPreface.length) :
    drainFrames (setBuf conn dir (clientPreface.take n) 0) dir ts =
      (setBuf conn dir (clientPreface.take n) 0,.empty) := by
  have hwait : ∀ n < 24, 3 ≤ n → waitingPreface (clientPreface.take n) = true := by
    decide +kernel
  have hfew : ∀ n < 3, startsWith (clientPreface.take n) (octets "PRI") = false := by
    decide +kernel
  rw [clientPreface_length] at hn
  by_cases h3 : 3 ≤ n
  · simp [drainFrames,hwait n hn h3]
  · obtain ⟨hw,hs⟩ := not_preface (hfew n (by omega))
    have hshort : (clientPreface.take n).length < headerLen := by
      rw [List.length_take,headerLen]
      omega
    simp only [drainFrames,pipe_setBuf,hw,hs]
    rw [if_neg (by simp),drainLoop_short _ _ _ _ hshort]
    simp [setLeftover_eq]

theorem drainFrames_stripped {dir : IoDir} {fs : List Frame} {conn : H2Conn}
    (hr : Ready conn dir fs) (k ts : ℕ) :
    Agrees (drainFrames (setBuf conn dir (clientPreface ++ (Frame.wire fs).take k) 0) dir ts)
      (deliver dir conn (fun _ => ts) fs k) := by
  have hw : waitingPreface (clientPreface ++ (Frame.wire fs).take k) = false := by
    simp [waitingPreface]
  have hs : stripPreface (clientPreface ++ (Frame.wire fs).take k) = (Frame.wire fs).take k := by
    rw [stripPreface,if_pos (startsWith_self _ _),List.drop_left]
  exact drainFrames_agrees ts hr.clean hw hs

section Receive

variable {dir : IoDir} {ts n m : ℕ} {fs : List Frame} {conn : H2Conn} {τ : ℕ → ℕ}

theorem receive_whole (h : clientPreface.length ≤ n) : receive dir conn τ true fs n =
    deliver dir conn (fun i => τ (clientPreface.length + i)) fs (n - clientPreface.length) := by
  simp [receive,h]

theorem receive_cut (h : n < clientPreface.length) :
    receive dir conn τ true fs n = (setBuf conn dir (clientPreface.take n) 0,.empty) := by
  simp [receive,h]

theorem pushLoop_stripped {k : ℕ} (hr : Ready conn dir fs) (hk24 : clientPreface.length ≤ n + k)
    (hkm : k ≤ m) (hlen : n + m ≤ clientPreface.length + (Frame.wire fs).length)
    (hτ : ∀ i, n ≤ i → i < n + m → τ i = ts) (hn : n < clientPreface.length) :
    let q := drainFrames (setBuf conn dir ((clientPreface ++ Frame.wire fs).take (n + k)) 0) dir ts
    Agrees (if (Emitted.empty ++ q.2).outcome.halted then (q.1,Emitted.empty ++ q.2)
      else pushLoop q.1 dir (((clientPreface ++ Frame.wire fs).drop (n + k)).take (m - k)) ts
        (Emitted.empty ++ q.2)) (receive dir conn τ true fs (n + m)) := by
  have hq := drainFrames_stripped hr (n + k - clientPreface.length) ts
  have htimes : ∀ i, i < n + m - clientPreface.length → τ (clientPreface.length + i) = ts :=
    fun i hi => hτ _ (by omega) (by omega)
  simp only [List.take_append,List.take_of_length_le hk24,List.drop_append,
    List.drop_of_length_le hk24,List.nil_append,hq.emitted,Emitted.empty_append]
  rw [receive_whole (by omega),deliver_congr htimes]
  cases hlive : (deliver dir conn (fun _ => ts) fs
      (n + k - clientPreface.length)).2.outcome.halted with
  | true =>
    rw [if_pos rfl]
    refine ⟨(deliver_after_end hlive (by omega)).symm,fun h => ?_⟩
    rw [deliver_after_end hlive (by omega),hlive] at h
    simp at h
  | false =>
    rw [if_neg (by simp),hq.conn hlive]
    obtain ⟨d,hd,he⟩ := advances dir ts (m - k) fs conn (fun _ => ts)
      (n + k - clientPreface.length) _ hr (by omega) (fun _ _ _ => rfl) hlive hlive
    rwa [he,show n + k - clientPreface.length + (m - k) = n + m - clientPreface.length by
      omega] at hd

theorem pushBytes_preface (hr : Ready conn dir fs) (hn : n < clientPreface.length)
    (hlen : n + m ≤ (octetStream true fs).length) (hτ : ∀ i, n ≤ i → i < n + m → τ i = ts) :
    Agrees (pushBytes (setBuf conn dir (clientPreface.take n) 0) dir
      (((octetStream true fs).drop n).take m) ts) (receive dir conn τ true fs (n + m)) := by
  have h24 := clientPreface_length
  have hcap : leftoverCap = 8192 := rfl
  simp only [octetStream,if_true] at hlen ⊢
  have hkept : (clientPreface ++ Frame.wire fs).take n = clientPreface.take n :=
    List.take_append_of_le_length hn.le
  rw [pushBytes,← hkept]
  rcases Nat.eq_zero_or_pos m with rfl | hm
  · rw [List.take_zero,pushLoop_nil,hkept,drainFrames_preface _ _ _ hn,receive_cut (by omega)]
    exact agrees_rfl _
  generalize hk : min (leftoverCap - n) m = k
  have hstep := pushLoop_stored conn dir ts .empty (by omega) hm hlen hk
  by_cases hfew : n + m < clientPreface.length
  · obtain rfl : k = m := by omega
    rw [List.take_append_of_le_length hfew.le] at hstep
    rw [hstep _ (drainFrames_preface conn dir ts hfew),if_neg (by simp),Nat.sub_self,List.take_zero,
      pushLoop_nil,drainFrames_preface _ _ _ hfew,receive_cut hfew]
    exact agrees_rfl _
  · rw [hstep _ rfl]
    exact pushLoop_stripped hr (by omega) (by omega) (by simpa using hlen) hτ hn

theorem pushBytes_receive (preface : Bool) (hr : Ready conn dir fs) (τ : ℕ → ℕ) (n m ts : ℕ)
    (hlen : n + m ≤ (octetStream preface fs).length) (hτ : ∀ i, n ≤ i → i < n + m → τ i = ts)
    (hlive : (receive dir conn τ preface fs n).2.outcome.halted = false) :
    ∃ d, Agrees (pushBytes (receive dir conn τ preface fs n).1 dir
        (((octetStream preface fs).drop n).take m) ts)
          ((receive dir conn τ preface fs (n + m)).1,d) ∧
      (receive dir conn τ preface fs n).2 ++ d = (receive dir conn τ preface fs (n + m)).2 := by
  cases preface with
  | false =>
    obtain ⟨d,hd,he⟩ := advances dir ts m fs conn τ n .empty hr (by simpa [octetStream] using hlen)
      hτ rfl (by simpa [receive] using hlive)
    exact ⟨d,by simpa [pushBytes,octetStream,receive] using hd,by simpa [receive] using he⟩
  | true =>
    by_cases hn : n < clientPreface.length
    · refine ⟨(receive dir conn τ true fs (n + m)).2,?_,?_⟩
      · rw [receive_cut hn]
        exact pushBytes_preface hr hn hlen hτ
      · rw [receive_cut hn,Emitted.empty_append]
    · simp only [octetStream,if_true,List.length_append] at hlen ⊢
      rw [receive_whole (by omega)] at hlive ⊢
      rw [receive_whole (by omega),List.drop_append,List.drop_of_length_le (by omega),
        List.nil_append,pushBytes,
        show n + m - clientPreface.length = n - clientPreface.length + m by omega]
      obtain ⟨d,hd,he⟩ := advances dir ts m fs conn (fun i => τ (clientPreface.length + i))
        (n - clientPreface.length) .empty hr (by omega)
        (fun i hi hi' => hτ _ (by omega) (by omega)) rfl hlive
      exact ⟨d,by simpa using hd,he⟩

theorem receive_zero (hclean : Clean conn dir) (τ : ℕ → ℕ) (preface : Bool) (fs : List Frame) :
    receive dir conn τ preface fs 0 = (conn,.empty) := by
  cases preface with
  | false => exact deliver_zero hclean τ fs
  | true => rw [receive_cut (by rw [clientPreface_length]; omega),List.take_zero,hclean]

theorem receive_live (ho : Orderly (conn.pipe dir).headerBlock fs) (τ : ℕ → ℕ) (preface : Bool)
    (n : ℕ) : (receive dir conn τ preface fs n).2.outcome.halted = false := by
  simp only [receive]
  split_ifs
  · rfl
  · exact deliver_live ho _ _
  · exact deliver_live ho _ _

theorem receive_after_end {preface : Bool} {k : ℕ}
    (hend : (receive dir conn τ preface fs n).2.outcome.halted = true) (hk : n ≤ k) :
    (receive dir conn τ preface fs k).2 = (receive dir conn τ preface fs n).2 := by
  cases preface with
  | false => exact deliver_after_end hend hk
  | true =>
    by_cases hn : n < clientPreface.length
    · rw [receive_cut hn] at hend
      simp at hend
    · rw [receive_whole (by omega)] at hend
      rw [receive_whole (by omega),receive_whole (by omega)]
      exact deliver_after_end hend (by omega)

end Receive

/-- Successive calls of `push_bytes`, each with its octets and its time. -/
def pushAll (conn : H2Conn) (dir : IoDir) : List (List UInt8 × ℕ) → H2Conn × Emitted
  | [] => (conn,.empty)
  | (src,ts) :: cs =>
    let q := pushBytes conn dir src ts
    let r := pushAll q.1 dir cs
    (r.1,q.2 ++ r.2)

/-- Successive calls up to the one that ends the connection, behind which `feed` drops it. -/
def pushWhileOpen (conn : H2Conn) (dir : IoDir) : List (List UInt8 × ℕ) → H2Conn × Emitted
  | [] => (conn,.empty)
  | (src,ts) :: cs =>
    let q := pushBytes conn dir src ts
    if q.2.outcome.halted then q
    else
      let r := pushWhileOpen q.1 dir cs
      (r.1,q.2 ++ r.2)

theorem pushAll_of_open {dir : IoDir} {cs : List (List UInt8 × ℕ)} {conn : H2Conn}
    (hlive : (pushWhileOpen conn dir cs).2.outcome.halted = false) :
    pushAll conn dir cs = pushWhileOpen conn dir cs := by
  induction cs generalizing conn with
  | nil => rfl
  | cons c cs ih =>
    obtain ⟨src,ts⟩ := c
    simp only [pushAll,pushWhileOpen] at hlive ⊢
    split_ifs at hlive ⊢ with hend
    · rw [hend] at hlive
      simp at hlive
    · simp only [Emitted.outcome_append,halted_mergeOutcome,Bool.or_eq_false_iff] at hlive
      rw [ih hlive.2]

def joined (cs : List (List UInt8 × ℕ)) : List UInt8 := cs.flatMap (·.1)

/-- The time of the call that brings octet `i`. -/
def stamp : List (List UInt8 × ℕ) → ℕ → ℕ
  | [], _ => 0
  | (src,ts) :: cs, i => if i < src.length then ts else stamp cs (i - src.length)

theorem pushWhileOpen_receive {dir : IoDir} {fs : List Frame} {conn : H2Conn} {τ : ℕ → ℕ}
    (preface : Bool) (hr : Ready conn dir fs) (cs : List (List UInt8 × ℕ)) {n : ℕ}
    (hn : n ≤ (octetStream preface fs).length)
    (hs : joined cs <+: (octetStream preface fs).drop n)
    (hτ : ∀ i < (joined cs).length, τ (n + i) = stamp cs i)
    (hlive : (receive dir conn τ preface fs n).2.outcome.halted = false) :
    ∃ d, Agrees (pushWhileOpen (receive dir conn τ preface fs n).1 dir cs)
        ((receive dir conn τ preface fs (n + (joined cs).length)).1,d) ∧
      (receive dir conn τ preface fs n).2 ++ d =
        (receive dir conn τ preface fs (n + (joined cs).length)).2 := by
  induction cs generalizing n with
  | nil => exact ⟨.empty,agrees_rfl _,by simp [joined]⟩
  | cons c cs ih =>
    obtain ⟨src,ts⟩ := c
    have hjoin : joined ((src,ts) :: cs) = src ++ joined cs := rfl
    rw [hjoin] at hs hτ ⊢
    have hlen := hs.length_le
    rw [List.length_drop,List.length_append] at hlen
    rw [List.length_append] at hτ
    have hsrc : ((octetStream preface fs).drop n).take src.length = src :=
      (List.prefix_iff_eq_take.mp ((List.prefix_append _ _).trans hs)).symm
    have hrest : joined cs <+: (octetStream preface fs).drop (n + src.length) := by
      obtain ⟨tail,htail⟩ := hs
      rw [← List.drop_drop,← htail,List.append_assoc,List.drop_left]
      exact List.prefix_append _ _
    obtain ⟨d,hd,he⟩ := pushBytes_receive preface hr τ n src.length ts (by omega)
      (fun i hi hi' => by
        have h := hτ (i - n) (by omega)
        rwa [stamp,if_pos (by omega),Nat.add_sub_of_le hi] at h) hlive
    rw [hsrc] at hd
    have hstop : (receive dir conn τ preface fs (n + src.length)).2.outcome.halted =
        d.outcome.halted := by
      rw [← he]
      simp [hlive]
    rw [pushWhileOpen,hd.emitted,List.length_append,← Nat.add_assoc]
    cases hend : d.outcome.halted with
    | true =>
      refine ⟨d,?_,?_⟩
      · rw [if_pos rfl]
        exact ⟨hd.emitted,fun h => by simp [hend] at h⟩
      · rw [he]
        exact (receive_after_end (hstop.trans hend) (by omega)).symm
    | false =>
      obtain ⟨d',hd',he'⟩ := ih (n := n + src.length) (by omega) hrest (fun i hi => by
        have h := hτ (src.length + i) (by omega)
        rwa [stamp,if_neg (by omega),Nat.add_sub_cancel_left,← Nat.add_assoc] at h)
        (hstop.trans hend)
      refine ⟨d ++ d',?_,?_⟩
      · rw [if_neg (by simp),hd.conn hend]
        exact ⟨congrArg (d ++ ·) hd'.emitted,fun h => hd'.conn (by simpa [hend] using h)⟩
      · rw [← Emitted.append_assoc,he,he']

theorem pushWhileOpen_start {dir : IoDir} {fs : List Frame} {conn : H2Conn} (preface : Bool)
    (hr : Ready conn dir fs) {cs : List (List UInt8 × ℕ)}
    (hs : joined cs <+: octetStream preface fs) :
    Agrees (pushWhileOpen conn dir cs) (receive dir conn (stamp cs) preface fs (joined cs).length) := by
  have hstart := receive_zero hr.clean (stamp cs) preface fs
  obtain ⟨d,hd,he⟩ := pushWhileOpen_receive preface hr cs (Nat.zero_le _)
    (by rw [List.drop_zero]; exact hs) (fun i _ => by rw [Nat.zero_add]) (by rw [hstart]; rfl)
  rw [hstart,Nat.zero_add] at hd
  rw [hstart,Nat.zero_add,Emitted.empty_append] at he
  rwa [he] at hd

def PendingStream.unstamped (p : PendingStream) : PendingStream := {p with tStartNs := 0}

def H2Exchange.unstamped (x : H2Exchange) : H2Exchange := {x with tStartNs := 0, tEndNs := 0}

def StreamEvent.unstamped : StreamEvent → StreamEvent
  | .block sid dir p _ refused => .block sid dir p 0 refused
  | .reset sid => .reset sid

def Emitted.unstamped (e : Emitted) : Emitted :=
  ⟨e.out.map H2Exchange.unstamped,e.outcome,e.events.map StreamEvent.unstamped⟩

@[simp] theorem Emitted.unstamped_append (a b : Emitted) :
    (a ++ b).unstamped = a.unstamped ++ b.unstamped := by
  simp [Emitted.unstamped,Emitted.append_def]

/-- The same pending requests, up to the time they were made. -/
def SameStreams (a b : Streams) : Prop :=
  ∀ sid, (a.get sid).map PendingStream.unstamped = (b.get sid).map PendingStream.unstamped

structure SameButTime (c d : H2Conn) : Prop where
  pipe : ∀ dir, c.pipe dir = d.pipe dir
  streams : SameStreams c.streams d.streams

theorem SameStreams.isSome {a b : Streams} (h : SameStreams a b) (sid : ℕ) :
    (a.get sid).isSome = (b.get sid).isSome := by
  simpa using congrArg Option.isSome (h sid)

theorem SameStreams.remove {a b : Streams} (h : SameStreams a b) (sid : ℕ) :
    SameStreams (a.remove sid) (b.remove sid) := by
  intro s
  rw [FiniteMap.get_remove,FiniteMap.get_remove]
  split_ifs
  · rfl
  · exact h s

theorem SameStreams.put {a b : Streams} (h : SameStreams a b) (sid : ℕ) {p q : PendingStream}
    (hpq : p.unstamped = q.unstamped) : SameStreams (a.put sid p) (b.put sid q) := by
  intro s
  rw [FiniteMap.get_put,FiniteMap.get_put]
  split_ifs
  · simp [hpq]
  · exact h s

theorem pairBlock_unstamped {a b : Streams} (h : SameStreams a b) (dir : IoDir) (sid : ℕ)
    (p : Hpack.Pseudo) (ts ts' : ℕ) :
    SameStreams (pairBlock a dir sid p ts).1 (pairBlock b dir sid p ts').1 ∧
      (pairBlock a dir sid p ts).2.unstamped = (pairBlock b dir sid p ts').2.unstamped := by
  have hlen := FiniteMap.len_eq_of_keys h.isSome
  have hcont : a.contains sid = b.contains sid := h.isSome sid
  have hget := h sid
  simp only [pairBlock]
  cases p.status with
  | some status =>
    cases ha : a.get sid with
    | none =>
      rw [ha] at hget
      simp only [Option.map_none,Option.none_eq_map_iff] at hget
      simp only [hget]
      exact ⟨h.remove sid,rfl⟩
    | some pa =>
      rw [ha,Option.map_some] at hget
      obtain ⟨pb,hb,hpb⟩ := Option.map_eq_some_iff.mp hget.symm
      simp only [PendingStream.unstamped,PendingStream.mk.injEq] at hpb
      obtain ⟨hm,hp,_,hd⟩ := hpb
      simp only [hb,hm,hp,hd]
      split_ifs
      · exact ⟨h.remove sid,rfl⟩
      · exact ⟨h.remove sid,rfl⟩
  | none =>
    cases p.method with
    | none => exact ⟨h,rfl⟩
    | some method =>
      cases p.path.filter (fun p => decide (p ≠ "")) with
      | none => exact ⟨h,rfl⟩
      | some path =>
        simp only [hlen,hcont]
        split_ifs
        · exact ⟨h,rfl⟩
        · exact ⟨h.put sid rfl,rfl⟩

theorem SameButTime.setPipe {c d : H2Conn} (h : SameButTime c d) (dir : IoDir) (p : DirPipe) :
    SameButTime (c.setPipe dir p) (d.setPipe dir p) := by
  refine ⟨fun dir' => ?_,by simpa using h.streams⟩
  have := h.pipe dir'
  cases dir <;> cases dir' <;> first | rfl | exact this

theorem onHeaderBlock_unstamped {c d : H2Conn} (h : SameButTime c d) (dir : IoDir) (sid : ℕ)
    (frag : List UInt8) (ts ts' : ℕ) :
    SameButTime (onHeaderBlock c dir sid frag ts).1 (onHeaderBlock d dir sid frag ts').1 ∧
      (onHeaderBlock c dir sid frag ts).2.unstamped =
        (onHeaderBlock d dir sid frag ts').2.unstamped := by
  simp only [onHeaderBlock,← h.pipe dir]
  split_ifs
  · exact ⟨h,rfl⟩
  · cases hdec : (c.pipe dir).decoder.decodeBlock frag with
    | mk decoder decoded =>
      cases decoded with
      | none => exact ⟨h.setPipe dir _,rfl⟩
      | some p =>
        obtain ⟨hs,he⟩ := pairBlock_unstamped h.streams dir sid p ts ts'
        refine ⟨⟨fun dir' => ?_,hs⟩,he⟩
        have := h.pipe dir'
        cases dir <;> cases dir' <;> first | rfl | exact this

theorem frameStep_unstamped {c d : H2Conn} (h : SameButTime c d) (dir : IoDir) (f : Frame)
    (ts ts' : ℕ) : SameButTime (frameStep c dir f ts).1 (frameStep d dir f ts').1 ∧
      (frameStep c dir f ts).2.unstamped = (frameStep d dir f ts').2.unstamped := by
  rw [frameStep_eq,frameStep_eq,setBlock,setBlock,← h.pipe dir]
  generalize interpret (c.pipe dir).headerBlock f = q
  have hset := h.setPipe dir {c.pipe dir with headerBlock := q.1}
  cases hq : q.2 with
  | decode sid frag => exact onHeaderBlock_unstamped hset dir sid frag ts ts'
  | reset sid =>
    refine ⟨⟨fun dir' => ?_,hset.streams.remove sid⟩,rfl⟩
    have := hset.pipe dir'
    cases dir' <;> exact this
  | _ => exact ⟨hset,rfl⟩

theorem halted_of_unstamped {a b : Emitted} (h : a.unstamped = b.unstamped) :
    a.outcome.halted = b.outcome.halted := by
  have houtcome : a.unstamped.outcome = b.unstamped.outcome := congrArg Emitted.outcome h
  exact congrArg FrameOutcome.halted houtcome

theorem deliver_unstamped {c d : H2Conn} (h : SameButTime c d) (dir : IoDir) (τ τ' : ℕ → ℕ)
    (fs : List Frame) (n : ℕ) :
    SameButTime (deliver dir c τ fs n).1 (deliver dir d τ' fs n).1 ∧
      (deliver dir c τ fs n).2.unstamped = (deliver dir d τ' fs n).2.unstamped := by
  induction fs generalizing c d τ τ' n with
  | nil => exact ⟨h,rfl⟩
  | cons f fs ih =>
    by_cases hfull : f.bytes.length ≤ n
    · obtain ⟨h₁,he₁⟩ := frameStep_unstamped h dir f (τ (f.bytes.length - 1))
        (τ' (f.bytes.length - 1))
      have hend := halted_of_unstamped he₁
      cases hlive : (frameStep d dir f (τ' (f.bytes.length - 1))).2.outcome.halted with
      | true =>
        rw [deliver_ended _ _ _ _ hfull (hend.trans hlive),deliver_ended _ _ _ _ hfull hlive]
        exact ⟨h₁,he₁⟩
      | false =>
        rw [deliver_whole _ _ _ _ hfull (hend.trans hlive),deliver_whole _ _ _ _ hfull hlive]
        obtain ⟨h₂,he₂⟩ := ih h₁ (fun i => τ (f.bytes.length + i))
          (fun i => τ' (f.bytes.length + i)) (n - f.bytes.length)
        exact ⟨h₂,by rw [Emitted.unstamped_append,Emitted.unstamped_append,he₁,he₂]⟩
    · rw [deliver_cut _ _ _ _ (by omega),deliver_cut _ _ _ _ (by omega),cutFrame,cutFrame]
      split_ifs with hs
      · rw [skipFrame_eq hs.2 0,skipFrame_eq hs.2 0]
        obtain ⟨h₁,he₁⟩ := frameStep_unstamped h dir f 0 0
        refine ⟨?_,he₁⟩
        simp only [setBuf,h₁.pipe dir]
        exact h₁.setPipe dir _
      · refine ⟨?_,rfl⟩
        simp only [setBuf,h.pipe dir]
        exact h.setPipe dir _

theorem receive_unstamped (dir : IoDir) (conn : H2Conn) (τ τ' : ℕ → ℕ) (preface : Bool)
    (fs : List Frame) (n : ℕ) :
    SameButTime (receive dir conn τ preface fs n).1 (receive dir conn τ' preface fs n).1 ∧
      (receive dir conn τ preface fs n).2.unstamped =
        (receive dir conn τ' preface fs n).2.unstamped := by
  have hrefl : SameButTime conn conn := ⟨fun _ => rfl,fun _ => rfl⟩
  simp only [receive]
  split_ifs
  · exact ⟨⟨fun _ => rfl,fun _ => rfl⟩,rfl⟩
  · exact deliver_unstamped hrefl dir _ _ fs _
  · exact deliver_unstamped hrefl dir _ _ fs _

/-- However a stream is cut, the connection, the counters, the header blocks and the
exchanges are those of one call; a frame acts at the time of its last octet. -/
theorem chunking_independent (preface : Bool) (fs : List Frame) (ho : Orderly none fs)
    (hpri : ∀ f ∈ fs, f.hdr.length ≠ prefaceLength) (cs : List (List UInt8 × ℕ))
    (hs : joined cs <+: octetStream preface fs) (dir : IoDir) (now : Instant) (ts : ℕ) :
    SameButTime (pushAll (.new now) dir cs).1 (pushBytes (.new now) dir (joined cs) ts).1 ∧
      (pushAll (.new now) dir cs).2.unstamped =
        (pushBytes (.new now) dir (joined cs) ts).2.unstamped ∧
      pushBytes (.new now) dir (joined cs) ts =
        receive dir (.new now) (fun _ => ts) preface fs (joined cs).length ∧
      pushAll (.new now) dir cs =
        receive dir (.new now) (stamp cs) preface fs (joined cs).length := by
  have hr : Ready (.new now) dir fs := ⟨clean_new now dir,hpri⟩
  have hblock : Orderly ((H2Conn.new now).pipe dir).headerBlock fs := by
    simpa [DirPipe.new] using ho
  have hlive := fun τ => receive_live hblock τ preface (joined cs).length
  have hone : pushBytes (.new now) dir (joined cs) ts =
      receive dir (.new now) (fun _ => ts) preface fs (joined cs).length := by
    have hstart := receive_zero hr.clean (fun _ => ts) preface fs
    obtain ⟨d,hd,he⟩ := pushBytes_receive preface hr (fun _ => ts) 0 (joined cs).length ts
      (by rw [Nat.zero_add]; exact hs.length_le) (fun _ _ _ => rfl) (by rw [hstart]; rfl)
    rw [hstart,List.drop_zero,← List.prefix_iff_eq_take.mp hs,Nat.zero_add] at hd
    rw [hstart,Nat.zero_add,Emitted.empty_append] at he
    rw [he] at hd
    exact hd.eq (hlive _)
  have hall : pushAll (.new now) dir cs =
      receive dir (.new now) (stamp cs) preface fs (joined cs).length := by
    have hopen := (pushWhileOpen_start preface hr hs).eq (hlive _)
    rw [pushAll_of_open (by rw [hopen]; exact hlive _),hopen]
  obtain ⟨hconn,hem⟩ := receive_unstamped dir (.new now) (stamp cs) (fun _ => ts) preface fs
    (joined cs).length
  rw [← hone,← hall] at hconn hem
  exact ⟨hconn,hem,hone,hall⟩

/-- The preface and a HEADERS frame, cut inside the preface and inside the frame. -/
theorem chunking_independent_three_calls :
    SameButTime
      (pushAll (.new 0) .write [(clientPreface.take 5,7),
        (clientPreface.drop 5 ++ [0,0,1,1],8),([4,0,0,0,1,0x88],9)]).1
      (pushBytes (.new 0) .write (clientPreface ++ [0,0,1,1,4,0,0,0,1,0x88]) 3).1 ∧
    (pushAll (.new 0) .write [(clientPreface.take 5,7),
        (clientPreface.drop 5 ++ [0,0,1,1],8),([4,0,0,0,1,0x88],9)]).2.events =
      [.block 1 .write ⟨none,none,some 200,none⟩ 9 false] :=
  have hframe := chunking_independent true
    [⟨[0,0,1,1,4,0,0,0,1,0x88],⟨1,1,4,1⟩,by decide,by decide⟩]
    ⟨by decide,fun _ _ h => absurd h (by simp),trivial⟩ (by decide)
    [(clientPreface.take 5,7),(clientPreface.drop 5 ++ [0,0,1,1],8),([4,0,0,0,1,0x88],9)]
    (by decide +kernel) .write 0 3
  ⟨hframe.1,by decide +kernel⟩

end H2
end ObsAgent
