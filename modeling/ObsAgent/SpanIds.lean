import ObsAgent.Trace
import ObsAgent.WordMix

/-! The identifiers of spans: the mixer loses no bit, so spans of one socket or of one instant have
different identifiers. -/
namespace ObsAgent

open WordMix

theorem splitmix64_injective : Function.Injective splitmix64 := by
  have hadd : Function.Injective fun z : BitVec 64 => z + 0x9E3779B97F4A7C15#64 :=
    add_left_injective _
  have hmul : Function.Injective fun z : BitVec 64 => z * 0xBF58476D1CE4E5B9#64 :=
    mul_odd_injective (by decide)
  have hmul' : Function.Injective fun z : BitVec 64 => z * 0x94D049BB133111EB#64 :=
    mul_odd_injective (by decide)
  have hall := (xorShift_injective (w := 64) (k := 31) (by omega)).comp <|
    hmul'.comp <| (xorShift_injective (w := 64) (k := 27) (by omega)).comp <|
    hmul.comp <| (xorShift_injective (w := 64) (k := 30) (by omega)).comp hadd
  intro x y h
  apply UInt64.eq_of_toBitVec_eq
  exact hall (congrArg UInt64.toBitVec h)

theorem packed_inj {hi hi' lo lo' : UInt32}
    (h : hi.toUInt64 <<< 32 ^^^ lo.toUInt64 = hi'.toUInt64 <<< 32 ^^^ lo'.toUInt64) :
    hi = hi' ∧ lo = lo' := by
  have hpack : ∀ hi lo : UInt32, (hi.toUInt64 <<< 32 ^^^ lo.toUInt64).toBitVec =
      pack 64 hi.toBitVec lo.toBitVec := fun _ _ => rfl
  have heq := congrArg UInt64.toBitVec h
  rw [hpack,hpack,pack_inj (by omega)] at heq
  exact ⟨UInt32.toBitVec_inj.mp heq.1,UInt32.toBitVec_inj.mp heq.2⟩

theorem toBeBytes_injective : Function.Injective toBeBytes := by
  intro x y h
  have hnat := congrArg (List.map UInt8.toNat) h
  simp only [toBeBytes,List.map_cons,List.map_nil,List.cons.injEq,and_true,UInt64.toNat_toUInt8,
    UInt64.toNat_shiftRight,UInt64.reduceToNat,Nat.reduceMod,Nat.shiftRight_eq_div_pow,
    Nat.reducePow] at hnat
  have hx := x.toNat_lt
  have hy := y.toNat_lt
  apply UInt64.toNat_inj.mp
  omega

/-- The first eight octets of a trace identifier, as a word. -/
def traceHigh (m : TraceMeta) : UInt64 :=
  splitmix64 (m.tStartNs ^^^ (m.tgid.toUInt64 <<< 32) ^^^ m.fd.toUInt32.toUInt64)

def traceLow (m : TraceMeta) : UInt64 :=
  splitmix64 (traceHigh m ^^^ (m.streamId.toUInt64 <<< 32) ^^^ rotateLeft m.tStartNs 17)

def rawTraceId (m : TraceMeta) : List UInt8 := toBeBytes (traceHigh m) ++ toBeBytes (traceLow m)

theorem spanIds_trace (m : TraceMeta) : (spanIds m).1 = nonzero (rawTraceId m) := rfl

section Mixed

variable {m m' : TraceMeta}

/-- On one socket the first word tells the instants apart. -/
theorem instant_of_traceHigh (h : traceHigh m = traceHigh m') (htgid : m.tgid = m'.tgid)
    (hfd : m.fd = m'.fd) : m.tStartNs = m'.tStartNs := by
  have hmixed := splitmix64_injective h
  rwa [htgid,hfd,UInt64.xor_left_inj,UInt64.xor_left_inj] at hmixed

/-- At one instant the first word tells the sockets apart. -/
theorem socket_of_traceHigh (h : traceHigh m = traceHigh m') (ht : m.tStartNs = m'.tStartNs) :
    m.tgid = m'.tgid ∧ m.fd = m'.fd := by
  have hmixed := splitmix64_injective h
  rw [ht,UInt64.xor_assoc,UInt64.xor_assoc,UInt64.xor_right_inj] at hmixed
  obtain ⟨htgid,hfd⟩ := packed_inj hmixed
  exact ⟨htgid,by simpa using congrArg UInt32.toInt32 hfd⟩

/-- On one socket at one instant the second word tells the streams apart. -/
theorem stream_of_traceLow (h : traceLow m = traceLow m') (hhigh : traceHigh m = traceHigh m')
    (ht : m.tStartNs = m'.tStartNs) : m.streamId = m'.streamId := by
  have hmixed := splitmix64_injective h
  rw [hhigh,ht,UInt64.xor_left_inj,UInt64.xor_right_inj] at hmixed
  have hpacked := congrArg (· ^^^ (0 : UInt32).toUInt64) hmixed
  exact (packed_inj hpacked).1

theorem rawTraceId_inj (h : rawTraceId m = rawTraceId m')
    (hshare : m.tgid = m'.tgid ∧ m.fd = m'.fd ∨ m.tStartNs = m'.tStartNs) :
    m.tgid = m'.tgid ∧ m.fd = m'.fd ∧ m.streamId = m'.streamId ∧ m.tStartNs = m'.tStartNs := by
  obtain ⟨hbytes,hbytes'⟩ := List.append_inj h (by simp [toBeBytes])
  have hhigh := toBeBytes_injective hbytes
  have hlow := toBeBytes_injective hbytes'
  rcases hshare with ⟨htgid,hfd⟩ | ht
  · have ht := instant_of_traceHigh hhigh htgid hfd
    exact ⟨htgid,hfd,stream_of_traceLow hlow hhigh ht,ht⟩
  · obtain ⟨htgid,hfd⟩ := socket_of_traceHigh hhigh ht
    exact ⟨htgid,hfd,stream_of_traceLow hlow hhigh ht,ht⟩

end Mixed

theorem nonzero_of_some {id : List UInt8} (h : ∃ b ∈ id, b ≠ 0) : nonzero id = id := by
  obtain ⟨b,hb,hne⟩ := h
  rw [nonzero,if_neg]
  intro hall
  exact hne (by simpa using List.all_eq_true.mp hall b hb)

theorem exists_nonzero {id : List UInt8} (h : id ≠ []) : ∃ b ∈ nonzero id, b ≠ 0 := by
  rw [nonzero]
  split_ifs with hall
  · refine ⟨1,?_,by decide⟩
    exact List.mem_set (Nat.sub_lt (List.length_pos_of_ne_nil h) Nat.one_pos) 1
  · simpa using hall

/-- Spans of one socket or of one instant that differ in socket, stream or instant have different
trace identifiers unless a zero was replaced, and no identifier is zero. -/
theorem trace_ids_distinct :
    (∀ m m' : TraceMeta,
      m.tgid ≠ m'.tgid ∨ m.fd ≠ m'.fd ∨ m.streamId ≠ m'.streamId ∨ m.tStartNs ≠ m'.tStartNs →
      m.tgid = m'.tgid ∧ m.fd = m'.fd ∨ m.tStartNs = m'.tStartNs →
      (∃ b ∈ rawTraceId m, b ≠ 0) → (∃ b ∈ rawTraceId m', b ≠ 0) →
      (spanIds m).1 ≠ (spanIds m').1) ∧
    ∀ m, (∃ b ∈ (spanIds m).1, b ≠ 0) ∧ ∃ b ∈ (spanIds m).2, b ≠ 0 := by
  constructor
  · intro m m' hdiffer hshare hraw hraw' heq
    rw [spanIds_trace,spanIds_trace,nonzero_of_some hraw,nonzero_of_some hraw'] at heq
    obtain ⟨htgid,hfd,hstream,ht⟩ := rawTraceId_inj heq hshare
    simp [htgid,hfd,hstream,ht] at hdiffer
  · intro m
    exact ⟨exists_nonzero (by simp [toBeBytes]),exists_nonzero (by simp [toBeBytes])⟩

/-- Two streams of one connection whose headers came in one event. -/
theorem trace_ids_distinct_streams :
    (spanIds ⟨42,3,1,1000,false⟩).1 ≠ (spanIds ⟨42,3,3,1000,false⟩).1 :=
  trace_ids_distinct.1 _ _ (by decide) (by decide) (by decide +kernel) (by decide +kernel)

end ObsAgent
