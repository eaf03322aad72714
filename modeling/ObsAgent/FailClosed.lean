import ObsAgent.Chunking
import ObsAgent.HpackSync

/-! Header blocks the agent does not decode.  A receiver of the whole direction decodes
every block; the agent skips promises, oversized frames and oversized blocks, and keeps its
table.  What it resolves later is right as long as the blocks it missed changed nothing
that its table still holds. -/
namespace ObsAgent
namespace H2

open Hpack Rfc7541

def typePushPromise : UInt8 := 0x5

/-- The fragment of a PUSH_PROMISE frame: padding, no priority, the promised stream in
front. -/
def promiseFragment (flags : UInt8) (payload : List UInt8) : Option (List UInt8) :=
  (headersFragment (flags &&& flagPadded) payload).bind fun p =>
    if p.length < 4 then none else some (p.drop 4)

/-- The fragment of a frame that begins a header block. -/
def Frame.fragment (f : Frame) : Option (List UInt8) :=
  if f.hdr.ty = typePushPromise then promiseFragment f.hdr.flags f.payload
  else headersFragment f.hdr.flags f.payload

/-- The block left open and the block completed by a fragment. -/
def Frame.extend (f : Frame) (sid : ℕ) (frag : List UInt8) :
    Option (ℕ × List UInt8) × Option (ℕ × List UInt8) :=
  if f.hdr.flags &&& flagEndHeaders ≠ 0 then (none,some (sid,frag)) else (some (sid,frag),none)

/-- A receiver's reading of a valid frame: the open block behind it and the block it
completes.  An open block admits only its own continuation. -/
def readFrame (block : Option (ℕ × List UInt8)) (f : Frame) :
    Option (Option (ℕ × List UInt8) × Option (ℕ × List UInt8)) :=
  match block with
  | some (sid,acc) =>
    if f.hdr.ty = typeContinuation ∧ f.hdr.streamId = sid ∧ sid ≠ 0 then
      some (f.extend sid (acc ++ f.payload))
    else none
  | none =>
    if f.hdr.ty = typeHeaders ∨ f.hdr.ty = typePushPromise then
      if f.hdr.streamId = 0 then none else f.fragment.map (f.extend f.hdr.streamId)
    else if f.hdr.ty = typeContinuation then none
    else some (none,none)

/-- A decoded block: its stream, its headers, and the table behind it. -/
structure Block where
  streamId : ℕ
  headers : List Entry
  table : Table

/-- The receiver's run over a valid frame sequence: for each frame, the block it
completes, decoded under whatever maximum was negotiated. -/
inductive Received : Table → Option (ℕ × List UInt8) → List Frame → List (Option Block) → Prop
  | nil (t : Table) (block : Option (ℕ × List UInt8)) : Received t block [] []
  | quiet {t : Table} {block block' : Option (ℕ × List UInt8)} {f : Frame} {fs : List Frame}
      {rs : List (Option Block)} :
      readFrame block f = some (block',none) → Received t block' fs rs →
      Received t block (f :: fs) (none :: rs)
  | decoded {t : Table} {block block' : Option (ℕ × List UInt8)} {f : Frame} {fs : List Frame}
      {frag : List UInt8} {limit : ℕ} {b : Block} {rs : List (Option Block)} :
      readFrame block f = some (block',some (b.streamId,frag)) →
      Decodes limit t frag b.table b.headers → Received b.table block' fs rs →
      Received t block (f :: fs) (some b :: rs)

/-- The pipe behind a frame. -/
def DirPipe.next (p : DirPipe) (f : Frame) : DirPipe :=
  let q := interpret p.headerBlock f
  match q.2 with
  | .decode sid frag =>
    {p with
      headerBlock := q.1
      decoder := if sid = 0 then p.decoder else (p.decoder.decodeBlock frag).1}
  | _ => {p with headerBlock := q.1}

theorem frameStep_pipe (conn : H2Conn) (dir : IoDir) (f : Frame) (ts : ℕ) :
    (frameStep conn dir f ts).1.pipe dir = (conn.pipe dir).next f := by
  rw [frameStep_eq]
  simp only [DirPipe.next]
  cases hq : (interpret (conn.pipe dir).headerBlock f).2 with
  | decode sid frag =>
    simp only [perform,onHeaderBlock]
    split_ifs
    · simp [setBlock]
    · split <;> rename_i hd <;> simp only [setBlock,H2Conn.pipe_setPipe] at hd ⊢ <;>
        cases dir <;> simp_all [H2Conn.setPipe,H2Conn.pipe]
  | reset sid => cases dir <;> rfl
  | _ => simp [perform,setBlock]

theorem pairBlock_events (streams : Streams) (dir : IoDir) (sid : ℕ) (p : Hpack.Pseudo) (ts : ℕ) :
    ∃ refused, (pairBlock streams dir sid p ts).2.events = [.block sid dir p ts refused] := by
  simp only [pairBlock]
  repeat' split
  all_goals exact ⟨_,rfl⟩

/-- A block the agent acts on is one it has decoded. -/
theorem frameStep_block {conn : H2Conn} {dir d : IoDir} {f : Frame} {ts sid ts' : ℕ}
    {p : Hpack.Pseudo} {refused : Bool}
    (h : StreamEvent.block sid d p ts' refused ∈ (frameStep conn dir f ts).2.events) :
    ∃ frag, (interpret (conn.pipe dir).headerBlock f).2 = .decode sid frag ∧
      ((conn.pipe dir).decoder.decodeBlock frag).2 = some p := by
  rw [frameStep_eq] at h
  cases hq : (interpret (conn.pipe dir).headerBlock f).2 with
  | decode sid' frag =>
    simp only [hq,perform,onHeaderBlock,setBlock,H2Conn.pipe_setPipe] at h
    split_ifs at h
    · simp [Emitted.empty] at h
    · cases hd : (conn.pipe dir).decoder.decodeBlock frag with
      | mk decoder decoded =>
        cases decoded with
        | none => simp [hd,Emitted.missing,Emitted.counted] at h
        | some p' =>
          obtain ⟨r,hr⟩ := pairBlock_events conn.streams dir sid' p' ts
          simp only [hd,H2Conn.streams_setPipe,hr,List.mem_singleton,StreamEvent.block.injEq] at h
          obtain ⟨rfl,-,rfl,-⟩ := h
          exact ⟨frag,rfl,by rw [hd]⟩
  | _ => simp [hq,perform,Emitted.empty,Emitted.missing,Emitted.counted] at h

theorem goaway_halts {conn : H2Conn} {dir : IoDir} {f : Frame} (h : f.hdr.ty = typeGoaway) (ts : ℕ) :
    (frameStep conn dir f ts).2.outcome.halted = true := by
  have haction : (interpret (conn.pipe dir).headerBlock f).2 = .goaway := by
    simp [interpret,h,typeGoaway,typeHeaders,typeContinuation,typeRstStream]
  rw [frameStep_eq,haction]
  rfl

/-- The agent has no block open, or the one the receiver has; so what it decodes is what
the receiver decodes. -/
theorem interpret_read {ours theirs theirs' done : Option (ℕ × List UInt8)} {f : Frame}
    (h : ours = none ∨ ours = theirs) (hr : readFrame theirs f = some (theirs',done)) :
    ((interpret ours f).1 = none ∨ (interpret ours f).1 = theirs') ∧
      ∀ sid frag, (interpret ours f).2 = .decode sid frag → done = some (sid,frag) := by
  have hHC : typeHeaders ≠ typeContinuation := by decide
  have hPH : typePushPromise ≠ typeHeaders := by decide
  cases theirs with
  | some b =>
    obtain ⟨sid,acc⟩ := b
    simp only [readFrame] at hr
    split_ifs at hr with hc
    obtain ⟨hty,rfl,-⟩ := hc
    have hext := Option.some.inj hr
    simp only [interpret,hty,hHC.symm,if_true,if_false]
    by_cases hskip : skipPayload f.hdr = true
    · simp [hskip]
    · simp only [hskip,Bool.false_eq_true,if_false]
      rcases h with rfl | rfl
      · simp
      · simp only [ne_eq,not_true_eq_false,if_false]
        simp only [Frame.extend] at hext
        split_ifs at hext ⊢ <;> simp_all
  | none =>
    obtain rfl : ours = none := by simpa using h
    simp only [readFrame] at hr
    split_ifs at hr with hbegin hzero hcont
    · rcases hbegin with hty | hty
      · obtain ⟨frag,hfrag,hext⟩ := Option.map_eq_some_iff.mp hr
        simp only [Frame.fragment,hty,hPH.symm,if_false] at hfrag
        simp only [interpret,hty,if_true,hfrag]
        simp only [Frame.extend] at hext
        split_ifs at hext ⊢ <;> simp_all
      · simp [interpret,hty,typePushPromise,typeHeaders,typeContinuation,typeRstStream,typeGoaway]
    · have hH : f.hdr.ty ≠ typeHeaders := fun hty => hbegin (Or.inl hty)
      simp only [interpret,hH,hcont,if_false]
      split_ifs <;> simp

theorem readFrame_completes {block block' : Option (ℕ × List UInt8)} {f : Frame} {sid : ℕ}
    {frag : List UInt8} (h : readFrame block f = some (block',some (sid,frag))) :
    sid ≠ 0 ∧ f.hdr.ty ≠ typeGoaway := by
  have hext : ∀ n frag', f.extend n frag' = (block',some (sid,frag)) → n = sid := by
    intro n frag' he
    simp only [Frame.extend] at he
    split_ifs at he <;> simp_all
  cases block with
  | some b =>
    simp only [readFrame] at h
    split_ifs at h with hc
    rw [← hext _ _ (Option.some.inj h),hc.1]
    exact ⟨hc.2.2,by decide⟩
  | none =>
    simp only [readFrame] at h
    split_ifs at h with hbegin hzero
    · obtain ⟨frag',-,he⟩ := Option.map_eq_some_iff.mp h
      rw [← hext _ _ he]
      refine ⟨hzero,?_⟩
      rcases hbegin with hty | hty <;> rw [hty] <;> decide
    · simp at h

/-- The stream events of each frame, up to the one that ends the connection. -/
def readings (dir : IoDir) : H2Conn → (ℕ → ℕ) → List Frame → List (List StreamEvent)
  | _, _, [] => []
  | conn, τ, f :: fs =>
    let q := frameStep conn dir f (τ (f.bytes.length - 1))
    q.2.events ::
      if q.2.outcome.halted then [] else readings dir q.1 (fun i => τ (f.bytes.length + i)) fs

theorem deliver_readings (dir : IoDir) (conn : H2Conn) (τ : ℕ → ℕ) (fs : List Frame) :
    (deliver dir conn τ fs (Frame.wire fs).length).2.events =
      (readings dir conn τ fs).flatten := by
  induction fs generalizing conn τ with
  | nil => rfl
  | cons f fs ih =>
    have hfull : f.bytes.length ≤ (Frame.wire (f :: fs)).length := by simp
    simp only [readings,List.flatten_cons]
    cases hlive : (frameStep conn dir f (τ (f.bytes.length - 1))).2.outcome.halted with
    | true =>
      rw [deliver_ended _ _ _ _ hfull hlive]
      simp
    | false =>
      rw [deliver_whole _ _ _ _ hfull hlive,Emitted.events_append,Frame.wire_cons,
        List.length_append,Nat.add_sub_cancel_left,ih]
      simp

/-- A completed block is decoded, or adds nothing to the receiver's table, or finds the
agent's table empty. -/
def Harmless (p : DirPipe) (t : Table) (f : Frame) (b : Block) : Prop :=
  (∃ sid frag, (interpret p.headerBlock f).2 = .decode sid frag) ∨
    b.table.entries <+: t.entries ∨ p.decoder.dynamic = []

def MissesHarmlessly : DirPipe → Table → List Frame → List (Option Block) → Prop
  | p, t, f :: fs, r :: rs =>
    f.hdr.ty ≠ typeGoaway → (∀ b, r = some b → Harmless p t f b) ∧
      MissesHarmlessly (p.next f) ((r.map Block.table).getD t) fs rs
  | _, _, _, _ => True

/-- What the agent acts on at a frame is what the receiver decodes there. -/
def ActsOn (es : List StreamEvent) (r : Option Block) : Prop :=
  ∀ sid d p ts refused, StreamEvent.block sid d p ts refused ∈ es →
    ∃ b, r = some b ∧ b.streamId = sid ∧ p.toOctets = pseudoOf b.headers

def AllActOn (ess : List (List StreamEvent)) (rs : List (Option Block)) : Prop :=
  ∀ (i : ℕ) (es : List StreamEvent), ess[i]? = some es → ∃ r, rs[i]? = some r ∧ ActsOn es r

theorem allActOn_cons {es : List StreamEvent} {ess : List (List StreamEvent)} {r : Option Block}
    {rs : List (Option Block)} (h : ActsOn es r) (hs : AllActOn ess rs) :
    AllActOn (es :: ess) (r :: rs) := by
  intro i es' hi
  cases i with
  | zero =>
    obtain rfl : es = es' := by simpa using hi
    exact ⟨r,rfl,h⟩
  | succ i =>
    obtain ⟨r',hr',hacts⟩ := hs i es' (by simpa using hi)
    exact ⟨r',by simpa using hr',hacts⟩

/-- One frame: the agent acts on what the receiver decodes, and the tables stay in step. -/
theorem acts_step (ts : ℕ) {conn : H2Conn} {dir : IoDir} {f : Frame} {limit : ℕ} {t : Table}
    {b : Block} {theirs theirs' : Option (ℕ × List UInt8)} {frag : List UInt8}
    (hopen : (conn.pipe dir).headerBlock = none ∨ (conn.pipe dir).headerBlock = theirs)
    (hsync : Synced (conn.pipe dir).decoder t)
    (hread : readFrame theirs f = some (theirs',some (b.streamId,frag)))
    (hdec : Decodes limit t frag b.table b.headers) (hsafe : Harmless (conn.pipe dir) t f b) :
    ActsOn (frameStep conn dir f ts).2.events (some b) ∧
      Synced ((conn.pipe dir).next f).decoder b.table := by
  have hsame := (interpret_read hopen hread).2
  have hstep := hsync.decodeBlock hdec
  constructor
  · intro sid d p ts' refused hmem
    obtain ⟨frag',hact,hp⟩ := frameStep_block hmem
    obtain ⟨rfl,rfl⟩ := Prod.mk.inj (Option.some.inj (hsame _ _ hact))
    exact ⟨b,rfl,rfl,hstep.2 p hp⟩
  · have hmissed : (∀ sid frag, (interpret (conn.pipe dir).headerBlock f).2 ≠ .decode sid frag) →
        Synced (conn.pipe dir).decoder b.table := by
      intro hnot
      rcases hsafe with ⟨sid,frag,hact⟩ | hadds | hempty
      · exact absurd hact (hnot sid frag)
      · obtain ⟨history,hd,ht⟩ := hsync
        exact ⟨history,hd,hadds.trans ht⟩
      · exact synced_of_empty _ hempty
    simp only [DirPipe.next]
    cases hact : (interpret (conn.pipe dir).headerBlock f).2 with
    | decode sid frag' =>
      obtain ⟨rfl,rfl⟩ := Prod.mk.inj (Option.some.inj (hsame _ _ hact))
      simp only [if_neg (readFrame_completes hread).1]
      exact hstep.1
    | _ => exact hmissed (by simp [hact])

/-- The tables stay in step at a frame that completes no block. -/
theorem quiet_step (ts : ℕ) {conn : H2Conn} {dir : IoDir} {f : Frame} {t : Table}
    {theirs theirs' : Option (ℕ × List UInt8)}
    (hopen : (conn.pipe dir).headerBlock = none ∨ (conn.pipe dir).headerBlock = theirs)
    (hsync : Synced (conn.pipe dir).decoder t) (hread : readFrame theirs f = some (theirs',none)) :
    ActsOn (frameStep conn dir f ts).2.events none ∧
      Synced ((conn.pipe dir).next f).decoder t := by
  have hsame := (interpret_read hopen hread).2
  constructor
  · intro sid d p ts' refused hmem
    obtain ⟨frag,hact,-⟩ := frameStep_block hmem
    exact absurd (hsame _ _ hact) (by simp)
  · simp only [DirPipe.next]
    cases hact : (interpret (conn.pipe dir).headerBlock f).2 with
    | decode sid frag => exact absurd (hsame _ _ hact) (by simp)
    | _ => exact hsync

section Run

variable {dir : IoDir} {f : Frame} {fs : List Frame} {r : Option Block} {rs : List (Option Block)}
  {t : Table} {theirs : Option (ℕ × List UInt8)} {conn : H2Conn} {τ : ℕ → ℕ}

theorem readings_cons (hsafe : MissesHarmlessly (conn.pipe dir) t (f :: fs) (r :: rs))
    (hacts : ActsOn (frameStep conn dir f (τ (f.bytes.length - 1))).2.events r)
    (htail : MissesHarmlessly ((conn.pipe dir).next f) ((r.map Block.table).getD t) fs rs →
      AllActOn (readings dir (frameStep conn dir f (τ (f.bytes.length - 1))).1
        (fun i => τ (f.bytes.length + i)) fs) rs) :
    AllActOn (readings dir conn τ (f :: fs)) (r :: rs) := by
  refine allActOn_cons hacts ?_
  cases hlive : (frameStep conn dir f (τ (f.bytes.length - 1))).2.outcome.halted with
  | true => simp [AllActOn]
  | false =>
    have hgo : f.hdr.ty ≠ typeGoaway := fun h => by
      rw [goaway_halts h] at hlive
      simp at hlive
    exact htail (hsafe hgo).2

theorem readings_acts (hrec : Received t theirs fs rs)
    (hopen : (conn.pipe dir).headerBlock = none ∨ (conn.pipe dir).headerBlock = theirs)
    (hsync : Synced (conn.pipe dir).decoder t) (hsafe : MissesHarmlessly (conn.pipe dir) t fs rs) :
    AllActOn (readings dir conn τ fs) rs := by
  induction hrec generalizing conn τ with
  | nil t block => simp [AllActOn,readings]
  | @quiet t block block' f fs rs hread _ ih =>
    obtain ⟨hacts,hnext⟩ := quiet_step (τ (f.bytes.length - 1)) hopen hsync hread
    refine readings_cons hsafe hacts fun hsafe' => ih ?_ ?_ ?_
    · rw [frameStep_headerBlock]
      exact (interpret_read hopen hread).1
    · rwa [frameStep_pipe]
    · rwa [frameStep_pipe]
  | @decoded t block block' f fs frag limit b rs hread hdec _ ih =>
    obtain ⟨hacts,hnext⟩ := acts_step (τ (f.bytes.length - 1)) hopen hsync hread hdec
      ((hsafe (readFrame_completes hread).2).1 b rfl)
    refine readings_cons hsafe hacts fun hsafe' => ih ?_ ?_ ?_
    · rw [frameStep_headerBlock]
      exact (interpret_read hopen hread).1
    · rwa [frameStep_pipe]
    · rwa [frameStep_pipe]

end Run

/-- The octets of a direction, in any calls: every block the agent acts on is the block the
receiver decodes at that frame, with the receiver's method, path and status. -/
def ResolvesAsReceived (preface : Bool) (fs : List Frame) (rs : List (Option Block))
    (cs : List (List UInt8 × ℕ)) (dir : IoDir) (now : Instant) : Prop :=
  let seen := readings dir (.new now)
    (fun i => stamp cs ((if preface then clientPreface.length else 0) + i)) fs
  (pushWhileOpen (.new now) dir cs).2.events = seen.flatten ∧ AllActOn seen rs

theorem resolves_when_misses_harmless (preface : Bool) (fs : List Frame) (rs : List (Option Block))
    (hrec : Received Table.initial none fs rs)
    (hsafe : MissesHarmlessly DirPipe.new Table.initial fs rs)
    (hpri : ∀ f ∈ fs, f.hdr.length ≠ prefaceLength) (cs : List (List UInt8 × ℕ))
    (hcs : joined cs = octetStream preface fs) (dir : IoDir) (now : Instant) :
    ResolvesAsReceived preface fs rs cs dir now := by
  have hr : Ready (.new now) dir fs := ⟨clean_new now dir,hpri⟩
  have hpush := (pushWhileOpen_start preface hr
    (show joined cs <+: octetStream preface fs by rw [hcs])).emitted
  constructor
  · rw [hpush,hcs,← deliver_readings]
    cases preface with
    | false => simp [receive,octetStream]
    | true => simp [receive,octetStream]
  · have hsync : Synced ((H2Conn.new now).pipe dir).decoder Table.initial :=
      synced_of_empty _ (by simp [DirPipe.new,Decoder.default])
    exact readings_acts hrec (by simp [DirPipe.new]) hsync (by simpa using hsafe)

def statusCreated : Frame :=
  ⟨[0,0,5,1,4,0,0,0,1,0x48,3,0x32,0x30,0x31],⟨5,1,4,1⟩,by decide +kernel,by decide⟩

def quietPromise : Frame :=
  ⟨[0,0,10,5,4,0,0,0,1,0,0,0,2,0x82,0x86,0x84,0x01,1,0x78],⟨10,5,4,1⟩,by decide +kernel,by decide⟩

def addingPromise : Frame :=
  ⟨[0,0,13,5,4,0,0,0,1,0,0,0,2,0x82,0x86,0x84,0x01,1,0x78,0x53,1,0x79],⟨13,5,4,1⟩,
    by decide +kernel,by decide⟩

def newestEntry : Frame := ⟨[0,0,1,1,4,0,0,0,3,0xbe],⟨1,1,4,3⟩,by decide +kernel,by decide⟩

def statusAndNewest : Frame :=
  ⟨[0,0,2,1,4,0,0,0,3,0x88,0xbe],⟨2,1,4,3⟩,by decide +kernel,by decide⟩

def createdEntry : Entry := (octets ":status",octets "201")

theorem decodes_created : Decodes 4096 Table.initial [0x48,3,0x32,0x30,0x31]
    ⟨[createdEntry],4096⟩ [createdEntry] := by
  have htext : StringCode ⟨octets "201",false⟩ (3 :: ([] ++ [0x32,0x30,0x31])) :=
    .mk (.short (by decide) (by decide)) (by decide)
      (show [0x32,0x30,0x31] = octets "201" by decide +kernel)
  have hstatus : RepCode (.literal .incremental (.index 8) ⟨octets "201",false⟩)
      (0x48 :: ([] ++ [3,0x32,0x30,0x31])) :=
    .literalIndex (by decide) (by decide) (.short (by decide) (by decide)) htext
  exact ⟨_,.cons hstatus .nil,by decide +kernel⟩

def promisedRequest : List Entry :=
  [(octets ":method",octets "GET"),(octets ":scheme",octets "http"),(octets ":path",octets "/"),
    (octets ":authority",octets "x")]

def acceptEntry : Entry := (octets "accept",octets "y")

theorem indexed_code (i : ℕ) (b : UInt8) (h : 128 ≤ b.toNat ∧ b.toNat % 2^7 = i ∧ i < 2^7 - 1) :
    RepCode (.indexed i) [b] := .indexed h.1 (.short h.2.1 h.2.2)

theorem decodes_promise {tail : List Rep} {bytes : List UInt8} (h : BlockCode tail bytes)
    {t : Table} {hs : List Entry} (ht : Table.block none 4096
      ⟨[createdEntry],4096⟩ (.indexed 2 :: .indexed 6 :: .indexed 4 ::
        .literal .without (.index 1) ⟨[0x78],false⟩ :: tail) = some (t,hs)) :
    Decodes 4096 ⟨[createdEntry],4096⟩ ([0x82,0x86,0x84,0x01,1,0x78] ++ bytes) t hs := by
  have hx : StringCode ⟨[0x78],false⟩ (1 :: ([] ++ [0x78])) :=
    .mk (.short (by decide) (by decide)) (by decide) rfl
  have hauthority : RepCode (.literal .without (.index 1) ⟨[0x78],false⟩)
      (0x01 :: ([] ++ [1,0x78])) :=
    .literalIndex (by decide) (by decide) (.short (by decide) (by decide)) hx
  have hcode := BlockCode.cons (indexed_code 2 0x82 (by decide))
    (.cons (indexed_code 6 0x86 (by decide)) (.cons (indexed_code 4 0x84 (by decide))
      (.cons hauthority h)))
  exact ⟨_,hcode,ht⟩

/-- A promise that adds nothing is skipped without harm. -/
theorem resolves_after_quiet_promise :
    ResolvesAsReceived false [statusCreated,quietPromise,newestEntry]
      [some ⟨1,[createdEntry],⟨[createdEntry],4096⟩⟩,
        some ⟨1,promisedRequest,⟨[createdEntry],4096⟩⟩,
        some ⟨3,[createdEntry],⟨[createdEntry],4096⟩⟩]
      [(octetStream false [statusCreated,quietPromise,newestEntry],1)] .read 0 :=
  have hnewest : Decodes 4096 ⟨[createdEntry],4096⟩ [0xbe] ⟨[createdEntry],4096⟩ [createdEntry] :=
    ⟨_,.cons (indexed_code 62 0xbe (by decide)) .nil,by decide +kernel⟩
  resolves_when_misses_harmless false _ _
    (.decoded rfl decodes_created (.decoded rfl (decodes_promise .nil (by decide +kernel))
      (.decoded rfl hnewest (.nil _ _))))
    (fun _ => ⟨fun b hb => Or.inl ⟨_,_,rfl⟩,fun _ => ⟨fun b hb => Or.inr (Or.inl (by
      obtain rfl := Option.some.inj hb
      exact List.prefix_refl _)),fun _ => ⟨fun b hb => Or.inl ⟨_,_,rfl⟩,trivial⟩⟩⟩)
    (by decide) _ (by decide +kernel) .read 0

/-- A promise that adds an entry shifts the receiver's table and not the agent's: the
answer on stream 3 has status 200, the agent reads 201. -/
theorem promise_shifts_table :
    let fs := [statusCreated,addingPromise,statusAndNewest]
    ∃ rs, Received Table.initial none fs rs ∧
      ¬ ResolvesAsReceived false fs rs [(octetStream false fs,1)] .read 0 := by
  intro fs
  have hy : StringCode ⟨[0x79],false⟩ (1 :: ([] ++ [0x79])) :=
    .mk (.short (by decide) (by decide)) (by decide) rfl
  have haccept : RepCode (.literal .incremental (.index 19) ⟨[0x79],false⟩)
      (0x53 :: ([] ++ [1,0x79])) :=
    .literalIndex (by decide) (by decide) (.short (by decide) (by decide)) hy
  have hlast : Decodes 4096 ⟨[acceptEntry,createdEntry],4096⟩ [0x88,0xbe]
      ⟨[acceptEntry,createdEntry],4096⟩ [(octets ":status",octets "200"),acceptEntry] :=
    ⟨_,.cons (indexed_code 8 0x88 (by decide)) (.cons (indexed_code 62 0xbe (by decide)) .nil),
      by decide +kernel⟩
  have hpromise : Decodes 4096 ⟨[createdEntry],4096⟩ [0x82,0x86,0x84,0x01,1,0x78,0x53,1,0x79]
      ⟨[acceptEntry,createdEntry],4096⟩ (promisedRequest ++ [acceptEntry]) :=
    decodes_promise (.cons haccept .nil) (by decide +kernel)
  refine ⟨[some ⟨1,_,_⟩,some ⟨1,_,_⟩,some ⟨3,_,_⟩],.decoded rfl decodes_created
    (.decoded rfl hpromise (.decoded rfl hlast (.nil _ _))),?_⟩
  rintro ⟨-,hacts⟩
  obtain ⟨r,hr,hact⟩ := hacts 2 [.block 3 .read ⟨none,none,some 201,none⟩ 1 false]
    (by decide +kernel)
  obtain ⟨b,rfl,-,hp⟩ := hact 3 .read _ 1 false (List.mem_singleton.mpr rfl)
  obtain rfl := Option.some.inj (Option.some.inj hr)
  have hstatus := congrArg Rfc7541.Pseudo.status hp
  revert hstatus
  decide +kernel

end H2
end ObsAgent
