import ObsAgent.Ingest

/-! Headers moved by one call of any length, of which the kernel captures 256 octets.  A
header whose end is not captured stays in the buffer, and the next message of its direction
is appended to it. -/
namespace ObsAgent
namespace Http1

/-- A message whose header is moved by one call; the capture shows its first line.  Further
calls may carry body. -/
structure WholeMessage (key : SockKey) (dir : IoDir) (kind : MessageKind) where
  sock : SockIoEvent
  bytes : List UInt8
  tsNs : ℕ
  now : Instant
  rest : List Call
  tgid : sock.tgid = key.tgid
  fd : sock.fd = key.fd
  token : kind.leads bytes = true
  header : crlfcrlf <:+: bytes
  line : octets "\r\n" <:+: bytes.take sockIoPrefixLen
  on : ∀ c ∈ rest, c.On key dir
  inert : ∀ c ∈ rest, isHttpStart c.ev.chunk = false

namespace WholeMessage

variable {key : SockKey} {dir : IoDir} {kind : MessageKind}

def call (m : WholeMessage key dir kind) : Call := ⟨m.sock.moved dir m.bytes m.tsNs,m.now⟩

def calls (m : WholeMessage key dir kind) : List Call := m.call :: m.rest

/-- The end of the header is captured. -/
def Shown (m : WholeMessage key dir kind) : Prop := crlfcrlf <:+: m.bytes.take sockIoPrefixLen

instance (m : WholeMessage key dir kind) : Decidable m.Shown :=
  inferInstanceAs (Decidable (_ <:+: _))

theorem chunk_call (m : WholeMessage key dir kind) :
    m.call.ev.chunk = m.bytes.take sockIoPrefixLen := m.sock.moved_chunk _ _ _

theorem leads_take {b : List UInt8} (h : kind.leads b = true) :
    kind.leads (b.take sockIoPrefixLen) = true := by
  cases kind with
  | request =>
    have htoken : ∀ token : List UInt8, token.length ≤ 8 → startsWith b token = true →
        startsWith (b.take sockIoPrefixLen) token = true := fun token hlen ht =>
      startsWith_take ht (hlen.trans (by decide))
    simp only [MessageKind.leads,looksLikeRequest,Bool.or_eq_true] at h ⊢
    rcases h with (((((h | h) | h) | h) | h) | h) | h <;>
      simp [htoken _ (by decide +kernel) h]
  | response => exact startsWith_take h (by decide +kernel)

theorem on_call (m : WholeMessage key dir kind) : m.call.On key dir where
  tgid := m.tgid
  fd := m.fd
  dir := IoDir.fromU8_toU8 dir
  ret := Int.natCast_nonneg _
  chunk := by
    rw [m.chunk_call]
    rintro h
    have hline := m.line
    rw [h] at hline
    revert hline
    decide +kernel

/-- A shown header is complete with its call. -/
def toMessage (m : WholeMessage key dir kind) (h : m.Shown) : Message key dir where
  first := m.call
  later := []
  rest := m.rest
  on := by
    intro c hc
    rcases List.mem_cons.mp hc with rfl | hc
    · exact m.on_call
    · exact m.on c hc
  starts := by
    refine isHttpStart_of_leads kind ?_ ((chunk_length_le _).trans_lt (by decide))
    rw [m.chunk_call]
    exact leads_take m.token
  completes := by
    have hdone : headersDone m.call.ev.chunk = true := by
      rw [m.chunk_call]
      exact headersDone_iff.mpr h
    simp [Completes,Buf.complete,hdone]
  inert := m.inert

end WholeMessage

structure WholePair (key : SockKey) (dir : IoDir) where
  req : WholeMessage key dir .request
  resp : WholeMessage key dir.flip .response
  gap : durationSince resp.now req.now ≤ timeout

namespace WholePair

variable {key : SockKey} {dir : IoDir}

def calls (p : WholePair key dir) : List Call := p.req.calls ++ p.resp.calls

def exchange (p : WholePair key dir) : Exchange where
  tgid := key.tgid
  fd := key.fd
  reqPrefix := p.req.bytes.take sockIoPrefixLen
  respPrefix := p.resp.bytes.take sockIoPrefixLen
  tStartNs := p.req.tsNs
  tEndNs := p.resp.tsNs
  peer := none
  reqIsWrite := dir = .write
  cgroupId := p.req.sock.cgroupId

def toPair (p : WholePair key dir) (hreq : p.req.Shown) (hresp : p.resp.Shown) : Pair key dir where
  req := p.req.toMessage hreq
  resp := p.resp.toMessage hresp
  isRequest := by
    have := WholeMessage.leads_take p.req.token
    rwa [← p.req.chunk_call] at this
  isResponse := by
    have := WholeMessage.leads_take p.resp.token
    rwa [← p.resp.chunk_call] at this
  gap := p.gap

theorem exchange_eq (p : WholePair key dir) (hreq : p.req.Shown) (hresp : p.resp.Shown) :
    exchangeOf (p.toPair hreq hresp).req (p.toPair hreq hresp).resp = p.exchange := by
  have hq : (p.toPair hreq hresp).req.content = p.req.bytes.take sockIoPrefixLen := by
    rw [← p.req.chunk_call]
    exact List.append_nil _
  have ha : (p.toPair hreq hresp).resp.content = p.resp.bytes.take sockIoPrefixLen := by
    rw [← p.resp.chunk_call]
    exact List.append_nil _
  rw [exchangeOf,exchange,hq,ha,List.take_take,List.take_take,Nat.min_self]
  rfl

end WholePair

section

variable {key : SockKey} {dir : IoDir}

/-- Every pair gives one exchange, of its own request and response, in order. -/
def PairsUp (lead : Option (WholeMessage key dir.flip .response)) (ps : List (WholePair key dir))
    (trail : Option (WholeMessage key dir .request)) : Prop :=
  (Ingest.default.run (lead.toList.flatMap WholeMessage.calls ++ ps.flatMap WholePair.calls ++
    trail.toList.flatMap WholeMessage.calls)).2 = ps.map WholePair.exchange

instance (lead : Option (WholeMessage key dir.flip .response)) (ps : List (WholePair key dir))
    (trail : Option (WholeMessage key dir .request)) : Decidable (PairsUp lead ps trail) :=
  inferInstanceAs (Decidable (_ = _))

theorem shown_pairs {ps : List (WholePair key dir)} (h : ∀ p ∈ ps, p.req.Shown ∧ p.resp.Shown) :
    ∃ qs : List (Pair key dir), qs.flatMap Pair.calls = ps.flatMap WholePair.calls ∧
      qs.map (fun q => exchangeOf q.req q.resp) = ps.map WholePair.exchange := by
  induction ps with
  | nil => exact ⟨[],rfl,rfl⟩
  | cons p ps ih =>
    obtain ⟨⟨hreq,hresp⟩,hps⟩ := List.forall_mem_cons.mp h
    obtain ⟨qs,hcalls,hout⟩ := ih hps
    refine ⟨p.toPair hreq hresp :: qs,?_,?_⟩
    · rw [List.flatMap_cons,List.flatMap_cons,hcalls]
      rfl
    · rw [List.map_cons,List.map_cons,hout,p.exchange_eq hreq hresp]

theorem shown_message {kind : MessageKind} {o : Option (WholeMessage key dir kind)}
    (h : ∀ m, o = some m → m.Shown) : ∃ o' : Option (Message key dir),
      o'.toList.flatMap Message.calls = o.toList.flatMap WholeMessage.calls ∧
        ∀ m, o' = some m → kind.leads m.first.ev.chunk = true := by
  cases o with
  | none => exact ⟨none,rfl,by simp⟩
  | some m =>
    refine ⟨some (m.toMessage (h m rfl)),rfl,fun m' hm' => ?_⟩
    obtain rfl := Option.some.inj hm'
    have hleads := WholeMessage.leads_take m.token
    rwa [← m.chunk_call] at hleads

/-- Pairing survives the capture of runs in which every message shows the end of its
header. -/
theorem pairs_up_when_shown (lead : Option (WholeMessage key dir.flip .response))
    (ps : List (WholePair key dir)) (trail : Option (WholeMessage key dir .request))
    (hlead : ∀ m, lead = some m → m.Shown) (hps : ∀ p ∈ ps, p.req.Shown ∧ p.resp.Shown)
    (htrail : ∀ m, trail = some m → m.Shown) : PairsUp lead ps trail := by
  obtain ⟨lead',hl,-⟩ := shown_message hlead
  obtain ⟨qs,hq,hout⟩ := shown_pairs hps
  obtain ⟨trail',ht,hreq⟩ := shown_message htrail
  have hrun := run_alternation lead' qs trail' hreq
  rw [hl,hq,ht,hout] at hrun
  exact hrun

end

theorem inert_nil : ∀ c ∈ ([] : List Call), isHttpStart c.ev.chunk = false := by simp

def wholeCall (dir : IoDir) (kind : MessageKind) (bytes : List UInt8) (tsNs : ℕ)
    (token : kind.leads bytes = true) (header : crlfcrlf <:+: bytes)
    (line : octets "\r\n" <:+: bytes.take sockIoPrefixLen) : WholeMessage ⟨42,3⟩ dir kind :=
  ⟨someSocket,bytes,tsNs,0,[],rfl,rfl,token,header,line,by simp,inert_nil⟩

def shortPair (tsNs : ℕ) : WholePair ⟨42,3⟩ .write where
  req := wholeCall .write .request (octets "GET /b HTTP/1.1\r\n\r\n") tsNs (by decide +kernel)
    (by decide +kernel) (by decide +kernel)
  resp := wholeCall .read .response (octets "HTTP/1.1 200 OK\r\n\r\n") (tsNs + 1) (by decide +kernel)
    (by decide +kernel) (by decide +kernel)
  gap := Nat.zero_le _

theorem pairs_up_two_short_pairs : PairsUp none [shortPair 10,shortPair 20] none :=
  pairs_up_when_shown none _ none (by simp) (by
    simp only [List.mem_cons,List.not_mem_nil,or_false,forall_eq_or_imp,forall_eq]
    exact ⟨⟨by decide +kernel,by decide +kernel⟩,⟨by decide +kernel,by decide +kernel⟩⟩) (by simp)

def longPair : WholePair ⟨42,3⟩ .write where
  req := wholeCall .write .request
    (octets "GET /a HTTP/1.1\r\nX: " ++ List.replicate 280 0x61 ++ octets "\r\n\r\n") 1
    (by decide +kernel) (by decide +kernel) (by decide +kernel)
  resp := wholeCall .read .response (octets "HTTP/1.1 404 Not Found\r\n\r\n") 2
    (by decide +kernel) (by decide +kernel) (by decide +kernel)
  gap := Nat.zero_le _

/-- The request whose header is cut is joined with the response of the next pair. -/
theorem cut_header_crosses_pairs :
    (Ingest.default.run ([longPair,shortPair 10].flatMap WholePair.calls)).2 =
        [{longPair.exchange with
          respPrefix := (shortPair 10).exchange.respPrefix
          tEndNs := (shortPair 10).exchange.tEndNs }] ∧
      ¬ PairsUp none [longPair,shortPair 10] none := by
  decide +kernel

end Http1
end ObsAgent
