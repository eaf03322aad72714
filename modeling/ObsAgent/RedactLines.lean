import ObsAgent.Redact

/-! The redaction told by lines: which sensitive lines it reaches, and what it leaves alone. -/
namespace ObsAgent
namespace Http

variable {buf out : List UInt8}

def LineStart (buf : List UInt8) (s : ℕ) : Prop := s = 0 ∨ 0 < s ∧ buf[s-1]? = some lf

/-- A line of the buffer, without its line feed. -/
structure Line (buf : List UInt8) (s t : ℕ) : Prop where
  start : LineStart buf s
  inner : ∀ k, s ≤ k → k < t → buf[k]? ≠ some lf
  stop : t = buf.length ∨ buf[t]? = some lf

/-- A line whose text ends at `t`, where its CRLF or LF stands. -/
structure TerminatedLine (buf : List UInt8) (s t : ℕ) : Prop where
  start : LineStart buf s
  le : s ≤ t
  inner : ∀ k, s ≤ k → k < t → buf[k]? ≠ some lf
  terminator : buf[t]? = some cr ∧ buf[t+1]? = some lf ∨
    buf[t]? = some lf ∧ (s < t → buf[t-1]? ≠ some cr)

/-- The positions behind `i` and the blanks there, up to the end of the text. -/
def LineValue (buf : List UInt8) (i t k : ℕ) : Prop := k < t ∧ ∃ m, i ≤ m ∧ m ≤ k ∧ Solid buf m

def Redacted (buf out : List UInt8) : Prop :=
  ∀ s t name, TerminatedLine buf s t → name ∈ sensitive → Occurs name buf s →
    ∀ k, LineValue buf (s + name.length) t k → out[k]? = some star

/-- The first place of a name outside the values that the names before it have in theirs. -/
inductive Target (buf : List UInt8) : List UInt8 → ℕ → Prop
  | authorization {j : ℕ} :
      FirstOutside authorization buf (fun _ => False) j → Target buf authorization j
  | cookie {j : ℕ} : FirstOutside cookie buf (hiddenAuthorization buf) j → Target buf cookie j
  | setCookie {j : ℕ} : FirstOutside setCookie buf (hiddenCookie buf) j → Target buf setCookie j

/-- Every sensitive line has a value of stars, or it is the first place of its name and its value
has no carriage return. The name of `set-cookie:` is also a place of `cookie:`. -/
def Reached (buf : List UInt8) : Prop :=
  ∀ s t name, TerminatedLine buf s t → name ∈ sensitive → Occurs name buf s →
    (∀ k, LineValue buf (s + name.length) t k → buf[k]? = some star) ∨
    (∀ k, LineValue buf (s + name.length) t k → buf[k]? ≠ some cr) ∧
      (Target buf name s ∨ name = setCookie ∧ Target buf cookie (s+4))

theorem hidden_iff_target (k : ℕ) :
    hiddenSetCookie buf k ↔ ∃ name j, Target buf name j ∧ InValue buf (j + name.length) k := by
  constructor
  · rintro ((⟨j,hfirst,hv⟩ | ⟨j,hfirst,hv⟩) | ⟨j,hfirst,hv⟩)
    · exact ⟨_,j,.authorization hfirst,hv⟩
    · exact ⟨_,j,.cookie hfirst,hv⟩
    · exact ⟨_,j,.setCookie hfirst,hv⟩
  · rintro ⟨name,j,htarget,hv⟩
    cases htarget with
    | authorization hfirst => exact Or.inl (Or.inl ⟨j,hfirst,hv⟩)
    | cookie hfirst => exact Or.inl (Or.inr ⟨j,hfirst,hv⟩)
    | setCookie hfirst => exact Or.inr ⟨j,hfirst,hv⟩

theorem Target.sensitive {name : List UInt8} {j : ℕ} (h : Target buf name j) :
    name ∈ sensitive ∧ Occurs name buf j := by
  cases h with
  | authorization h => exact ⟨by simp [Http.sensitive],h.1⟩
  | cookie h => exact ⟨by simp [Http.sensitive],h.1⟩
  | setCookie h => exact ⟨by simp [Http.sensitive],h.1⟩

theorem Occurs.sameLine {name : List UInt8} {j k : ℕ} (hname : HeaderName name)
    (h : Occurs name buf j) (hv : InValue buf (j + name.length) k) : SameLine buf j k := by
  intro m hjm hmk
  rcases Nat.lt_or_ge m (j + name.length) with hlt | hge
  · obtain ⟨b,hb,-,heol,-⟩ := h.plain hname (show m - j < name.length by omega)
    rw [show j + (m-j) = m by omega] at hb
    exact ⟨b,hb,heol⟩
  · exact hv.1 m hge hmk

theorem LineStart.le_of_sameLine {s j k : ℕ} (h : LineStart buf s) (hsame : SameLine buf j k)
    (hs : s ≤ k) : s ≤ j := by
  rcases h with rfl | ⟨hpos,hlf⟩
  · exact Nat.zero_le j
  · by_contra hlt
    obtain ⟨b,hb,heol⟩ := hsame (s-1) (by omega) (by omega)
    rw [hlf] at hb
    obtain rfl := Option.some.inj hb
    exact absurd heol (by decide)

/-- What is overwritten in a line belongs to a name in it. -/
theorem hidden_in_line {s k : ℕ} (hstart : LineStart buf s) (hs : s ≤ k)
    (hk : hiddenSetCookie buf k) :
    ∃ name j, Target buf name j ∧ InValue buf (j + name.length) k ∧ s ≤ j := by
  obtain ⟨name,j,htarget,hv⟩ := (hidden_iff_target k).mp hk
  obtain ⟨hmem,hocc⟩ := htarget.sensitive
  have hsame := hocc.sameLine (headerName_sensitive name hmem) hv
  exact ⟨name,j,htarget,hv,hstart.le_of_sameLine hsame hs⟩

theorem InValue.le {i k : ℕ} (h : InValue buf i k) : i ≤ k := by
  obtain ⟨m,him,hmk,-⟩ := h.2
  omega

theorem hidden_not_eol {k : ℕ} (hk : hiddenSetCookie buf k) {b : UInt8} (hb : buf[k]? = some b) :
    isEol b = false := by
  obtain ⟨name,j,-,hv⟩ := (hidden_iff_target k).mp hk
  obtain ⟨b',hb',heol⟩ := hv.1 k hv.le le_rfl
  rw [hb] at hb'
  rwa [Option.some.inj hb']

theorem Occurs.same_end {name name' : List UInt8} {s j : ℕ} (hname : HeaderName name)
    (hname' : HeaderName name') (h : Occurs name buf s) (h' : Occurs name' buf j) (hle : s ≤ j)
    (hlt : j < s + name.length) : j + name'.length = s + name.length := by
  have hpos := hname.pos
  have hpos' := hname'.pos
  have hfirst := h.not_inside hname (h'.colon hname') (by omega)
  have hsecond := h'.not_inside hname' (h.colon hname) (by omega)
  omega

theorem authorization_length : authorization.length = 14 := by decide
theorem cookie_length : cookie.length = 7 := by decide
theorem setCookie_length : setCookie.length = 11 := by decide

/-- Of the three names only `cookie:` ends another. -/
theorem sensitive_same_end {name name' : List UInt8} {s j : ℕ} (hmem : name ∈ sensitive)
    (hmem' : name' ∈ sensitive) (h : Occurs name buf s) (h' : Occurs name' buf j) (hle : s ≤ j)
    (hend : j + name'.length = s + name.length) :
    name' = name ∧ j = s ∨ name = setCookie ∧ name' = cookie ∧ j = s + 4 := by
  have hclash : ∀ {d : ℕ} {c c' : UInt8}, j = s + d → name[d]? = some c → name'[0]? = some c' →
      c = c' := by
    rintro d c c' rfl hc hc'
    have hat := h d c hc
    have hat' := h' 0 c' hc'
    rw [Nat.add_zero,hat] at hat'
    exact Option.some.inj hat'
  simp only [sensitive,List.mem_cons,List.not_mem_nil,or_false] at hmem hmem'
  rcases hmem with rfl | rfl | rfl <;> rcases hmem' with rfl | rfl | rfl <;>
    simp only [authorization_length,cookie_length,setCookie_length] at hend
  · exact Or.inl ⟨rfl,by omega⟩
  · exact absurd (hclash (d := 7) (by omega) rfl rfl) (by decide)
  · exact absurd (hclash (d := 3) (by omega) rfl rfl) (by decide)
  · omega
  · exact Or.inl ⟨rfl,by omega⟩
  · omega
  · omega
  · exact Or.inr ⟨rfl,rfl,by omega⟩
  · exact Or.inl ⟨rfl,by omega⟩

theorem TerminatedLine.lt_length {s t : ℕ} (h : TerminatedLine buf s t) : t < buf.length := by
  rcases h.terminator with ⟨ht,-⟩ | ⟨ht,-⟩ <;> exact (List.getElem?_eq_some_iff.mp ht).1

/-- In a value without carriage returns the overwriting does not stop early. -/
theorem TerminatedLine.inValue {s t i k : ℕ} (hline : TerminatedLine buf s t) (hi : s ≤ i)
    (hcr : ∀ k, LineValue buf i t k → buf[k]? ≠ some cr) (hk : LineValue buf i t k) :
    InValue buf i k := by
  refine ⟨fun m him hmk => ?_,hk.2⟩
  have hlt : m < buf.length := by
    have := hline.lt_length
    have := hk.1
    omega
  have hget := List.getElem?_eq_getElem hlt
  refine ⟨buf[m],hget,?_⟩
  by_cases hsolid : ∃ m', i ≤ m' ∧ m' ≤ m ∧ Solid buf m'
  · have hnocr := hcr m ⟨by have := hk.1; omega,hsolid⟩
    have hnolf := hline.inner m (by omega) (by have := hk.1; omega)
    rw [hget] at hnocr hnolf
    simp_all [isEol]
  · have hblank : isBlank buf[m] = true := by
      by_contra hne
      exact hsolid ⟨m,him,le_rfl,buf[m],hget,by simpa using hne⟩
    exact isEol_of_isBlank hblank

theorem redacted_of_reached (h : Reached buf) : Redacted buf (redactHeaders buf) := by
  obtain ⟨hout,-⟩ := redactHeaders_starred buf
  intro s t name hline hmem hocc k hk
  rcases h s t name hline hmem hocc with hstars | ⟨hcr,hfound⟩
  · by_cases hhidden : hiddenSetCookie buf k
    · exact hout.star k hhidden
    · rw [hout.keep k hhidden]
      exact hstars k hk
  · have hv := hline.inValue (Nat.le_add_right s name.length) hcr hk
    apply hout.star
    rw [hidden_iff_target]
    rcases hfound with htarget | ⟨rfl,htarget⟩
    · exact ⟨name,s,htarget,hv⟩
    · refine ⟨cookie,s+4,htarget,?_⟩
      rwa [cookie_length,show s + 4 + 7 = s + 11 by omega,← setCookie_length]

/-- The first octet of a value that is no star is overwritten only from the name of its line. -/
theorem target_of_first {s t k : ℕ} {name : List UInt8} (hline : TerminatedLine buf s t)
    (hmem : name ∈ sensitive) (hocc : Occurs name buf s)
    (hk : LineValue buf (s + name.length) t k) (hhidden : hiddenSetCookie buf k)
    (hfirst : ∀ m < k, LineValue buf (s + name.length) t m → buf[m]? = some star) :
    Target buf name s ∨ name = setCookie ∧ Target buf cookie (s+4) := by
  have hsk : s ≤ k := by
    obtain ⟨m,hm,hmk,-⟩ := hk.2
    omega
  obtain ⟨name',j,htarget,hv,hsj⟩ := hidden_in_line hline.start hsk hhidden
  obtain ⟨hmem',hocc'⟩ := htarget.sensitive
  have hname' := headerName_sensitive name' hmem'
  have hjk : j < k := by
    have hle := hv.le
    have hpos := hname'.pos
    omega
  have hlt : j < s + name.length := by
    by_contra hge
    have hstar := hfirst j hjk
      ⟨hjk.trans hk.1,j,by omega,le_rfl,hocc'.solid hname'⟩
    obtain ⟨b,hb,-,-,hne⟩ := hocc'.plain hname' hname'.pos
    rw [Nat.add_zero,hstar] at hb
    exact hne (Option.some.inj hb).symm
  have hend := hocc.same_end (headerName_sensitive name hmem) hname' hocc' hsj hlt
  rcases sensitive_same_end hmem hmem' hocc hocc' hsj hend with ⟨rfl,rfl⟩ | ⟨hset,rfl,rfl⟩
  · exact Or.inl htarget
  · exact Or.inr ⟨hset,htarget⟩

theorem reached_of_redacted (h : Redacted buf (redactHeaders buf)) : Reached buf := by
  classical
  obtain ⟨hout,-⟩ := redactHeaders_starred buf
  intro s t name hline hmem hocc
  by_cases hstars : ∀ k, LineValue buf (s + name.length) t k → buf[k]? = some star
  · exact Or.inl hstars
  refine Or.inr ⟨fun k hk hcr => ?_,?_⟩
  · have hstar := h s t name hline hmem hocc k hk
    have hclear : ¬ hiddenSetCookie buf k := fun hhidden =>
      absurd (hidden_not_eol hhidden hcr) (by decide)
    rw [hout.keep k hclear,hcr] at hstar
    exact absurd hstar (by decide)
  · -- the least position of the value that was no star
    have hexists : ∃ k, LineValue buf (s + name.length) t k ∧ buf[k]? ≠ some star := by
      simpa only [not_forall,exists_prop] using hstars
    obtain ⟨hk,hne⟩ := Nat.find_spec hexists
    have hstar := h s t name hline hmem hocc _ hk
    have hhidden : hiddenSetCookie buf (Nat.find hexists) := by
      by_contra hclear
      rw [hout.keep _ hclear] at hstar
      exact hne hstar
    refine target_of_first hline hmem hocc hk hhidden fun m hm hv => ?_
    by_contra hother
    exact Nat.find_min hexists hm ⟨hv,hother⟩

/-- Length, line ends and the lines without a sensitive name stay, and every sensitive value is
overwritten exactly if every sensitive line is reached. -/
theorem redactHeaders_redacted_iff (buf : List UInt8) :
    (redactHeaders buf).length = buf.length ∧
    (∀ (k : ℕ) (b : UInt8), buf[k]? = some b → isEol b = true → (redactHeaders buf)[k]? = some b) ∧
    (∀ s t, Line buf s t →
      (∀ name ∈ sensitive, ∀ j, s ≤ j → j + name.length ≤ t → ¬ Occurs name buf j) →
      ∀ k, s ≤ k → k < t → (redactHeaders buf)[k]? = buf[k]?) ∧
    (Redacted buf (redactHeaders buf) ↔ Reached buf) := by
  obtain ⟨hout,-⟩ := redactHeaders_starred buf
  refine ⟨hout.length,?_,?_,reached_of_redacted,redacted_of_reached⟩
  · intro k b hb heol
    rw [hout.keep k fun hhidden => ?_,hb]
    have hnot := hidden_not_eol hhidden hb
    simp_all
  · intro s t hline hnone k hs hk
    apply hout.keep
    intro hhidden
    obtain ⟨name,j,htarget,hv,hsj⟩ := hidden_in_line hline.start hs hhidden
    obtain ⟨hmem,hocc⟩ := htarget.sensitive
    exact hnone name hmem j hsj (hv.le.trans hk.le) hocc

def bearerRequest : List UInt8 :=
  octets "GET / HTTP/1.1\r\nAuthorization: Bearer secret\r\n\r\n"

/-- One sensitive line is reached. -/
theorem redactHeaders_redacted_bearer :
    Reached bearerRequest ∧ Redacted bearerRequest (redactHeaders bearerRequest) := by
  have honly : ∀ s < 48, ∀ name ∈ sensitive,
      startsWith ((bearerRequest.map toAsciiLowercase).drop s) name = true →
        name = authorization ∧ s = 16 := by decide +kernel
  have hplace : ∀ s, ∀ name ∈ sensitive, Occurs name bearerRequest s →
      name = authorization ∧ s = 16 := by
    intro s name hmem hocc
    obtain ⟨b,hb,-⟩ := hocc.solid (headerName_sensitive name hmem)
    have hlt : s < 48 := (List.getElem?_eq_some_iff.mp hb).1
    exact honly s hlt name hmem ((occurs_iff _ _ _).mp hocc)
  have hreached : Reached bearerRequest := by
    intro s t name hline hmem hocc
    obtain ⟨rfl,rfl⟩ := hplace s name hmem hocc
    refine Or.inr ⟨fun k hk hcr => ?_,Or.inl (.authorization ⟨hocc,id,fun i hi h => ?_⟩)⟩
    · have hcrs : ∀ k < 45, 16 ≤ k → bearerRequest[k]? = some cr → k = 44 := by decide +kernel
      have ht : t ≤ 45 := by
        by_contra hgt
        exact hline.inner 45 (by omega) (by omega) (by decide +kernel)
      have hle : 16 ≤ k := by
        obtain ⟨m,hm,hmk,-⟩ := hk.2
        omega
      have hlt := hk.1
      obtain rfl := hcrs k (by omega) hle hcr
      obtain rfl : t = 45 := by omega
      rcases hline.terminator with ⟨hnot,-⟩ | ⟨-,hnot⟩
      · exact absurd hnot (by decide +kernel)
      · exact hnot (by omega) hcr
    · have hat := (hplace i authorization hmem h).2
      omega
  exact ⟨hreached,(redactHeaders_redacted_iff bearerRequest).2.2.2.mpr hreached⟩

def twoCookies : List UInt8 :=
  octets "HTTP/1.1 200 OK\r\nSet-Cookie: a=1\r\nSet-Cookie: sid=7\r\n\r\n"

/-- The second of two cookies stays readable. -/
theorem second_cookie_not_redacted :
    redactHeaders twoCookies =
      octets "HTTP/1.1 200 OK\r\nSet-Cookie: ***\r\nSet-Cookie: sid=7\r\n\r\n" ∧
    ¬ Redacted twoCookies (redactHeaders twoCookies) := by
  have hout : redactHeaders twoCookies =
      octets "HTTP/1.1 200 OK\r\nSet-Cookie: ***\r\nSet-Cookie: sid=7\r\n\r\n" := by
    decide +kernel
  refine ⟨hout,fun h => ?_⟩
  have hline : TerminatedLine twoCookies 34 51 :=
    ⟨Or.inr (by decide +kernel),by omega,by decide +kernel,by decide +kernel⟩
  have hocc : Occurs setCookie twoCookies 34 := (occurs_iff _ _ _).mpr (by decide +kernel)
  have hvalue : LineValue twoCookies (34 + setCookie.length) 51 46 :=
    ⟨by omega,46,by decide,le_rfl,0x73,by decide +kernel,rfl⟩
  have hstar := h 34 51 setCookie hline (by simp [sensitive]) hocc 46 hvalue
  rw [hout] at hstar
  exact absurd hstar (by decide +kernel)

end Http
end ObsAgent
