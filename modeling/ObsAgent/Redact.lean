import ObsAgent.Common

/-! The redaction of sensitive header values in a captured prefix, and the positions that it
overwrites. -/
namespace ObsAgent
namespace Http

def star : UInt8 := 0x2a
def colon : UInt8 := 0x3a
def cr : UInt8 := 0x0d
def lf : UInt8 := 0x0a

def isBlank (b : UInt8) : Bool := b = 0x20 || b = 0x09
def isEol (b : UInt8) : Bool := b = cr || b = lf

def toAsciiLowercase (b : UInt8) : UInt8 := if 0x41 ≤ b ∧ b ≤ 0x5a then b ||| 0x20 else b

/-- The first window that is the needle, for a needle that is not empty. -/
def findSubslice (hay needle : List UInt8) : Option ℕ :=
  match hay with
  | [] => none
  | b :: bs =>
    if startsWith (b :: bs) needle then some 0 else (findSubslice bs needle).map (· + 1)

/-- The second loop of `redact_header_line`: overwrite up to the end of the line. -/
def starLine : List UInt8 → List UInt8
  | [] => []
  | b :: bs => if isEol b then b :: bs else star :: starLine bs

/-- Both loops of `redact_header_line`: step over blanks, then overwrite. -/
def redactValue : List UInt8 → List UInt8
  | [] => []
  | b :: bs => if isBlank b then b :: redactValue bs else starLine (b :: bs)

def redactHeaderLine (buf nameLc : List UInt8) : List UInt8 :=
  match findSubslice (buf.map toAsciiLowercase) nameLc with
  | none => buf
  | some i => buf.take (i + nameLc.length) ++ redactValue (buf.drop (i + nameLc.length))

def authorization : List UInt8 := octets "authorization:"
def cookie : List UInt8 := octets "cookie:"
def setCookie : List UInt8 := octets "set-cookie:"

def sensitive : List (List UInt8) := [authorization,cookie,setCookie]

def redactHeaders (buf : List UInt8) : List UInt8 := sensitive.foldl redactHeaderLine buf

/-- The name stands at the position, in any letter case. -/
def Occurs (name buf : List UInt8) (j : ℕ) : Prop :=
  ∀ d c, name[d]? = some c → buf[j+d]?.map toAsciiLowercase = some c

/-- No octet from `i` to `k` ends a line. -/
def SameLine (buf : List UInt8) (i k : ℕ) : Prop :=
  ∀ m, i ≤ m → m ≤ k → ∃ b, buf[m]? = some b ∧ isEol b = false

def Solid (buf : List UInt8) (m : ℕ) : Prop := ∃ b, buf[m]? = some b ∧ isBlank b = false

/-- The positions behind `i` and the blanks there, up to the first octet that ends a line. -/
def InValue (buf : List UInt8) (i k : ℕ) : Prop :=
  SameLine buf i k ∧ ∃ m, i ≤ m ∧ m ≤ k ∧ Solid buf m

/-- The buffer with the positions of `hidden` overwritten. -/
structure Starred (hidden : ℕ → Prop) (buf out : List UInt8) : Prop where
  length : out.length = buf.length
  star : ∀ k, hidden k → out[k]? = some star
  keep : ∀ k, ¬ hidden k → out[k]? = buf[k]?

theorem occurs_iff (name buf : List UInt8) (j : ℕ) :
    Occurs name buf j ↔ startsWith ((buf.map toAsciiLowercase).drop j) name = true := by
  rw [startsWith_iff,List.prefix_iff_getElem?]
  constructor
  · intro h d hd
    simpa [List.getElem?_drop,List.getElem?_map] using h d _ (List.getElem?_eq_getElem hd)
  · intro h d c hc
    obtain ⟨hd,rfl⟩ := List.getElem?_eq_some_iff.mp hc
    simpa [List.getElem?_drop,List.getElem?_map] using h d hd

theorem findSubslice_some {hay needle : List UInt8} {j : ℕ}
    (h : findSubslice hay needle = some j) :
    startsWith (hay.drop j) needle = true ∧ ∀ i < j, startsWith (hay.drop i) needle = false := by
  induction hay generalizing j with
  | nil => simp [findSubslice] at h
  | cons b bs ih =>
    rw [findSubslice] at h
    split_ifs at h with hhere
    · obtain rfl := Option.some.inj h
      exact ⟨hhere,fun i hi => absurd hi (Nat.not_lt_zero i)⟩
    · obtain ⟨j',hj,rfl⟩ := Option.map_eq_some_iff.mp h
      obtain ⟨hthere,hfirst⟩ := ih hj
      refine ⟨hthere,fun i hi => ?_⟩
      cases i with
      | zero => simpa using hhere
      | succ i => exact hfirst i (by omega)

theorem findSubslice_none {hay needle : List UInt8} (hne : needle ≠ [])
    (h : findSubslice hay needle = none) (i : ℕ) : startsWith (hay.drop i) needle = false := by
  induction hay generalizing i with
  | nil => cases needle <;> simp_all [startsWith]
  | cons b bs ih =>
    rw [findSubslice] at h
    split_ifs at h with hhere
    cases i with
    | zero => simpa using hhere
    | succ i => exact ih (by simpa using h) i

theorem sameLine_cons_zero (b : UInt8) (bs : List UInt8) :
    SameLine (b :: bs) 0 0 ↔ isEol b = false := by
  constructor
  · intro h
    obtain ⟨b',hb,heol⟩ := h 0 le_rfl le_rfl
    simp_all
  · intro h m _ hm
    obtain rfl : m = 0 := by omega
    exact ⟨b,rfl,h⟩

theorem sameLine_cons_succ (b : UInt8) (bs : List UInt8) (k : ℕ) :
    SameLine (b :: bs) 0 (k+1) ↔ isEol b = false ∧ SameLine bs 0 k := by
  constructor
  · intro h
    refine ⟨(sameLine_cons_zero b bs).mp fun m h0 hm => h m h0 (by omega),fun m _ hm => ?_⟩
    simpa using h (m+1) (Nat.zero_le _) (by omega)
  · rintro ⟨hb,h⟩ m _ hm
    cases m with
    | zero => exact ⟨b,rfl,hb⟩
    | succ m => simpa using h m (Nat.zero_le _) (by omega)

theorem SameLine.of_le {buf : List UInt8} {i k i' k' : ℕ} (h : SameLine buf i k) (hi : i ≤ i')
    (hk : k' ≤ k) : SameLine buf i' k' := fun m hm hm' => h m (by omega) (by omega)

theorem starLine_starred (l : List UInt8) : Starred (SameLine l 0) l (starLine l) := by
  induction l with
  | nil => exact ⟨rfl,fun k h => by simpa using h 0 le_rfl (Nat.zero_le k),fun _ _ => rfl⟩
  | cons b bs ih =>
    rw [starLine]
    split_ifs with hb
    · refine ⟨rfl,fun k h => ?_,fun _ _ => rfl⟩
      have hzero := (sameLine_cons_zero b bs).mp (h.of_le le_rfl (Nat.zero_le k))
      simp_all
    · have heol : isEol b = false := by simpa using hb
      refine ⟨by simp [ih.length],fun k h => ?_,fun k h => ?_⟩
      · cases k with
        | zero => rfl
        | succ k => exact ih.star k ((sameLine_cons_succ b bs k).mp h).2
      · cases k with
        | zero => exact absurd ((sameLine_cons_zero b bs).mpr heol) h
        | succ k => exact ih.keep k fun h' => h ((sameLine_cons_succ b bs k).mpr ⟨heol,h'⟩)

theorem Starred.congr {hidden hidden' : ℕ → Prop} {buf out : List UInt8}
    (h : Starred hidden buf out) (heq : ∀ k, hidden' k ↔ hidden k) : Starred hidden' buf out where
  length := h.length
  star k hk := h.star k ((heq k).mp hk)
  keep k hk := h.keep k fun h' => hk ((heq k).mpr h')

theorem isEol_of_isBlank {b : UInt8} (h : isBlank b = true) : isEol b = false := by
  simp only [isBlank,Bool.or_eq_true,decide_eq_true_eq] at h
  rcases h with rfl | rfl <;> rfl

theorem inValue_cons_solid {b : UInt8} {bs : List UInt8} (h : isBlank b = false) (k : ℕ) :
    InValue (b :: bs) 0 k ↔ SameLine (b :: bs) 0 k :=
  ⟨fun hv => hv.1,fun hs => ⟨hs,0,le_rfl,Nat.zero_le k,b,rfl,h⟩⟩

theorem inValue_cons_blank {b : UInt8} {bs : List UInt8} (h : isBlank b = true) (k : ℕ) :
    InValue (b :: bs) 0 (k+1) ↔ InValue bs 0 k := by
  rw [InValue,InValue,sameLine_cons_succ]
  constructor
  · rintro ⟨⟨-,hs⟩,m,-,hm,b',hb,hsolid⟩
    cases m with
    | zero => simp_all
    | succ m => exact ⟨hs,m,Nat.zero_le m,by omega,b',hb,hsolid⟩
  · rintro ⟨hs,m,-,hm,hsolid⟩
    exact ⟨⟨isEol_of_isBlank h,hs⟩,m+1,Nat.zero_le _,by omega,hsolid⟩

theorem redactValue_starred (l : List UInt8) : Starred (InValue l 0) l (redactValue l) := by
  induction l with
  | nil => exact ⟨rfl,fun k h => by simpa using h.1 0 le_rfl (Nat.zero_le k),fun _ _ => rfl⟩
  | cons b bs ih =>
    rw [redactValue]
    split_ifs with hb
    · refine ⟨by simp [ih.length],fun k h => ?_,fun k h => ?_⟩
      · cases k with
        | zero =>
          obtain ⟨m,-,hm,b',hb',hsolid⟩ := h.2
          obtain rfl : m = 0 := by omega
          simp_all
        | succ k => exact ih.star k ((inValue_cons_blank hb k).mp h)
      · cases k with
        | zero => rfl
        | succ k => exact ih.keep k fun h' => h ((inValue_cons_blank hb k).mpr h')
    · exact (starLine_starred (b :: bs)).congr (inValue_cons_solid (by simpa using hb))

theorem inValue_drop (buf : List UInt8) (i k : ℕ) :
    InValue (buf.drop i) 0 k ↔ InValue buf i (i+k) := by
  have hget : ∀ m, (buf.drop i)[m]? = buf[i+m]? := fun m => by rw [List.getElem?_drop]
  constructor
  · rintro ⟨hs,m,-,hm,b,hb,hsolid⟩
    refine ⟨fun n hi hk => ?_,i+m,by omega,by omega,b,by rwa [← hget],hsolid⟩
    obtain ⟨c,hc,heol⟩ := hs (n-i) (Nat.zero_le _) (by omega)
    rw [hget,show i + (n-i) = n by omega] at hc
    exact ⟨c,hc,heol⟩
  · rintro ⟨hs,m,hi,hm,b,hb,hsolid⟩
    refine ⟨fun n _ hk => ?_,m-i,Nat.zero_le _,by omega,b,?_,hsolid⟩
    · obtain ⟨c,hc,heol⟩ := hs (i+n) (by omega) (by omega)
      exact ⟨c,by rwa [hget],heol⟩
    · rwa [hget,show i + (m-i) = m by omega]

theorem redactValue_behind (buf : List UInt8) {i : ℕ} (hi : i ≤ buf.length) :
    Starred (InValue buf i) buf (buf.take i ++ redactValue (buf.drop i)) := by
  have hstarred := redactValue_starred (buf.drop i)
  have hlen : (buf.take i).length = i := by rw [List.length_take,Nat.min_eq_left hi]
  have hbehind : ∀ k, i ≤ k → (buf.take i ++ redactValue (buf.drop i))[k]? =
      (redactValue (buf.drop i))[k-i]? := fun k hk => by
    rw [List.getElem?_append_right (by omega),hlen]
  refine ⟨?_,fun k h => ?_,fun k h => ?_⟩
  · rw [List.length_append,hlen,hstarred.length,List.length_drop]
    omega
  · obtain ⟨m,him,hmk,-⟩ := h.2
    rw [hbehind k (by omega)]
    apply hstarred.star
    rwa [inValue_drop,show i + (k-i) = k by omega]
  · rcases Nat.lt_or_ge k i with hlt | hge
    · rw [List.getElem?_append_left (by omega),List.getElem?_take,if_pos hlt]
    · rw [hbehind k hge,hstarred.keep _ ?_,List.getElem?_drop,show i + (k-i) = k by omega]
      rwa [inValue_drop,show i + (k-i) = k by omega]

/-- A name that ends in its only colon and has no blank, line end or star. -/
structure HeaderName (name : List UInt8) : Prop where
  plain : ∀ c ∈ name, isBlank c = false ∧ isEol c = false ∧ c ≠ star
  last : name[name.length-1]? = some colon
  inner : ∀ d < name.length - 1, name[d]? ≠ some colon

theorem headerName_sensitive : ∀ name ∈ sensitive, HeaderName name := by
  intro name hname
  simp only [sensitive,List.mem_cons,List.not_mem_nil,or_false] at hname
  rcases hname with rfl | rfl | rfl <;>
    exact ⟨by decide +kernel,by decide +kernel,by decide +kernel⟩

/-- A union of values, each of them behind a colon. -/
def Veil (buf : List UInt8) (hidden : ℕ → Prop) : Prop :=
  ∀ k, hidden k → ∃ i, 0 < i ∧ buf[i-1]? = some colon ∧ InValue buf i k ∧
    ∀ k', InValue buf i k' → hidden k'

section Names

variable {name buf out : List UInt8} {hidden : ℕ → Prop} {j : ℕ}

theorem HeaderName.pos (h : HeaderName name) : 0 < name.length := by
  by_contra hzero
  have hnil : name = [] := List.length_eq_zero_iff.mp (by omega)
  have hlast := h.last
  rw [hnil] at hlast
  simp at hlast

theorem Occurs.plain (hname : HeaderName name) (h : Occurs name buf j) {d : ℕ}
    (hd : d < name.length) :
    ∃ b, buf[j+d]? = some b ∧ isBlank b = false ∧ isEol b = false ∧ b ≠ star := by
  have hlower : ∀ b : UInt8, isBlank b = true ∨ isEol b = true ∨ b = star →
      toAsciiLowercase b = b := by
    intro b hb
    simp only [isBlank,isEol,Bool.or_eq_true,decide_eq_true_eq] at hb
    rcases hb with (rfl | rfl) | (rfl | rfl) | rfl <;> rfl
  have hc := h d _ (List.getElem?_eq_getElem hd)
  obtain ⟨b,hb,hlow⟩ := Option.map_eq_some_iff.mp hc
  obtain ⟨hblank,heol,hstar⟩ := hname.plain _ (List.getElem_mem hd)
  rw [← hlow] at hblank heol hstar
  refine ⟨b,hb,?_,?_,?_⟩
  · by_contra hne
    have hb' : isBlank b = true := by simpa using hne
    rw [hlower b (Or.inl hb')] at hblank
    simp_all
  · by_contra hne
    have hb' : isEol b = true := by simpa using hne
    rw [hlower b (Or.inr (Or.inl hb'))] at heol
    simp_all
  · rintro rfl
    rw [hlower star (Or.inr (Or.inr rfl))] at hstar
    exact hstar rfl

theorem Occurs.solid (hname : HeaderName name) (h : Occurs name buf j) : Solid buf j := by
  obtain ⟨b,hb,hblank,-⟩ := h.plain hname hname.pos
  exact ⟨b,hb,hblank⟩

theorem Occurs.not_inside (hname : HeaderName name) (h : Occurs name buf j) {i : ℕ}
    (hcolon : buf[i-1]? = some colon) (hpos : 0 < i) : ¬ (j < i ∧ i < j + name.length) := by
  rintro ⟨hlt,hle⟩
  have hinner := hname.inner (i-1-j) (by omega)
  have hc := h (i-1-j) _ (List.getElem?_eq_getElem (by omega))
  rw [show j + (i-1-j) = i-1 by omega,hcolon] at hc
  apply hinner
  rw [List.getElem?_eq_getElem (show i-1-j < name.length by omega),← hc]
  rfl

theorem Occurs.inValue_start (hname : HeaderName name) (h : Occurs name buf j) {i d : ℕ}
    (hcolon : buf[i-1]? = some colon) (hpos : 0 < i) (hd : d < name.length)
    (hv : InValue buf i (j+d)) : InValue buf i j := by
  obtain ⟨m,him,hmd,-⟩ := hv.2
  have hi : i ≤ j := by
    by_contra hlt
    exact h.not_inside hname hcolon hpos ⟨by omega,by omega⟩
  exact ⟨hv.1.of_le le_rfl (by omega),j,hi,le_rfl,h.solid hname⟩

theorem Veil.start (hveil : Veil buf hidden) (hname : HeaderName name) (h : Occurs name buf j)
    {d : ℕ} (hd : d < name.length) (hk : hidden (j+d)) : hidden j := by
  obtain ⟨i,hpos,hcolon,hv,hall⟩ := hveil _ hk
  exact hall j (h.inValue_start hname hcolon hpos hd hv)

/-- The names that are left are those outside the values. -/
theorem occurs_starred_iff (hname : HeaderName name) (hveil : Veil buf hidden)
    (hout : Starred hidden buf out) (j : ℕ) :
    Occurs name out j ↔ Occurs name buf j ∧ ¬ hidden j := by
  constructor
  · intro h
    have hclear : ∀ d < name.length, ¬ hidden (j+d) := by
      intro d hd hk
      obtain ⟨b,hb,-,-,hstar⟩ := h.plain hname hd
      rw [hout.star _ hk] at hb
      exact hstar (Option.some.inj hb).symm
    refine ⟨fun d c hc => ?_,hclear 0 hname.pos⟩
    obtain ⟨hd,-⟩ := List.getElem?_eq_some_iff.mp hc
    rw [← hout.keep _ (hclear d hd)]
    exact h d c hc
  · rintro ⟨h,hj⟩ d c hc
    obtain ⟨hd,-⟩ := List.getElem?_eq_some_iff.mp hc
    rw [hout.keep _ fun hk => hj (hveil.start hname h hd hk)]
    exact h d c hc

theorem sameLine_starred_iff (hveil : Veil buf hidden) (hout : Starred hidden buf out) (i k : ℕ) :
    SameLine out i k ↔ SameLine buf i k := by
  have hpoint : ∀ m : ℕ, (∃ b, out[m]? = some b ∧ isEol b = false) ↔
      ∃ b, buf[m]? = some b ∧ isEol b = false := by
    intro m
    by_cases hm : hidden m
    · obtain ⟨i,-,-,hv,-⟩ := hveil m hm
      obtain ⟨m',him,hmm,-⟩ := hv.2
      rw [hout.star m hm]
      exact ⟨fun _ => hv.1 m (by omega) le_rfl,fun _ => ⟨star,rfl,rfl⟩⟩
    · rw [hout.keep m hm]
  exact forall_congr' fun m => imp_congr_right fun _ => imp_congr_right fun _ => hpoint m

/-- The value behind a name that is left is the same as in the buffer. -/
theorem inValue_starred_iff (hname : HeaderName name) (hveil : Veil buf hidden)
    (hout : Starred hidden buf out) (h : Occurs name buf j) (hj : ¬ hidden j) (k : ℕ) :
    InValue out (j + name.length) k ↔ InValue buf (j + name.length) k := by
  rw [InValue,InValue,sameLine_starred_iff hveil hout]
  refine and_congr_right fun _ => ⟨?_,?_⟩
  · rintro ⟨m,hm,hmk,b,hb,hblank⟩
    by_cases hmh : hidden m
    · obtain ⟨i,hpos,hcolon,hv,hall⟩ := hveil m hmh
      obtain ⟨m',him,hmm,hsolid⟩ := hv.2
      have hi : j + name.length ≤ i := by
        by_contra hlt
        rcases Nat.lt_or_ge j i with hji | hij
        · exact h.not_inside hname hcolon hpos ⟨hji,by omega⟩
        · exact hj (hall j ⟨hv.1.of_le le_rfl (by omega),j,hij,le_rfl,h.solid hname⟩)
      exact ⟨m',by omega,by omega,hsolid⟩
    · exact ⟨m,hm,hmk,b,by rwa [← hout.keep m hmh],hblank⟩
  · rintro ⟨m,hm,hmk,b,hb,hblank⟩
    by_cases hmh : hidden m
    · exact ⟨m,hm,hmk,star,hout.star m hmh,rfl⟩
    · exact ⟨m,hm,hmk,b,by rwa [hout.keep m hmh],hblank⟩

/-- A name occurs at the position, outside the hidden ones, and earlier only inside them. -/
def FirstOutside (name buf : List UInt8) (hidden : ℕ → Prop) (j : ℕ) : Prop :=
  Occurs name buf j ∧ ¬ hidden j ∧ ∀ i < j, Occurs name buf i → hidden i

/-- The value behind the first name outside the hidden positions. -/
def FirstValue (name buf : List UInt8) (hidden : ℕ → Prop) (k : ℕ) : Prop :=
  ∃ j, FirstOutside name buf hidden j ∧ InValue buf (j + name.length) k

theorem FirstOutside.eq {i : ℕ} (hi : FirstOutside name buf hidden i)
    (hj : FirstOutside name buf hidden j) : i = j := by
  rcases Nat.lt_trichotomy i j with hlt | heq | hgt
  · exact absurd (hj.2.2 i hlt hi.1) hi.2.1
  · exact heq
  · exact absurd (hi.2.2 j hgt hj.1) hj.2.1

theorem Starred.trans {hidden' : ℕ → Prop} {res : List UInt8} (h : Starred hidden buf out)
    (h' : Starred hidden' out res) : Starred (fun k => hidden k ∨ hidden' k) buf res where
  length := h'.length.trans h.length
  star k hk := by
    by_cases hk' : hidden' k
    · exact h'.star k hk'
    · rw [h'.keep k hk']
      exact h.star k (hk.resolve_right hk')
  keep k hk := by
    rw [not_or] at hk
    rw [h'.keep k hk.2,h.keep k hk.1]

theorem Occurs.colon (hname : HeaderName name) (h : Occurs name buf j) :
    buf[j + name.length - 1]? = some colon := by
  have hpos := hname.pos
  obtain ⟨b,hb,hlow⟩ := Option.map_eq_some_iff.mp (h _ _ hname.last)
  have hcolon : b = Http.colon := by
    simp only [toAsciiLowercase] at hlow
    split_ifs at hlow with hupper
    · have hnat : b.toNat ||| 32 = 58 := congrArg UInt8.toNat hlow
      have hlow' : 65 ≤ b.toNat := UInt8.le_iff_toNat_le.mp hupper.1
      have hor := Nat.left_le_or (n := b.toNat) (m := 32)
      omega
    · exact hlow
  rw [show j + name.length - 1 = j + (name.length - 1) by omega,hb,hcolon]

theorem redactHeaderLine_starred (hname : HeaderName name) (hveil : Veil buf hidden)
    (hout : Starred hidden buf out) :
    Starred (fun k => hidden k ∨ FirstValue name buf hidden k) buf (redactHeaderLine out name) := by
  have hocc := occurs_starred_iff hname hveil hout
  have hfind : ∀ i, Occurs name out i ↔
      startsWith ((out.map toAsciiLowercase).drop i) name = true := occurs_iff name out
  rw [redactHeaderLine]
  cases hf : findSubslice (out.map toAsciiLowercase) name with
  | none =>
    have hne : name ≠ [] := List.ne_nil_of_length_pos hname.pos
    refine hout.congr fun k => or_iff_left ?_
    rintro ⟨j,hfirst,-⟩
    have hno := findSubslice_none hne hf j
    rw [← Bool.not_eq_true,← hfind,hocc] at hno
    exact hno ⟨hfirst.1,hfirst.2.1⟩
  | some j =>
    obtain ⟨hat,hbefore⟩ := findSubslice_some hf
    have hj : Occurs name out j := (hfind j).mpr hat
    obtain ⟨hjbuf,hjout⟩ := (hocc j).mp hj
    have hfirst : FirstOutside name buf hidden j := by
      refine ⟨hjbuf,hjout,fun i hi h => ?_⟩
      by_contra hclear
      have hno := hbefore i hi
      rw [← Bool.not_eq_true,← hfind,hocc] at hno
      exact hno ⟨h,hclear⟩
    have hlen : j + name.length ≤ out.length := by
      obtain ⟨hlt,-⟩ := List.getElem?_eq_some_iff.mp (hj.colon hname)
      omega
    refine (hout.trans (redactValue_behind out hlen)).congr fun k => or_congr_right ?_
    rw [inValue_starred_iff hname hveil hout hjbuf hjout]
    exact ⟨fun ⟨i,hi,hv⟩ => hi.eq hfirst ▸ hv,fun hv => ⟨j,hfirst,hv⟩⟩

theorem Veil.firstValue (hname : HeaderName name) (hveil : Veil buf hidden) :
    Veil buf fun k => hidden k ∨ FirstValue name buf hidden k := by
  rintro k (hk | ⟨j,hfirst,hv⟩)
  · obtain ⟨i,hpos,hcolon,hv,hall⟩ := hveil k hk
    exact ⟨i,hpos,hcolon,hv,fun k' hk' => Or.inl (hall k' hk')⟩
  · have hpos := hname.pos
    exact ⟨j + name.length,by omega,hfirst.1.colon hname,hv,fun k' hk' => Or.inr ⟨j,hfirst,hk'⟩⟩

end Names

def hiddenAuthorization (buf : List UInt8) : ℕ → Prop :=
  FirstValue authorization buf fun _ => False

def hiddenCookie (buf : List UInt8) (k : ℕ) : Prop :=
  hiddenAuthorization buf k ∨ FirstValue cookie buf (hiddenAuthorization buf) k

def hiddenSetCookie (buf : List UInt8) (k : ℕ) : Prop :=
  hiddenCookie buf k ∨ FirstValue setCookie buf (hiddenCookie buf) k

theorem redactHeaders_starred (buf : List UInt8) :
    Starred (hiddenSetCookie buf) buf (redactHeaders buf) ∧ Veil buf (hiddenSetCookie buf) := by
  have hauth : HeaderName authorization := headerName_sensitive _ (by simp [sensitive])
  have hcookie : HeaderName cookie := headerName_sensitive _ (by simp [sensitive])
  have hset : HeaderName setCookie := headerName_sensitive _ (by simp [sensitive])
  have hveil : Veil buf fun _ => False := fun _ h => h.elim
  have hstart : Starred (fun _ => False) buf buf := ⟨rfl,fun _ h => h.elim,fun _ _ => rfl⟩
  have hor : (fun k => False ∨ FirstValue authorization buf (fun _ => False) k) =
      hiddenAuthorization buf := funext fun k => propext (or_iff_right not_false)
  have hveil₁ : Veil buf (hiddenAuthorization buf) := hor ▸ hveil.firstValue hauth
  have hone : Starred (hiddenAuthorization buf) buf _ :=
    hor ▸ redactHeaderLine_starred hauth hveil hstart
  have hveil₂ : Veil buf (hiddenCookie buf) := hveil₁.firstValue hcookie
  have htwo : Starred (hiddenCookie buf) buf _ := redactHeaderLine_starred hcookie hveil₁ hone
  exact ⟨redactHeaderLine_starred hset hveil₂ htwo,hveil₂.firstValue hset⟩

end Http
end ObsAgent
