import Mathlib.Data.List.TakeWhile
import Mathlib.Tactic

/-! JSON texts: values, a reader of RFC 8259, and how texts are put together so that reading them
gives the value back.  Strings may be written in any way that is read as the string. -/
namespace JsonText

def allDigits (cs : List Char) : Bool := cs ≠ [] && cs.all Char.isDigit

def isExponent : List Char → Bool
  | [] => true
  | e :: '+' :: cs => (e = 'e' || e = 'E') && allDigits cs
  | e :: '-' :: cs => (e = 'e' || e = 'E') && allDigits cs
  | e :: cs => (e = 'e' || e = 'E') && allDigits cs

def isFraction : List Char → Bool
  | '.' :: cs => allDigits (cs.takeWhile Char.isDigit) && isExponent (cs.dropWhile Char.isDigit)
  | cs => isExponent cs

/-- A leading zero stands alone. -/
def isMagnitude (cs : List Char) : Bool :=
  let int := cs.takeWhile Char.isDigit
  (int = ['0'] || (int ≠ [] && int.head? ≠ some '0')) && isFraction (cs.dropWhile Char.isDigit)

def isNumber : List Char → Bool
  | '-' :: cs => isMagnitude cs
  | cs => isMagnitude cs

@[ext] structure NumberToken where
  chars : List Char
  ok : isNumber chars = true

def tokenChar (c : Char) : Bool :=
  c.isDigit || c = '-' || c = '+' || c = '.' || c = 'e' || c = 'E'

theorem tokenChar_of_allDigits {cs : List Char} (h : allDigits cs = true) :
    ∀ c ∈ cs, tokenChar c = true := by
  intro c hc
  have hall := (Bool.and_eq_true_iff.mp h).2
  simp [tokenChar,List.all_eq_true.mp hall c hc]

theorem tokenChar_of_isExponent {cs : List Char} (h : isExponent cs = true) :
    ∀ c ∈ cs, tokenChar c = true := by
  have hmark : ∀ {e : Char}, (e = 'e' || e = 'E') = true → tokenChar e = true := by
    intro e he
    rcases Bool.or_eq_true_iff.mp he with he | he <;> simp [tokenChar,of_decide_eq_true he]
  unfold isExponent at h
  split at h
  · nofun
  · next e cs =>
    obtain ⟨he,hcs⟩ := Bool.and_eq_true_iff.mp h
    intro c hc
    rcases List.mem_cons.mp hc with rfl | hc
    · exact hmark he
    · rcases List.mem_cons.mp hc with rfl | hc
      · rfl
      · exact tokenChar_of_allDigits hcs c hc
  · next e cs =>
    obtain ⟨he,hcs⟩ := Bool.and_eq_true_iff.mp h
    intro c hc
    rcases List.mem_cons.mp hc with rfl | hc
    · exact hmark he
    · rcases List.mem_cons.mp hc with rfl | hc
      · rfl
      · exact tokenChar_of_allDigits hcs c hc
  · next e cs _ _ =>
    obtain ⟨he,hcs⟩ := Bool.and_eq_true_iff.mp h
    intro c hc
    rcases List.mem_cons.mp hc with rfl | hc
    · exact hmark he
    · exact tokenChar_of_allDigits hcs c hc

theorem tokenChar_of_digits_then {cs : List Char}
    (h : ∀ c ∈ cs.dropWhile Char.isDigit, tokenChar c = true) : ∀ c ∈ cs, tokenChar c = true := by
  intro c hc
  rw [← List.takeWhile_append_dropWhile (p := Char.isDigit) (l := cs)] at hc
  rcases List.mem_append.mp hc with hc | hc
  · simp [tokenChar,List.mem_takeWhile_imp hc]
  · exact h c hc

theorem tokenChar_of_isFraction {cs : List Char} (h : isFraction cs = true) :
    ∀ c ∈ cs, tokenChar c = true := by
  unfold isFraction at h
  split at h
  · next cs =>
    intro c hc
    rcases List.mem_cons.mp hc with rfl | hc
    · rfl
    · exact tokenChar_of_digits_then
        (tokenChar_of_isExponent (Bool.and_eq_true_iff.mp h).2) c hc
  · exact tokenChar_of_isExponent h

theorem tokenChar_of_isMagnitude {cs : List Char} (h : isMagnitude cs = true) :
    ∀ c ∈ cs, tokenChar c = true :=
  tokenChar_of_digits_then (tokenChar_of_isFraction (Bool.and_eq_true_iff.mp h).2)

theorem NumberToken.tokenChar (t : NumberToken) : ∀ c ∈ t.chars, JsonText.tokenChar c = true := by
  obtain ⟨cs,h⟩ := t
  unfold isNumber at h
  split at h
  · next cs =>
    intro c hc
    rcases List.mem_cons.mp hc with rfl | hc
    · rfl
    · exact tokenChar_of_isMagnitude h c hc
  · exact tokenChar_of_isMagnitude h

theorem NumberToken.ne_nil (t : NumberToken) : t.chars ≠ [] := by
  intro h
  have hok := t.ok
  rw [h] at hok
  exact absurd hok (by decide)

inductive Json
  | null
  | bool (b : Bool)
  | num (token : NumberToken)
  | str (s : List Char)
  | arr (items : List Json)
  | obj (members : List (List Char × Json))

def hexDigit (n : ℕ) : Char := "0123456789abcdef".toList.getD n '0'

/-- One character of a string, escaped where it has to be. -/
def escapeChar (c : Char) : List Char :=
  if c = '"' then ['\\','"']
  else if c = '\\' then ['\\','\\']
  else if c = '\x08' then ['\\','b']
  else if c = '\x0c' then ['\\','f']
  else if c = '\n' then ['\\','n']
  else if c = '\r' then ['\\','r']
  else if c = '\t' then ['\\','t']
  else if c.toNat < 32 then ['\\','u','0','0',hexDigit (c.toNat/16),hexDigit (c.toNat % 16)]
  else [c]

def quote (s : List Char) : List Char := '"' :: (s.flatMap escapeChar ++ ['"'])

def isBlank (c : Char) : Bool := c = ' ' || c = '\t' || c = '\n' || c = '\r'

def skipBlanks (cs : List Char) : List Char := cs.dropWhile isBlank

def hexValue (c : Char) : Option ℕ :=
  if c.isDigit then some (c.toNat - '0'.toNat)
  else if 'a' ≤ c && c ≤ 'f' then some (c.toNat - 'a'.toNat + 10)
  else if 'A' ≤ c && c ≤ 'F' then some (c.toNat - 'A'.toNat + 10)
  else none

/-- A character by its number; the halves of a pair are not read. -/
def readHex (a b c d : Char) : Option Char := do
  let n := (((← hexValue a)*16 + (← hexValue b))*16 + (← hexValue c))*16 + (← hexValue d)
  if n.isValidChar then some (Char.ofNat n) else none

def unescape : Char → Option Char
  | '"' => some '"'
  | '\\' => some '\\'
  | '/' => some '/'
  | 'b' => some '\x08'
  | 'f' => some '\x0c'
  | 'n' => some '\n'
  | 'r' => some '\r'
  | 't' => some '\t'
  | _ => none

/-- A string behind its opening quote. -/
def readString : List Char → Option (List Char × List Char)
  | [] => none
  | '"' :: cs => some ([],cs)
  | '\\' :: 'u' :: a :: b :: c :: d :: cs => do
    let x ← readHex a b c d
    let (s,rest) ← readString cs
    some (x :: s,rest)
  | '\\' :: e :: cs => do
    let x ← unescape e
    let (s,rest) ← readString cs
    some (x :: s,rest)
  | c :: cs =>
    if c.toNat < 32 ∨ c = '\\' then none
    else do
      let (s,rest) ← readString cs
      some (c :: s,rest)

def readNumber (cs : List Char) : Option (Json × List Char) :=
  if h : isNumber (cs.takeWhile tokenChar) = true then
    some (.num ⟨_,h⟩,cs.dropWhile tokenChar)
  else none

mutual

def readValue : ℕ → List Char → Option (Json × List Char)
  | 0,_ => none
  | fuel+1,cs =>
    match skipBlanks cs with
    | '"' :: rest => (readString rest).map fun q => (.str q.1,q.2)
    | '[' :: rest =>
      match skipBlanks rest with
      | ']' :: rest => some (.arr [],rest)
      | rest => (readItems fuel rest).map fun q => (.arr q.1,q.2)
    | '\x7b' :: rest =>
      match skipBlanks rest with
      | '\x7d' :: rest => some (.obj [],rest)
      | rest => (readMembers fuel rest).map fun q => (.obj q.1,q.2)
    | 'n' :: 'u' :: 'l' :: 'l' :: rest => some (.null,rest)
    | 't' :: 'r' :: 'u' :: 'e' :: rest => some (.bool true,rest)
    | 'f' :: 'a' :: 'l' :: 's' :: 'e' :: rest => some (.bool false,rest)
    | rest => readNumber rest

def readItems : ℕ → List Char → Option (List Json × List Char)
  | 0,_ => none
  | fuel+1,cs => do
    let (v,rest) ← readValue fuel cs
    match skipBlanks rest with
    | ',' :: rest =>
      let (vs,rest) ← readItems fuel rest
      some (v :: vs,rest)
    | ']' :: rest => some ([v],rest)
    | _ => none

def readMembers : ℕ → List Char → Option (List (List Char × Json) × List Char)
  | 0,_ => none
  | fuel+1,cs => do
    let (name,rest) ←
      match skipBlanks cs with
      | '"' :: rest => readString rest
      | _ => none
    let (v,rest) ←
      match skipBlanks rest with
      | ':' :: rest => readValue fuel rest
      | _ => none
    match skipBlanks rest with
    | ',' :: rest =>
      let (ms,rest) ← readMembers fuel rest
      some ((name,v) :: ms,rest)
    | '\x7d' :: rest => some ([(name,v)],rest)
    | _ => none

end

/-- The value of a text; blanks may stand around it. -/
def parse (text : List Char) : Option Json :=
  match readValue (text.length + 1) text with
  | some (v,rest) => if skipBlanks rest = [] then some v else none
  | none => none

theorem readHex_control : ∀ n < 32,
    readHex '0' '0' (hexDigit (n/16)) (hexDigit (n % 16)) = some (Char.ofNat n) := by decide

theorem readString_plain {c : Char} (cs : List Char) (hquote : c ≠ '"') (hslash : c ≠ '\\')
    (hcontrol : ¬c.toNat < 32) :
    readString (c :: cs) = (readString cs).map fun q => (c :: q.1,q.2) := by
  have hgood : ¬(c.toNat < 32 ∨ c = '\\') := by simp [hcontrol,hslash]
  rw [readString.eq_def]
  split
  · next h => cases h
  · next h => cases h; contradiction
  · next h => cases h; contradiction
  · next h => cases h; contradiction
  · next h =>
    cases h
    rw [if_neg hgood]
    cases readString cs <;> rfl

theorem readString_escape {e x : Char} (cs : List Char) (he : e ≠ 'u') (hx : unescape e = some x) :
    readString ('\\' :: e :: cs) = (readString cs).map fun q => (x :: q.1,q.2) := by
  rw [readString.eq_def]
  split
  · next h => cases h
  · next h => cases h
  · next h => cases h; contradiction
  · next h =>
    cases h
    rw [hx]
    cases readString cs <;> rfl
  · next h => cases h; simp_all

theorem readString_escapeChar (c : Char) (cs : List Char) :
    readString (escapeChar c ++ cs) = (readString cs).map fun q => (c :: q.1,q.2) := by
  unfold escapeChar
  split_ifs with h1 h2 h3 h4 h5 h6 h7 h8
  · rw [h1]
    exact readString_escape cs (by decide) rfl
  · rw [h2]
    exact readString_escape cs (by decide) rfl
  · rw [h3]
    exact readString_escape cs (by decide) rfl
  · rw [h4]
    exact readString_escape cs (by decide) rfl
  · rw [h5]
    exact readString_escape cs (by decide) rfl
  · rw [h6]
    exact readString_escape cs (by decide) rfl
  · rw [h7]
    exact readString_escape cs (by decide) rfl
  · have hread := readHex_control c.toNat h8
    rw [Char.ofNat_toNat] at hread
    change readString ('\\' :: 'u' :: '0' :: '0' :: _ :: _ :: cs) = _
    rw [readString,hread]
    cases readString cs <;> rfl
  · exact readString_plain cs h1 h2 h8

theorem readString_quoted (s rest : List Char) :
    readString (s.flatMap escapeChar ++ '"' :: rest) = some (s,rest) := by
  induction s with
  | nil => rfl
  | cons c s ih =>
    rw [List.flatMap_cons,List.append_assoc,readString_escapeChar,ih]
    rfl

theorem skipBlanks_of_not_blank {c : Char} (cs : List Char) (h : isBlank c = false) :
    skipBlanks (c :: cs) = c :: cs := by
  simp [skipBlanks,h]

/-- What may follow a number: the end, or a character that no number has. -/
def Ended (rest : List Char) : Prop := rest.head?.all fun c => !tokenChar c

theorem readNumber_token (t : NumberToken) {rest : List Char} (h : Ended rest) :
    readNumber (t.chars ++ rest) = some (.num t,rest) := by
  have hrest : rest.takeWhile tokenChar = [] ∧ rest.dropWhile tokenChar = rest := by
    cases rest with
    | nil => exact ⟨rfl,rfl⟩
    | cons c cs =>
      have hc : tokenChar c = false := by simpa [Ended] using h
      simp [hc]
  have htake : (t.chars ++ rest).takeWhile tokenChar = t.chars := by
    rw [List.takeWhile_append_of_pos t.tokenChar,hrest.1,List.append_nil]
  have hdrop : (t.chars ++ rest).dropWhile tokenChar = rest := by
    rw [List.dropWhile_append_of_pos t.tokenChar,hrest.2]
  have hok : isNumber ((t.chars ++ rest).takeWhile tokenChar) = true := by rw [htake,t.ok]
  rw [readNumber,dif_pos hok,hdrop]
  congr 3
  exact NumberToken.ext htake

/-- A text of a string: it is read as the string, whatever follows. -/
def IsString (t s : List Char) : Prop :=
  ∃ body, t = '"' :: body ∧ ∀ rest, readString (body ++ rest) = some (s,rest)

theorem isString_quote (s : List Char) : IsString (quote s) s := by
  refine ⟨s.flatMap escapeChar ++ ['"'],rfl,fun rest => ?_⟩
  rw [List.append_assoc]
  exact readString_quoted s rest

/-- A text of a value: it is read as the value, whatever follows that is no part of a number. -/
structure IsText (t : List Char) (v : Json) : Prop where
  head : ∃ c cs, t = c :: cs ∧ isBlank c = false ∧ c ≠ ']' ∧ c ≠ '\x7d'
  reads : ∀ fuel rest, t.length ≤ fuel → Ended rest → readValue fuel (t ++ rest) = some (v,rest)

theorem IsText.skipBlanks {t : List Char} {v : Json} (h : IsText t v) (rest : List Char) :
    JsonText.skipBlanks (t ++ rest) = t ++ rest := by
  obtain ⟨c,cs,rfl,hblank,-⟩ := h.head
  exact skipBlanks_of_not_blank _ hblank

theorem IsText.length_pos {t : List Char} {v : Json} (h : IsText t v) : 0 < t.length := by
  obtain ⟨c,cs,rfl,-⟩ := h.head
  exact Nat.succ_pos _

theorem parse_of_isText {t : List Char} {v : Json} (h : IsText t v) : parse t = some v := by
  have hread := h.reads (t.length + 1) [] (by omega) rfl
  rw [List.append_nil] at hread
  rw [parse,hread]
  rfl

theorem isText_true : IsText ['t','r','u','e'] (.bool true) where
  head := ⟨'t',_,rfl,rfl,by decide,by decide⟩
  reads fuel rest hfuel _ := by
    obtain ⟨fuel,rfl⟩ := Nat.exists_eq_add_of_le' hfuel
    rfl

theorem isText_str {t s : List Char} (h : IsString t s) : IsText t (.str s) := by
  obtain ⟨body,rfl,hbody⟩ := h
  refine ⟨⟨'"',body,rfl,rfl,by decide,by decide⟩,fun fuel rest hfuel _ => ?_⟩
  obtain ⟨fuel,rfl⟩ := Nat.exists_eq_add_of_le' (Nat.lt_of_lt_of_le (Nat.succ_pos _) hfuel)
  rw [readValue,List.cons_append,skipBlanks_of_not_blank _ rfl]
  simp only [hbody,Option.map_some]

theorem isText_num (t : NumberToken) : IsText t.chars (.num t) := by
  obtain ⟨c,cs,hcs⟩ := List.exists_cons_of_ne_nil t.ne_nil
  have htoken : tokenChar c = true := t.tokenChar c (by rw [hcs]; exact List.mem_cons_self)
  have hblank : isBlank c = false := by
    by_contra hblank
    rw [Bool.not_eq_false] at hblank
    simp only [isBlank,Bool.or_eq_true,decide_eq_true_eq] at hblank
    rcases hblank with ((rfl | rfl) | rfl) | rfl <;> exact absurd htoken (by decide)
  refine ⟨⟨c,cs,hcs,hblank,?_,?_⟩,fun fuel rest hfuel hrest => ?_⟩
  · rintro rfl
    exact absurd htoken (by decide)
  · rintro rfl
    exact absurd htoken (by decide)
  have hread := readNumber_token t hrest
  rw [hcs] at hread hfuel ⊢
  obtain ⟨fuel,rfl⟩ := Nat.exists_eq_add_of_le' (Nat.lt_of_lt_of_le (Nat.succ_pos _) hfuel)
  -- no other text starts with a character of a number
  have hstart : ∀ {d ds}, c :: cs ++ rest = d :: ds → tokenChar d = false → False := by
    intro d ds h hd
    rw [← (List.cons.inj h).1,htoken] at hd
    cases hd
  rw [readValue,List.cons_append,skipBlanks_of_not_blank _ hblank]
  split
  · next h => exact (hstart h rfl).elim
  · next h => exact (hstart h rfl).elim
  · next h => exact (hstart h rfl).elim
  · next h => exact (hstart h rfl).elim
  · next h => exact (hstart h rfl).elim
  · next h => exact (hstart h rfl).elim
  · exact hread

theorem ended_of_not_token {c : Char} (cs : List Char) (h : tokenChar c = false) :
    Ended (c :: cs) := by
  simp [Ended,h]

theorem intercalate_comma (t u : List Char) (ts : List (List Char)) :
    [','].intercalate (t :: u :: ts) = t ++ ',' :: [','].intercalate (u :: ts) := by
  rw [List.intercalate_cons_cons,List.append_assoc,List.singleton_append]

theorem readItems_texts {ts : List (List Char)} {vs : List Json} (hs : List.Forall₂ IsText ts vs) :
    ∀ {t : List Char} {v : Json} (fuel : ℕ) (rest : List Char), IsText t v →
      ([','].intercalate (t :: ts)).length < fuel →
      readItems fuel ([','].intercalate (t :: ts) ++ ']' :: rest) = some (v :: vs,rest) := by
  induction hs with
  | nil =>
    intro t v fuel rest ht hfuel
    rw [List.intercalate_singleton] at hfuel ⊢
    obtain ⟨fuel,rfl⟩ := Nat.exists_eq_add_of_le' (Nat.lt_of_le_of_lt (Nat.zero_le _) hfuel)
    rw [readItems,ht.reads fuel _ (by omega) (ended_of_not_token rest rfl)]
    rfl
  | @cons u w ts vs hu _ ih =>
    intro t v fuel rest ht hfuel
    have hpos := ht.length_pos
    rw [intercalate_comma] at hfuel ⊢
    simp only [List.length_append,List.length_cons] at hfuel
    obtain ⟨fuel,rfl⟩ := Nat.exists_eq_add_of_le' (Nat.lt_of_le_of_lt (Nat.zero_le _) hfuel)
    have hnext := ih fuel rest hu (by omega)
    rw [List.append_assoc,List.cons_append,readItems,
      ht.reads fuel _ (by omega) (ended_of_not_token _ rfl)]
    simp only [Option.bind_eq_bind,Option.bind_some,
      skipBlanks_of_not_blank _ (show isBlank ',' = false from rfl),hnext]

def arrayText (ts : List (List Char)) : List Char := '[' :: ([','].intercalate ts ++ [']'])

theorem isText_array {ts : List (List Char)} {vs : List Json} (h : List.Forall₂ IsText ts vs) :
    IsText (arrayText ts) (.arr vs) := by
  refine ⟨⟨'[',_,rfl,rfl,by decide,by decide⟩,fun fuel rest hfuel _ => ?_⟩
  obtain ⟨fuel,rfl⟩ := Nat.exists_eq_add_of_le' (Nat.lt_of_lt_of_le (Nat.succ_pos _) hfuel)
  simp only [arrayText,List.length_cons,List.length_append] at hfuel
  rw [readValue,arrayText,List.cons_append,skipBlanks_of_not_blank _ rfl]
  cases h with
  | nil => rfl
  | @cons t v ts vs ht hts =>
    have hread := readItems_texts hts fuel rest ht (by omega)
    have hskip : skipBlanks ([','].intercalate (t :: ts) ++ ']' :: rest) =
        [','].intercalate (t :: ts) ++ ']' :: rest := by
      cases ts with
      | nil =>
        rw [List.intercalate_singleton]
        exact ht.skipBlanks _
      | cons u ts =>
        rw [intercalate_comma,List.append_assoc]
        exact ht.skipBlanks _
    obtain ⟨c,cs,rfl,-,hbracket,-⟩ := ht.head
    obtain ⟨ds,hds⟩ : ∃ ds, [','].intercalate ((c :: cs) :: ts) ++ ']' :: rest = c :: ds := by
      cases ts with
      | nil => exact ⟨_,rfl⟩
      | cons u ts => exact ⟨_,by rw [intercalate_comma]; rfl⟩
    simp only [List.append_assoc,List.singleton_append,hskip]
    rw [hds] at hread ⊢
    split
    · next h => exact absurd (List.cons.inj h).1 hbracket
    · rw [hread]
      rfl

def IsMember (t : List Char) (m : List Char × Json) : Prop :=
  ∃ name value, t = name ++ ':' :: value ∧ IsString name m.1 ∧ IsText value m.2

theorem readMembers_texts {ts : List (List Char)} {ms : List (List Char × Json)}
    (hs : List.Forall₂ IsMember ts ms) :
    ∀ {t : List Char} {m : List Char × Json} (fuel : ℕ) (rest : List Char), IsMember t m →
      ([','].intercalate (t :: ts)).length < fuel →
      readMembers fuel ([','].intercalate (t :: ts) ++ '\x7d' :: rest) = some (m :: ms,rest) := by
  induction hs with
  | nil =>
    rintro t ⟨name,v⟩ fuel rest ⟨-,value,rfl,⟨body,rfl,hbody⟩,hvalue⟩ hfuel
    rw [List.intercalate_singleton] at hfuel ⊢
    simp only [List.length_append,List.length_cons] at hfuel
    obtain ⟨fuel,rfl⟩ := Nat.exists_eq_add_of_le' (Nat.lt_of_le_of_lt (Nat.zero_le _) hfuel)
    have hread := hvalue.reads fuel ('\x7d' :: rest) (by omega) (ended_of_not_token rest rfl)
    rw [readMembers]
    simp only [List.cons_append,List.append_assoc,
      skipBlanks_of_not_blank _ (show isBlank '"' = false from rfl),hbody,
      skipBlanks_of_not_blank _ (show isBlank ':' = false from rfl),Option.bind_eq_bind,
      Option.bind_some,hread]
    rfl
  | @cons u w ts ms hu _ ih =>
    rintro t ⟨name,v⟩ fuel rest ⟨-,value,rfl,⟨body,rfl,hbody⟩,hvalue⟩ hfuel
    rw [intercalate_comma] at hfuel ⊢
    simp only [List.length_append,List.length_cons] at hfuel
    obtain ⟨fuel,rfl⟩ := Nat.exists_eq_add_of_le' (Nat.lt_of_le_of_lt (Nat.zero_le _) hfuel)
    have hread := hvalue.reads fuel (',' :: ([','].intercalate (u :: ts) ++ '\x7d' :: rest))
      (by omega) (ended_of_not_token _ rfl)
    have hnext := ih fuel rest hu (by omega)
    rw [readMembers]
    simp only [List.cons_append,List.append_assoc,
      skipBlanks_of_not_blank _ (show isBlank '"' = false from rfl),hbody,
      skipBlanks_of_not_blank _ (show isBlank ':' = false from rfl),Option.bind_eq_bind,
      Option.bind_some,hread,skipBlanks_of_not_blank _ (show isBlank ',' = false from rfl),hnext]

def objectText (ts : List (List Char)) : List Char := '\x7b' :: ([','].intercalate ts ++ ['\x7d'])

theorem isText_object {ts : List (List Char)} {ms : List (List Char × Json)}
    (h : List.Forall₂ IsMember ts ms) : IsText (objectText ts) (.obj ms) := by
  refine ⟨⟨'\x7b',_,rfl,rfl,by decide,by decide⟩,fun fuel rest hfuel _ => ?_⟩
  obtain ⟨fuel,rfl⟩ := Nat.exists_eq_add_of_le' (Nat.lt_of_lt_of_le (Nat.succ_pos _) hfuel)
  simp only [objectText,List.length_cons,List.length_append] at hfuel
  rw [readValue,objectText,List.cons_append,skipBlanks_of_not_blank _ rfl]
  cases h with
  | nil => rfl
  | @cons t m ts ms ht hts =>
    have hread := readMembers_texts hts fuel rest ht (by omega)
    obtain ⟨ds,hds⟩ : ∃ ds, [','].intercalate (t :: ts) ++ '\x7d' :: rest = '"' :: ds := by
      obtain ⟨-,value,rfl,⟨body,rfl,-⟩,-⟩ := ht
      cases ts with
      | nil => exact ⟨_,rfl⟩
      | cons u ts => exact ⟨_,by rw [intercalate_comma]; rfl⟩
    simp only [List.append_assoc,List.singleton_append]
    rw [hds] at hread ⊢
    rw [skipBlanks_of_not_blank _ rfl]
    split
    · next h => cases h
    · rw [hread]
      rfl

theorem intercalate_comma_cons (t : List Char) (ts : List (List Char)) :
    [','].intercalate (t :: ts) = t ++ ts.flatMap (',' :: ·) := by
  induction ts generalizing t with
  | nil => simp
  | cons u ts ih => rw [intercalate_comma,ih,List.flatMap_cons,List.cons_append]

def Plain (s : List Char) : Prop := ∀ c ∈ s, escapeChar c = [c]

instance (s : List Char) : Decidable (Plain s) :=
  List.decidableBAll (fun c => escapeChar c = [c]) s

theorem escapeChar_of_isDigit {c : Char} (h : c.isDigit = true) : escapeChar c = [c] := by
  have hrange := Char.isDigit_iff_toNat.mp h
  have hne : ∀ d : Char, d.isDigit = false → c ≠ d := by
    rintro d hd rfl
    rw [h] at hd
    cases hd
  unfold escapeChar
  rw [if_neg (hne _ rfl),if_neg (hne _ rfl),if_neg (hne _ rfl),if_neg (hne _ rfl),if_neg (hne _ rfl),
    if_neg (hne _ rfl),if_neg (hne _ rfl),if_neg]
  have hzero : '0'.toNat = 48 := rfl
  omega

theorem quote_plain {s : List Char} (h : Plain s) :
    quote s = '"' :: (s ++ ['"']) := by
  have hflat : s.flatMap escapeChar = s := by
    rw [List.flatMap_congr h]
    simp
  rw [quote,hflat]

theorem isString_plain {s : List Char} (h : Plain s) :
    IsString ('"' :: (s ++ ['"'])) s := quote_plain h ▸ isString_quote s

def memberText (name value : List Char) : List Char := '"' :: (name ++ '"' :: ':' :: value)

theorem isMember_text {name value : List Char} {v : Json} (h : Plain name) (hv : IsText value v) :
    IsMember (memberText name value) (name,v) :=
  ⟨'"' :: (name ++ ['"']),value,by simp [memberText],isString_plain h,hv⟩

end JsonText
