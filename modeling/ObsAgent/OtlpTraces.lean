import ObsAgent.JsonText
import ObsAgent.RingRecord
import ObsAgent.Trace

/-! The body of a trace export: the text that is put together from pieces, and the OTLP document
that it is the text of. -/
namespace ObsAgent

open JsonText

/-- What is asked of `json_str`, which is `serde_json::to_string` of a string: its text is read as
the string. -/
def ReadsBack (jsonStr : String → String) : Prop := ∀ s, IsString (jsonStr s).toList s.toList

theorem readsBack_quote : ReadsBack fun s => String.ofList (quote s.toList) := by
  intro s
  rw [String.toList_ofList]
  exact isString_quote s.toList

def joinComma (parts : List String) : String := ",".intercalate parts

section Text

variable (jsonStr : String → String)

def kvStr (key value : String) : String :=
  "\x7b\"key\":" ++ jsonStr key ++ ",\"value\":\x7b\"stringValue\":" ++ jsonStr value ++ "\x7d\x7d"

def kvInt (key : String) (value : ℤ) : String :=
  "\x7b\"key\":" ++ jsonStr key ++ ",\"value\":\x7b\"intValue\":\"" ++ toString value ++ "\"\x7d\x7d"

def hexLower (bytes : List UInt8) : String :=
  String.ofList (bytes.flatMap fun b => [hexDigit (b.toNat/16),hexDigit (b.toNat % 16)])

def kindServer : ℕ := 2

def kindClient : ℕ := 3

def OtelStatus.code : OtelStatus → ℕ
  | .unset => 0
  | .error => 2

/-- The attributes of a span, as the loop pushes them. -/
def spanAttrs (s : SpanRec) : List String :=
  let attrs := [kvStr jsonStr "src" s.src,kvStr jsonStr "dst" s.dst,
    kvStr jsonStr "http.method" s.method,kvStr jsonStr "http.route" s.route,
    kvStr jsonStr "obsagent.protocol" s.protocol]
  let attrs :=
    if s.protocol = "grpc" then attrs ++ [kvInt jsonStr "rpc.grpc.status_code" s.statusCode]
    else attrs ++ [kvInt jsonStr "http.status_code" s.statusCode]
  let attrs :=
    match s.wireNs with
    | some w => attrs ++ [kvInt jsonStr "obsagent.wire_latency_ns" (i64 w)]
    | none => attrs
  match s.handshakeNs with
  | some h => attrs ++ [kvInt jsonStr "obsagent.tls.handshake_ns" (i64 h)]
  | none => attrs

/-- Frames up to the first empty one, with their numbers from `i` on. -/
def frameAttrs (i : ℕ) : List String → List String
  | [] => []
  | f :: fs => if f = "" then [] else kvStr jsonStr ("frame." ++ toString i) f :: frameAttrs (i+1) fs

def profileEventsJson (s : SpanRec) : String :=
  match s.profileFrames with
  | none => ""
  | some frames =>
    let attrs := frameAttrs jsonStr 0 frames
    if attrs = [] then ""
    else ",\"events\":[\x7b\"timeUnixNano\":\"" ++ toString s.endUnixNs ++
      "\",\"name\":\"profile\",\"attributes\":[" ++ joinComma attrs ++ "]\x7d]"

def spanJson (s : SpanRec) : String :=
  let kind := if s.kindClient then kindClient else kindServer
  "\x7b\"traceId\":\"" ++ hexLower s.traceId ++ "\",\"spanId\":\"" ++ hexLower s.spanId ++
    "\",\"name\":" ++ jsonStr s.name ++ ",\"kind\":" ++ toString kind ++
    ",\"startTimeUnixNano\":\"" ++ toString s.startUnixNs ++ "\",\"endTimeUnixNano\":\"" ++
    toString s.endUnixNs ++ "\",\"status\":\x7b\"code\":" ++ toString s.status.code ++
    "\x7d,\"attributes\":[" ++ joinComma (spanAttrs jsonStr s) ++ "]" ++ profileEventsJson jsonStr s ++
    "\x7d"

def SpanRec.service (s : SpanRec) : String := if s.src = "" then "unknown" else s.src

/-- Services in the order of their first spans, and the texts of the spans of each. -/
def groupSpan (acc : List String × FiniteMap String (List String)) (s : SpanRec) :
    List String × FiniteMap String (List String) :=
  match acc.2.get s.service with
  | some bucket => (acc.1,acc.2.put s.service (bucket ++ [spanJson jsonStr s]))
  | none => (acc.1 ++ [s.service],acc.2.put s.service [spanJson jsonStr s])

def resourceJson (svc body : String) : String :=
  "\x7b\"resource\":\x7b\"attributes\":[" ++ kvStr jsonStr "service.name" svc ++ "," ++
    kvStr jsonStr "telemetry.sdk.name" "obsagent" ++
    "]\x7d,\"scopeSpans\":[\x7b\"scope\":\x7b\"name\":\"obsagent\",\"version\":\"0.1.0\"\x7d,\"spans\":[" ++
    body ++ "]\x7d]\x7d"

def toOtlpTracesJson (spans : List SpanRec) : String :=
  let grouped := spans.foldl (groupSpan jsonStr) ([],∅)
  let resources := grouped.1.map fun svc =>
    resourceJson jsonStr svc (((grouped.2.get svc).map joinComma).getD "")
  "\x7b\"resourceSpans\":[" ++ joinComma resources ++ "]\x7d"

end Text

def text (s : String) : Json := .str s.toList

def member (name : String) (v : Json) : List Char × Json := (name.toList,v)

def keyValue (key type value : String) : Json :=
  .obj [member "key" (text key),member "value" (.obj [member type (text value)])]

def number (n : ℕ) (h : isNumber (toString n).toList = true) : Json := .num ⟨(toString n).toList,h⟩

theorem isNumber_kind (client : Bool) :
    isNumber (toString (if client then kindClient else kindServer)).toList = true := by
  cases client <;> decide

theorem isNumber_code (status : OtelStatus) : isNumber (toString status.code).toList = true := by
  cases status <;> decide

def frameTrees (i : ℕ) : List String → List Json
  | [] => []
  | f :: fs =>
    if f = "" then [] else keyValue ("frame." ++ toString i) "stringValue" f :: frameTrees (i+1) fs

def SpanRec.attrs (s : SpanRec) : List Json :=
  [keyValue "src" "stringValue" s.src,keyValue "dst" "stringValue" s.dst,
    keyValue "http.method" "stringValue" s.method,keyValue "http.route" "stringValue" s.route,
    keyValue "obsagent.protocol" "stringValue" s.protocol,
    keyValue (if s.protocol = "grpc" then "rpc.grpc.status_code" else "http.status_code") "intValue"
      (toString (s.statusCode : ℤ))] ++
  (s.wireNs.toList.map fun w => keyValue "obsagent.wire_latency_ns" "intValue" (toString (i64 w))) ++
  s.handshakeNs.toList.map fun h => keyValue "obsagent.tls.handshake_ns" "intValue" (toString (i64 h))

def SpanRec.events (s : SpanRec) : List (List Char × Json) :=
  match frameTrees 0 (s.profileFrames.getD []) with
  | [] => []
  | f :: fs => [member "events" (.arr [.obj [member "timeUnixNano" (text (toString s.endUnixNs)),
      member "name" (text "profile"),member "attributes" (.arr (f :: fs))]])]

def SpanRec.tree (s : SpanRec) : Json :=
  .obj ([member "traceId" (text (hexLower s.traceId)),member "spanId" (text (hexLower s.spanId)),
    member "name" (text s.name),member "kind" (number _ (isNumber_kind s.kindClient)),
    member "startTimeUnixNano" (text (toString s.startUnixNs)),
    member "endTimeUnixNano" (text (toString s.endUnixNs)),
    member "status" (.obj [member "code" (number _ (isNumber_code s.status))]),
    member "attributes" (.arr s.attrs)] ++ s.events)

/-- The services of some spans, each once, in the order of their first spans. -/
def services (spans : List SpanRec) : List String :=
  spans.foldl (fun seen s => if s.service ∈ seen then seen else seen ++ [s.service]) []

def spansOf (svc : String) (spans : List SpanRec) : List SpanRec :=
  spans.filter fun s => s.service = svc

def resourceTree (svc : String) (spans : List SpanRec) : Json :=
  .obj [member "resource" (.obj [member "attributes" (.arr [keyValue "service.name" "stringValue" svc,
      keyValue "telemetry.sdk.name" "stringValue" "obsagent"])]),
    member "scopeSpans" (.arr [.obj [
      member "scope" (.obj [member "name" (text "obsagent"),member "version" (text "0.1.0")]),
      member "spans" (.arr (spans.map SpanRec.tree))]])]

def tracesTree (spans : List SpanRec) : Json :=
  .obj [member "resourceSpans" (.arr ((services spans).map fun svc =>
    resourceTree svc (spansOf svc spans)))]

theorem plain_nat (n : ℕ) : Plain (toString n).toList := by
  intro c hc
  rw [Nat.toString_eq_ofList_toDigits,String.toList_ofList] at hc
  exact escapeChar_of_isDigit (Nat.isDigit_of_mem_toDigits (by norm_num) (by norm_num) hc)

theorem plain_int (z : ℤ) : Plain (toString z).toList := by
  cases z with
  | ofNat n => exact plain_nat n
  | negSucc n =>
    have htext : (toString (Int.negSucc n)).toList = '-' :: (toString (n+1)).toList := by
      change ("-" ++ toString (n+1)).toList = _
      simp
    rw [htext]
    intro c hc
    rcases List.mem_cons.mp hc with rfl | hc
    · decide
    · exact plain_nat (n+1) c hc

theorem plain_hexDigit : ∀ n < 16, escapeChar (hexDigit n) = [hexDigit n] := by decide

theorem plain_hexLower (bytes : List UInt8) : Plain (hexLower bytes).toList := by
  intro c hc
  rw [hexLower,String.toList_ofList] at hc
  obtain ⟨b,-,hb⟩ := List.mem_flatMap.mp hc
  have hlt := b.toNat_lt
  simp only [List.mem_cons,List.not_mem_nil,or_false] at hb
  rcases hb with rfl | rfl
  · exact plain_hexDigit _ (by omega)
  · exact plain_hexDigit _ (by omega)

def TextOf (s : String) (v : Json) : Prop := IsText s.toList v

def quoted (s : String) : List Char := '"' :: (s.toList ++ ['"'])

theorem isText_quoted {s : String} (h : Plain s.toList) : IsText (quoted s) (text s) :=
  isText_str (isString_plain h)

theorem isMember_named {name : String} {value : List Char} {v : Json} (hv : IsText value v)
    (h : Plain name.toList) : IsMember (memberText name.toList value) (member name v) :=
  isMember_text h hv

theorem isMember_quoted {name s : String} (hs : Plain s.toList) (h : Plain name.toList) :
    IsMember (memberText name.toList (quoted s)) (member name (text s)) :=
  isMember_named (isText_quoted hs) h

theorem isText_number (n : ℕ) (h : isNumber (toString n).toList = true) :
    IsText (toString n).toList (number n h) := isText_num ⟨_,h⟩

theorem isText_joined {parts : List String} {vs : List Json} (h : List.Forall₂ TextOf parts vs) :
    IsText ('[' :: ((joinComma parts).toList ++ [']'])) (.arr vs) := by
  rw [joinComma,String.toList_intercalate]
  exact isText_array (List.forall₂_map_left_iff.mpr h)

theorem forall₂_map_same {α β γ : Type} {R : β → γ → Prop} {f : α → β} {g : α → γ}
    {as : List α} (h : ∀ a ∈ as, R (f a) (g a)) : List.Forall₂ R (as.map f) (as.map g) := by
  rw [List.forall₂_map_left_iff,List.forall₂_map_right_iff,List.forall₂_same]
  exact h

section

variable {jsonStr : String → String} (hjson : ReadsBack jsonStr)

include hjson

theorem kvStr_textOf (key value : String) :
    TextOf (kvStr jsonStr key value) (keyValue key "stringValue" value) := by
  have htext : (kvStr jsonStr key value).toList = objectText
      [memberText "key".toList (jsonStr key).toList,memberText "value".toList
        (objectText [memberText "stringValue".toList (jsonStr value).toList])] := by
    simp only [kvStr,String.toList_append,objectText,memberText,intercalate_comma_cons,
      List.flatMap_cons,List.flatMap_nil,List.append_assoc,List.cons_append,List.nil_append,
      List.append_nil]
    rfl
  rw [TextOf,htext]
  refine isText_object (.cons (isMember_named (isText_str (hjson key)) (by decide)) (.cons
    (isMember_named (isText_object (.cons ?_ .nil)) (by decide)) .nil))
  exact isMember_named (isText_str (hjson value)) (by decide)

theorem kvInt_textOf (key : String) (value : ℤ) :
    TextOf (kvInt jsonStr key value) (keyValue key "intValue" (toString value)) := by
  have htext : (kvInt jsonStr key value).toList = objectText
      [memberText "key".toList (jsonStr key).toList,memberText "value".toList
        (objectText [memberText "intValue".toList (quoted (toString value))])] := by
    simp only [kvInt,String.toList_append,objectText,memberText,quoted,intercalate_comma_cons,
      List.flatMap_cons,List.flatMap_nil,List.append_assoc,List.cons_append,List.nil_append,
      List.append_nil]
    rfl
  rw [TextOf,htext]
  refine isText_object (.cons (isMember_named (isText_str (hjson key)) (by decide)) (.cons
    (isMember_named (isText_object (.cons ?_ .nil)) (by decide)) .nil))
  exact isMember_quoted (plain_int value) (by decide)

theorem frameAttrs_textOf (i : ℕ) (frames : List String) :
    List.Forall₂ TextOf (frameAttrs jsonStr i frames) (frameTrees i frames) := by
  induction frames generalizing i with
  | nil => exact .nil
  | cons f fs ih =>
    simp only [frameAttrs,frameTrees]
    split_ifs
    · exact .nil
    · exact .cons (kvStr_textOf hjson _ f) (ih (i+1))

theorem spanAttrs_textOf (s : SpanRec) :
    List.Forall₂ TextOf (spanAttrs jsonStr s) s.attrs := by
  have hsplit : spanAttrs jsonStr s =
      [kvStr jsonStr "src" s.src,kvStr jsonStr "dst" s.dst,kvStr jsonStr "http.method" s.method,
        kvStr jsonStr "http.route" s.route,kvStr jsonStr "obsagent.protocol" s.protocol,
        kvInt jsonStr (if s.protocol = "grpc" then "rpc.grpc.status_code" else "http.status_code")
          s.statusCode] ++
      (s.wireNs.toList.map fun w => kvInt jsonStr "obsagent.wire_latency_ns" (i64 w)) ++
      s.handshakeNs.toList.map fun h => kvInt jsonStr "obsagent.tls.handshake_ns" (i64 h) := by
    by_cases hgrpc : s.protocol = "grpc" <;> cases hwire : s.wireNs <;>
      cases hhs : s.handshakeNs <;> simp [spanAttrs,hgrpc,hwire,hhs]
  rw [hsplit]
  refine List.rel_append (List.rel_append ?_ ?_) ?_
  · exact .cons (kvStr_textOf hjson _ _) <| .cons (kvStr_textOf hjson _ _) <|
      .cons (kvStr_textOf hjson _ _) <| .cons (kvStr_textOf hjson _ _) <|
      .cons (kvStr_textOf hjson _ _) <| .cons (kvInt_textOf hjson _ _) .nil
  · exact forall₂_map_same fun w _ => kvInt_textOf hjson _ _
  · exact forall₂_map_same fun h _ => kvInt_textOf hjson _ _

theorem profileEventsJson_members (s : SpanRec) :
    ∃ ts, (profileEventsJson jsonStr s).toList = ts.flatMap (',' :: ·) ∧
      List.Forall₂ IsMember ts s.events := by
  have hattrs := frameAttrs_textOf hjson 0 (s.profileFrames.getD [])
  have hnone : frameTrees 0 (s.profileFrames.getD []) = [] →
      ∃ ts, "".toList = ts.flatMap (',' :: ·) ∧ List.Forall₂ IsMember ts s.events := fun htrees => by
    refine ⟨[],rfl,?_⟩
    simp [SpanRec.events,htrees]
  cases hframes : s.profileFrames with
  | none =>
    rw [profileEventsJson,hframes]
    exact hnone (by simp [hframes,frameTrees])
  | some frames =>
    rw [hframes,Option.getD_some] at hattrs hnone
    rw [profileEventsJson,hframes]
    cases htrees : frameTrees 0 frames with
    | nil =>
      rw [htrees,List.forall₂_nil_right_iff] at hattrs
      simpa only [hattrs,if_true] using hnone htrees
    | cons f fs =>
      have hne : frameAttrs jsonStr 0 frames ≠ [] := by
        intro hnil
        rw [hnil,htrees] at hattrs
        cases hattrs
      rw [htrees] at hattrs
      simp only [if_neg hne,SpanRec.events,hframes,Option.getD_some,htrees]
      refine ⟨[memberText "events".toList (arrayText [objectText
        [memberText "timeUnixNano".toList (quoted (toString s.endUnixNs)),
          memberText "name".toList (quoted "profile"),memberText "attributes".toList
            ('[' :: ((joinComma (frameAttrs jsonStr 0 frames)).toList ++ [']']))]])],?_,?_⟩
      · simp only [String.toList_append,arrayText,objectText,memberText,quoted,
          intercalate_comma_cons,List.flatMap_cons,List.flatMap_nil,List.append_assoc,
          List.cons_append,List.nil_append,List.append_nil]
        rfl
      · refine .cons (isMember_named (isText_array (.cons (isText_object ?_) .nil)) (by decide)) .nil
        refine .cons (isMember_quoted (plain_nat _) (by decide)) (.cons
          (isMember_quoted (by decide) (by decide)) (.cons ?_ .nil))
        exact isMember_named (isText_joined hattrs) (by decide)

theorem spanJson_textOf (s : SpanRec) : TextOf (spanJson jsonStr s) s.tree := by
  obtain ⟨events,hevents,hmembers⟩ := profileEventsJson_members hjson s
  let kind := if s.kindClient then kindClient else kindServer
  -- the fixed pieces between the fields
  have h₁ : "\x7b\"traceId\":\"".toList = '\x7b' :: '"' :: ("traceId".toList ++ ['"',':','"']) := rfl
  have h₂ : "\",\"spanId\":\"".toList =
      '"' :: ',' :: '"' :: ("spanId".toList ++ ['"',':','"']) := rfl
  have h₃ : "\",\"name\":".toList = '"' :: ',' :: '"' :: ("name".toList ++ ['"',':']) := rfl
  have h₄ : ",\"kind\":".toList = ',' :: '"' :: ("kind".toList ++ ['"',':']) := rfl
  have h₅ : ",\"startTimeUnixNano\":\"".toList =
      ',' :: '"' :: ("startTimeUnixNano".toList ++ ['"',':','"']) := rfl
  have h₆ : "\",\"endTimeUnixNano\":\"".toList =
      '"' :: ',' :: '"' :: ("endTimeUnixNano".toList ++ ['"',':','"']) := rfl
  have h₇ : "\",\"status\":\x7b\"code\":".toList = '"' :: ',' :: '"' ::
      ("status".toList ++ '"' :: ':' :: '\x7b' :: '"' :: ("code".toList ++ ['"',':'])) := rfl
  have h₈ : "\x7d,\"attributes\":[".toList =
      '\x7d' :: ',' :: '"' :: ("attributes".toList ++ ['"',':','[']) := rfl
  have h₉ : "]".toList = [']'] := rfl
  have h₁₀ : "\x7d".toList = ['\x7d'] := rfl
  have htext : (spanJson jsonStr s).toList = objectText
      ([memberText "traceId".toList (quoted (hexLower s.traceId)),
        memberText "spanId".toList (quoted (hexLower s.spanId)),
        memberText "name".toList (jsonStr s.name).toList,
        memberText "kind".toList (toString kind).toList,
        memberText "startTimeUnixNano".toList (quoted (toString s.startUnixNs)),
        memberText "endTimeUnixNano".toList (quoted (toString s.endUnixNs)),
        memberText "status".toList
          (objectText [memberText "code".toList (toString s.status.code).toList]),
        memberText "attributes".toList
          ('[' :: ((joinComma (spanAttrs jsonStr s)).toList ++ [']']))] ++ events) := by
    unfold spanJson
    simp only [String.toList_append,h₁,h₂,h₃,h₄,h₅,h₆,h₇,h₈,h₉,h₁₀,hevents,objectText,memberText,
      quoted,intercalate_comma_cons,List.flatMap_cons,List.flatMap_nil,List.append_assoc,
      List.cons_append,List.nil_append,List.append_nil,kind]
  rw [TextOf,htext,SpanRec.tree]
  refine isText_object (List.rel_append ?_ hmembers)
  refine .cons (isMember_quoted (plain_hexLower _) (by decide)) <|
    .cons (isMember_quoted (plain_hexLower _) (by decide)) <|
    .cons (isMember_named (isText_str (hjson s.name)) (by decide)) <|
    .cons (isMember_named (isText_number _ (isNumber_kind s.kindClient)) (by decide)) <|
    .cons (isMember_quoted (plain_nat _) (by decide)) <|
    .cons (isMember_quoted (plain_nat _) (by decide)) <|
    .cons (isMember_named (isText_object (.cons ?_ .nil)) (by decide)) <|
    .cons (isMember_named (isText_joined (spanAttrs_textOf hjson s)) (by decide)) .nil
  exact isMember_named (isText_number _ (isNumber_code s.status)) (by decide)

theorem resourceJson_textOf (svc : String) {parts : List String} {spans : List SpanRec}
    (h : List.Forall₂ TextOf parts (spans.map SpanRec.tree)) :
    TextOf (resourceJson jsonStr svc (joinComma parts)) (resourceTree svc spans) := by
  have h₁ : "\x7b\"resource\":\x7b\"attributes\":[".toList = '\x7b' :: '"' ::
      ("resource".toList ++ '"' :: ':' :: '\x7b' :: '"' ::
        ("attributes".toList ++ ['"',':','['])) := rfl
  have h₂ : ",".toList = [','] := rfl
  have h₃ : "]\x7d,\"scopeSpans\":[\x7b\"scope\":\x7b\"name\":\"obsagent\",\"version\":\"0.1.0\"\x7d,\"spans\":[".toList =
      ']' :: '\x7d' :: ',' :: '"' :: ("scopeSpans".toList ++ '"' :: ':' :: '[' :: '\x7b' :: '"' ::
        ("scope".toList ++ '"' :: ':' :: '\x7b' :: '"' :: ("name".toList ++ '"' :: ':' :: '"' ::
          ("obsagent".toList ++ '"' :: ',' :: '"' :: ("version".toList ++ '"' :: ':' :: '"' ::
            ("0.1.0".toList ++ '"' :: '\x7d' :: ',' :: '"' ::
              ("spans".toList ++ ['"',':','['])))))))  := rfl
  have h₄ : "]\x7d]\x7d".toList = [']','\x7d',']','\x7d'] := rfl
  have htext : (resourceJson jsonStr svc (joinComma parts)).toList = objectText
      [memberText "resource".toList (objectText [memberText "attributes".toList
          (arrayText [(kvStr jsonStr "service.name" svc).toList,
            (kvStr jsonStr "telemetry.sdk.name" "obsagent").toList])]),
        memberText "scopeSpans".toList (arrayText [objectText [
          memberText "scope".toList (objectText [memberText "name".toList (quoted "obsagent"),
            memberText "version".toList (quoted "0.1.0")]),
          memberText "spans".toList ('[' :: ((joinComma parts).toList ++ [']']))]])] := by
    unfold resourceJson
    simp only [String.toList_append,h₁,h₂,h₃,h₄,objectText,arrayText,memberText,quoted,
      intercalate_comma_cons,List.flatMap_cons,List.flatMap_nil,List.append_assoc,
      List.cons_append,List.nil_append,List.append_nil]
  rw [TextOf,htext]
  refine isText_object (.cons (isMember_named (isText_object (.cons ?_ .nil)) (by decide)) (.cons
    (isMember_named (isText_array (.cons (isText_object (.cons ?_ (.cons ?_ .nil))) .nil))
      (by decide)) .nil))
  · refine isMember_named (isText_array (.cons ?_ (.cons ?_ .nil))) (by decide)
    · exact kvStr_textOf hjson "service.name" svc
    · exact kvStr_textOf hjson "telemetry.sdk.name" "obsagent"
  · exact isMember_named (isText_object (.cons
      (isMember_quoted (by decide) (by decide)) (.cons
        (isMember_quoted (by decide) (by decide)) .nil))) (by decide)
  · exact isMember_named (isText_joined h) (by decide)

end

theorem services_concat (spans : List SpanRec) (s : SpanRec) :
    services (spans ++ [s]) =
      if s.service ∈ services spans then services spans else services spans ++ [s.service] := by
  rw [services,List.foldl_concat]
  rfl

theorem mem_services {spans : List SpanRec} {svc : String} :
    svc ∈ services spans ↔ ∃ s ∈ spans, s.service = svc := by
  induction spans using List.reverseRecOn with
  | nil => simp [services]
  | append_singleton spans s ih =>
    have hlast : (∃ r ∈ spans ++ [s], r.service = svc) ↔
        (∃ r ∈ spans, r.service = svc) ∨ s.service = svc := by
      simp only [List.mem_append,List.mem_singleton,or_and_right,exists_or,exists_eq_left]
    rw [services_concat,hlast,← ih]
    split_ifs with hseen
    · exact ⟨Or.inl,Or.rec id fun h => h ▸ hseen⟩
    · rw [List.mem_append,List.mem_singleton,eq_comm]

theorem services_nodup (spans : List SpanRec) : (services spans).Nodup := by
  induction spans using List.reverseRecOn with
  | nil => exact List.nodup_nil
  | append_singleton spans s ih =>
    rw [services_concat]
    split_ifs with hseen
    · exact ih
    · exact List.nodup_append.mpr ⟨ih,List.nodup_singleton _,by
        rintro a ha b hb rfl
        rw [List.mem_singleton.mp hb] at ha
        exact hseen ha⟩

theorem spansOf_concat (svc : String) (spans : List SpanRec) (s : SpanRec) :
    spansOf svc (spans ++ [s]) =
      if s.service = svc then spansOf svc spans ++ [s] else spansOf svc spans := by
  by_cases h : s.service = svc <;> simp [spansOf,h]

theorem spansOf_eq_nil {svc : String} {spans : List SpanRec} (h : svc ∉ services spans) :
    spansOf svc spans = [] := by
  refine List.filter_eq_nil_iff.mpr fun s hs hsvc => ?_
  exact h (mem_services.mpr ⟨s,hs,of_decide_eq_true hsvc⟩)

/-- The loop keeps the services in order, and for each the texts of its spans. -/
theorem foldl_groupSpan (jsonStr : String → String) (spans : List SpanRec) :
    (spans.foldl (groupSpan jsonStr) ([],∅)).1 = services spans ∧
      ∀ svc, (spans.foldl (groupSpan jsonStr) ([],∅)).2.get svc =
        if svc ∈ services spans then some ((spansOf svc spans).map (spanJson jsonStr)) else none := by
  induction spans using List.reverseRecOn with
  | nil => exact ⟨rfl,fun svc => rfl⟩
  | append_singleton spans s ih =>
    obtain ⟨horder,hgroups⟩ := ih
    rw [List.foldl_concat,groupSpan,hgroups,services_concat]
    by_cases hseen : s.service ∈ services spans
    · simp only [if_pos hseen]
      refine ⟨horder,fun svc => ?_⟩
      rw [FiniteMap.get_put,spansOf_concat,hgroups]
      by_cases hsvc : svc = s.service
      · simp [hsvc,hseen]
      · simp [hsvc,Ne.symm hsvc]
    · simp only [if_neg hseen]
      refine ⟨by rw [horder],fun svc => ?_⟩
      rw [FiniteMap.get_put,spansOf_concat,hgroups]
      by_cases hsvc : svc = s.service
      · simp [hsvc,spansOf_eq_nil hseen]
      · simp [hsvc,Ne.symm hsvc]

theorem toOtlpTracesJson_textOf {jsonStr : String → String} (hjson : ReadsBack jsonStr)
    (spans : List SpanRec) : TextOf (toOtlpTracesJson jsonStr spans) (tracesTree spans) := by
  obtain ⟨horder,hgroups⟩ := foldl_groupSpan jsonStr spans
  have hresources : List.Forall₂ TextOf
      ((services spans).map fun svc => resourceJson jsonStr svc
        ((((spans.foldl (groupSpan jsonStr) ([],∅)).2.get svc).map joinComma).getD ""))
      ((services spans).map fun svc => resourceTree svc (spansOf svc spans)) := by
    refine forall₂_map_same fun svc hsvc => ?_
    rw [hgroups,if_pos hsvc]
    exact resourceJson_textOf hjson svc (forall₂_map_same fun s _ => spanJson_textOf hjson s)
  have htext : (toOtlpTracesJson jsonStr spans).toList = objectText [memberText
      "resourceSpans".toList ('[' :: ((joinComma ((services spans).map fun svc =>
        resourceJson jsonStr svc ((((spans.foldl (groupSpan jsonStr) ([],∅)).2.get svc).map
          joinComma).getD ""))).toList ++ [']']))] := by
    have hopen : "\x7b\"resourceSpans\":[".toList =
        '\x7b' :: '"' :: ("resourceSpans".toList ++ ['"',':','[']) := rfl
    have hclose : "]\x7d".toList = [']','\x7d'] := rfl
    unfold toOtlpTracesJson
    simp only [String.toList_append,horder,hopen,hclose,objectText,memberText,intercalate_comma_cons,
      List.flatMap_nil,List.append_assoc,List.cons_append,List.nil_append,List.append_nil]
  rw [TextOf,htext]
  exact isText_object (.cons (isMember_named (isText_joined hresources) (by decide)) .nil)

theorem perm_flatMap_spansOf {svcs : List String} (hnodup : svcs.Nodup) {spans : List SpanRec}
    (hall : ∀ s ∈ spans, s.service ∈ svcs) :
    (svcs.flatMap fun svc => spansOf svc spans).Perm spans := by
  induction svcs generalizing spans with
  | nil => rw [List.eq_nil_iff_forall_not_mem.mpr fun s hs => List.not_mem_nil (hall s hs)]; rfl
  | cons svc svcs ih =>
    obtain ⟨hnot,hnodup⟩ := List.nodup_cons.mp hnodup
    -- the spans of the other services are among those that this one leaves
    let others := spans.filter fun s => !decide (s.service = svc)
    have hothers : (svcs.flatMap fun svc' => spansOf svc' spans) =
        svcs.flatMap fun svc' => spansOf svc' others := by
      refine List.flatMap_congr fun svc' hsvc' => ?_
      rw [spansOf,spansOf,List.filter_filter]
      refine List.filter_congr fun s _ => ?_
      have hne : svc' ≠ svc := fun h => hnot (h ▸ hsvc')
      by_cases h : s.service = svc' <;> simp [h,hne]
    rw [List.flatMap_cons,hothers]
    refine ((ih hnodup fun s hs => ?_).append_left _).trans (List.filter_append_perm _ spans)
    obtain ⟨hs,hne⟩ := List.mem_filter.mp hs
    exact (List.mem_cons.mp (hall s hs)).resolve_left (by simpa using hne)

/-- The request body reads back as one document: the services of the batch, each with its spans.
No span is left out, and none is sent twice. -/
theorem otlp_traces_read_back (jsonStr : String → String) (hjson : ReadsBack jsonStr)
    (spans : List SpanRec) :
    parse (toOtlpTracesJson jsonStr spans).toList = some (tracesTree spans) ∧
      (services spans).Nodup ∧
        ((services spans).flatMap fun svc => spansOf svc spans).Perm spans := by
  refine ⟨parse_of_isText (toOtlpTracesJson_textOf hjson spans),services_nodup spans,?_⟩
  exact perm_flatMap_spansOf (services_nodup spans) fun s hs => mem_services.mpr ⟨s,hs,rfl⟩

def quotedName : SpanRec where
  traceId := [1,2]
  spanId := [3]
  name := "GET /\"a\"\n"
  kindClient := true
  startUnixNs := 5
  endUnixNs := 9
  statusCode := 200
  src := "shop"
  dst := "db"
  method := "GET"
  route := "/a"
  protocol := "http"
  wireNs := none
  handshakeNs := some 4
  profileFrames := some ["main",""]

theorem otlp_traces_read_back_quoted_name :
    (services [quotedName]).length = 1 ∧
      parse (toOtlpTracesJson (fun s => String.ofList (quote s.toList)) [quotedName]).toList =
        some (tracesTree [quotedName]) :=
  ⟨by decide +kernel,(otlp_traces_read_back _ readsBack_quote [quotedName]).1⟩

end ObsAgent
