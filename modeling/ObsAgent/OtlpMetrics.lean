import ObsAgent.OtlpTraces
import ObsAgent.SinkTotals

/-! The body of a metrics export: the text that is put together from pieces, and the OTLP document
that it is the text of. -/
namespace ObsAgent

open JsonText

/-- The registry with the numbers that its callers set. -/
structure MetricsSnapshot extends MetricsRegistry where
  startUnixNano : ℕ
  eventsDropped : ℕ
  otlpDropped : ℕ
  edgeCount : ℕ
  tlsUnmapped : ℕ
  tracesExportFailed : ℕ
  sampleN : ℕ

namespace MetricsSnapshot

section

-- `json_str`, and how a finite `f64` is displayed
variable (jsonStr : String → String) (f64 : Float → NumberToken)

def boundTexts : List String := latencyBoundsMs.map fun b => toString b.num

def bucketTexts (s : SeriesStats) : List String :=
  (List.ofFn s.buckets).map fun c => "\"" ++ toString c ++ "\""

def otlpAttrs (k : SeriesKey) : String :=
  "[" ++ joinComma [kvStr jsonStr "src" k.src,kvStr jsonStr "dst" k.dst,
    kvStr jsonStr "http.method" k.method,kvStr jsonStr "http.route" k.route,
    kvStr jsonStr "http.status_class" k.statusClass,kvStr jsonStr "http.protocol" k.protocol] ++ "]"

/-- A histogram's data point up to its labels. -/
def histPoint (start ts : ℕ) (s : SeriesStats) : String :=
  "\x7b\"startTimeUnixNano\":\"" ++ toString start ++ "\",\"timeUnixNano\":\"" ++ toString ts ++
    "\",\"count\":\"" ++ toString s.count ++ "\",\"sum\":" ++ String.ofList (f64 s.sumMs).chars ++
    ",\"bucketCounts\":[" ++ joinComma (bucketTexts s) ++ "],\"explicitBounds\":[" ++
    joinComma boundTexts ++ "]"

def histDataPoint (start ts : ℕ) (s : SeriesStats) (attrs : String) : String :=
  histPoint f64 start ts s ++ ",\"attributes\":" ++ attrs ++ "\x7d"

def histMetric (name desc : String) (points : List String) : String :=
  "\x7b\"name\":\"" ++ name ++ "\",\"unit\":\"ms\",\"description\":\"" ++ desc ++
    "\",\"histogram\":\x7b\"aggregationTemporality\":2,\"dataPoints\":[" ++ joinComma points ++
    "]\x7d\x7d"

def unlabeledHist (name desc : String) (start ts : ℕ) (s : SeriesStats) : String :=
  histMetric name desc [histPoint f64 start ts s ++ "\x7d"]

/-- A number's data point up to its labels. -/
def intPoint (start ts value : ℕ) : String :=
  "\x7b\"startTimeUnixNano\":\"" ++ toString start ++ "\",\"timeUnixNano\":\"" ++ toString ts ++
    "\",\"asInt\":\"" ++ toString value ++ "\""

def labeledPoint (start ts value : ℕ) (attrs : String) : String :=
  intPoint start ts value ++ ",\"attributes\":" ++ attrs ++ "\x7d"

def sumMetric (name : String) (points : List String) : String :=
  "\x7b\"name\":\"" ++ name ++
    "\",\"unit\":\"1\",\"sum\":\x7b\"aggregationTemporality\":2,\"isMonotonic\":true,\"dataPoints\":[" ++
    joinComma points ++ "]\x7d\x7d"

def gaugeMetric (name : String) (ts value : ℕ) : String :=
  "\x7b\"name\":\"" ++ name ++ "\",\"unit\":\"1\",\"gauge\":\x7b\"dataPoints\":[\x7b\"timeUnixNano\":\"" ++
    toString ts ++ "\",\"asInt\":\"" ++ toString value ++ "\"\x7d]\x7d\x7d"

variable (g : MetricsSnapshot) (ts : ℕ)

def selfMetrics : List (String × ℕ) :=
  [("obsagent.events_dropped",g.eventsDropped),("obsagent.tls_unmapped",g.tlsUnmapped),
    ("obsagent.otlp_dropped",g.otlpDropped),("obsagent.traces.sampled",g.tracesSampled),
    ("obsagent.traces.not_sampled",g.tracesNotSampled),("obsagent.traces.dropped",g.tracesDropped),
    ("obsagent.traces.export_failed",g.tracesExportFailed)]

def selfGauges : List (String × ℕ) :=
  [("obsagent.service_map.edges",g.edgeCount),("obsagent.sample_n",g.sampleN)]

/-- A metric without data points is left out. -/
def unlessEmpty {α β : Type} (points : List α) (metric : List α → β) : List β :=
  if points = [] then [] else [metric points]

def metrics : List String :=
  let start := g.startUnixNano
  unlessEmpty (g.series.entries.map fun e =>
        histDataPoint f64 start ts e.2 (otlpAttrs jsonStr e.1))
      (histMetric "http.client.duration" "Outbound HTTP client latency") ++
    unlessEmpty (g.series.entries.map fun e =>
        labeledPoint start ts e.2.count (otlpAttrs jsonStr e.1))
      (sumMetric "http.client.requests") ++
    unlessEmpty ((g.series.entries.filter fun e => e.2.errors > 0).map fun e =>
        labeledPoint start ts e.2.errors (otlpAttrs jsonStr e.1)) (sumMetric "http.client.errors") ++
    unlessEmpty (g.wire.entries.map fun e =>
        histDataPoint f64 start ts e.2 (otlpAttrs jsonStr e.1))
      (histMetric "http.client.wire.duration" "TLS HTTP/1.1 wire latency (syscall pair)") ++
    (if g.handshake.count > 0 then
      [unlabeledHist f64 "tls.handshake.duration" "SSL_do_handshake duration" start ts g.handshake]
    else []) ++
    (g.selfMetrics.map fun m => sumMetric m.1 [intPoint start ts m.2 ++ "\x7d"]) ++
    g.selfGauges.map fun m => gaugeMetric m.1 ts m.2

def toOtlpJson : String :=
  "\x7b\"resourceMetrics\":[\x7b\"resource\":\x7b\"attributes\":[" ++
    "\x7b\"key\":\"service.name\",\"value\":\x7b\"stringValue\":\"obsagent\"\x7d\x7d" ++
    "]\x7d,\"scopeMetrics\":[\x7b\"scope\":\x7b\"name\":\"obsagent\",\"version\":\"0.1.0\"\x7d,\"metrics\":[" ++
    joinComma (g.metrics jsonStr f64 ts) ++ "]\x7d]\x7d]\x7d"

def attrTrees (k : SeriesKey) : List Json :=
  [keyValue "src" "stringValue" k.src,keyValue "dst" "stringValue" k.dst,
    keyValue "http.method" "stringValue" k.method,keyValue "http.route" "stringValue" k.route,
    keyValue "http.status_class" "stringValue" k.statusClass,
    keyValue "http.protocol" "stringValue" k.protocol]

theorem isNumber_bound : ∀ b ∈ latencyBoundsMs, isNumber (toString b.num).toList = true := by
  decide

def boundTrees : List Json :=
  latencyBoundsMs.attach.map fun b => .num ⟨(toString b.1.num).toList,isNumber_bound b.1 b.2⟩

def histMembers (start ts : ℕ) (s : SeriesStats) : List (List Char × Json) :=
  [member "startTimeUnixNano" (text (toString start)),member "timeUnixNano" (text (toString ts)),
    member "count" (text (toString s.count)),member "sum" (.num (f64 s.sumMs)),
    member "bucketCounts" (.arr ((List.ofFn s.buckets).map fun c => text (toString c))),
    member "explicitBounds" (.arr boundTrees)]

def histTree (start ts : ℕ) (e : Sigma fun _ : SeriesKey => SeriesStats) : Json :=
  .obj (histMembers f64 start ts e.2 ++ [member "attributes" (.arr (attrTrees e.1))])

def intMembers (start ts value : ℕ) : List (List Char × Json) :=
  [member "startTimeUnixNano" (text (toString start)),member "timeUnixNano" (text (toString ts)),
    member "asInt" (text (toString value))]

def labeledTree (start ts value : ℕ) (k : SeriesKey) : Json :=
  .obj (intMembers start ts value ++ [member "attributes" (.arr (attrTrees k))])

def two : Json := .num ⟨['2'],by decide⟩

def histMetricTree (name desc : String) (points : List Json) : Json :=
  .obj [member "name" (text name),member "unit" (text "ms"),member "description" (text desc),
    member "histogram" (.obj [member "aggregationTemporality" two,member "dataPoints" (.arr points)])]

def sumMetricTree (name : String) (points : List Json) : Json :=
  .obj [member "name" (text name),member "unit" (text "1"),
    member "sum" (.obj [member "aggregationTemporality" two,member "isMonotonic" (.bool true),
      member "dataPoints" (.arr points)])]

def gaugeMetricTree (name : String) (ts value : ℕ) : Json :=
  .obj [member "name" (text name),member "unit" (text "1"),
    member "gauge" (.obj [member "dataPoints" (.arr
      [.obj [member "timeUnixNano" (text (toString ts)),member "asInt" (text (toString value))]])])]

def metricTrees : List Json :=
  let start := g.startUnixNano
  unlessEmpty (g.series.entries.map (histTree f64 start ts))
      (histMetricTree "http.client.duration" "Outbound HTTP client latency") ++
    unlessEmpty (g.series.entries.map fun e => labeledTree start ts e.2.count e.1)
      (sumMetricTree "http.client.requests") ++
    unlessEmpty ((g.series.entries.filter fun e => e.2.errors > 0).map fun e =>
        labeledTree start ts e.2.errors e.1) (sumMetricTree "http.client.errors") ++
    unlessEmpty (g.wire.entries.map (histTree f64 start ts))
      (histMetricTree "http.client.wire.duration" "TLS HTTP/1.1 wire latency (syscall pair)") ++
    (if g.handshake.count > 0 then
      [histMetricTree "tls.handshake.duration" "SSL_do_handshake duration"
        [.obj (histMembers f64 start ts g.handshake)]]
    else []) ++
    (g.selfMetrics.map fun m => sumMetricTree m.1 [.obj (intMembers start ts m.2)]) ++
    g.selfGauges.map fun m => gaugeMetricTree m.1 ts m.2

def metricsTree : Json :=
  .obj [member "resourceMetrics" (.arr [.obj [
    member "resource" (.obj [member "attributes" (.arr [keyValue "service.name" "stringValue" "obsagent"])]),
    member "scopeMetrics" (.arr [.obj [
      member "scope" (.obj [member "name" (text "obsagent"),member "version" (text "0.1.0")]),
      member "metrics" (.arr (g.metricTrees f64 ts))]])]])]

end

section

variable {f64 : Float → NumberToken}

theorem bucketTexts_textOf (s : SeriesStats) :
    List.Forall₂ TextOf (bucketTexts s) ((List.ofFn s.buckets).map fun c => text (toString c)) := by
  refine forall₂_map_same fun c _ => ?_
  have htext : ("\"" ++ toString c ++ "\"").toList = quoted (toString c) := by
    simp only [String.toList_append,quoted]
    rfl
  rw [TextOf,htext]
  exact isText_quoted (plain_nat c)

theorem boundTexts_textOf : List.Forall₂ TextOf boundTexts boundTrees := by
  have hattach : boundTexts = latencyBoundsMs.attach.map fun b => toString b.1.num := by
    rw [boundTexts,← List.attach_map_subtype_val latencyBoundsMs,List.map_map]
    rfl
  rw [hattach,boundTrees]
  exact forall₂_map_same fun b _ => isText_num ⟨_,isNumber_bound b.1 b.2⟩

/-- The texts of the members of a histogram's data point. -/
def histTexts (f64 : Float → NumberToken) (start ts : ℕ) (s : SeriesStats) : List (List Char) :=
  [memberText "startTimeUnixNano".toList (quoted (toString start)),
    memberText "timeUnixNano".toList (quoted (toString ts)),
    memberText "count".toList (quoted (toString s.count)),
    memberText "sum".toList (f64 s.sumMs).chars,
    memberText "bucketCounts".toList ('[' :: ((joinComma (bucketTexts s)).toList ++ [']'])),
    memberText "explicitBounds".toList ('[' :: ((joinComma boundTexts).toList ++ [']']))]

theorem histTexts_members (start ts : ℕ) (s : SeriesStats) :
    List.Forall₂ IsMember (histTexts f64 start ts s) (histMembers f64 start ts s) :=
  .cons (isMember_quoted (plain_nat _) (by decide)) <|
    .cons (isMember_quoted (plain_nat _) (by decide)) <|
    .cons (isMember_quoted (plain_nat _) (by decide)) <|
    .cons (isMember_named (isText_num _) (by decide)) <|
    .cons (isMember_named (isText_joined (bucketTexts_textOf s)) (by decide)) <|
    .cons (isMember_named (isText_joined boundTexts_textOf) (by decide)) .nil

theorem histPoint_toList (start ts : ℕ) (s : SeriesStats) :
    (histPoint f64 start ts s).toList = '\x7b' :: [','].intercalate (histTexts f64 start ts s) := by
  have h₁ : "\x7b\"startTimeUnixNano\":\"".toList =
      '\x7b' :: '"' :: ("startTimeUnixNano".toList ++ ['"',':','"']) := rfl
  have h₂ : "\",\"timeUnixNano\":\"".toList =
      '"' :: ',' :: '"' :: ("timeUnixNano".toList ++ ['"',':','"']) := rfl
  have h₃ : "\",\"count\":\"".toList = '"' :: ',' :: '"' :: ("count".toList ++ ['"',':','"']) := rfl
  have h₄ : "\",\"sum\":".toList = '"' :: ',' :: '"' :: ("sum".toList ++ ['"',':']) := rfl
  have h₅ : ",\"bucketCounts\":[".toList = ',' :: '"' :: ("bucketCounts".toList ++ ['"',':','[']) := rfl
  have h₆ : "],\"explicitBounds\":[".toList =
      ']' :: ',' :: '"' :: ("explicitBounds".toList ++ ['"',':','[']) := rfl
  have h₇ : "]".toList = [']'] := rfl
  unfold histPoint
  simp only [String.toList_append,String.toList_ofList,histTexts,memberText,quoted,
    intercalate_comma_cons,List.flatMap_cons,List.flatMap_nil,h₁,h₂,h₃,h₄,h₅,h₆,h₇,List.append_assoc,
    List.cons_append,List.nil_append,List.append_nil]

def intTexts (start ts value : ℕ) : List (List Char) :=
  [memberText "startTimeUnixNano".toList (quoted (toString start)),
    memberText "timeUnixNano".toList (quoted (toString ts)),
    memberText "asInt".toList (quoted (toString value))]

theorem intTexts_members (start ts value : ℕ) :
    List.Forall₂ IsMember (intTexts start ts value) (intMembers start ts value) :=
  .cons (isMember_quoted (plain_nat _) (by decide)) <|
    .cons (isMember_quoted (plain_nat _) (by decide)) <|
    .cons (isMember_quoted (plain_nat _) (by decide)) .nil

theorem intPoint_toList (start ts value : ℕ) :
    (intPoint start ts value).toList = '\x7b' :: [','].intercalate (intTexts start ts value) := by
  have h₁ : "\x7b\"startTimeUnixNano\":\"".toList =
      '\x7b' :: '"' :: ("startTimeUnixNano".toList ++ ['"',':','"']) := rfl
  have h₂ : "\",\"timeUnixNano\":\"".toList =
      '"' :: ',' :: '"' :: ("timeUnixNano".toList ++ ['"',':','"']) := rfl
  have h₃ : "\",\"asInt\":\"".toList = '"' :: ',' :: '"' :: ("asInt".toList ++ ['"',':','"']) := rfl
  have h₄ : "\"".toList = ['"'] := rfl
  unfold intPoint
  simp only [String.toList_append,intTexts,memberText,quoted,intercalate_comma_cons,
    List.flatMap_cons,List.flatMap_nil,h₁,h₂,h₃,h₄,List.append_assoc,List.cons_append,
    List.nil_append,List.append_nil]

theorem closed_textOf {body : String} {ts : List (List Char)} {ms : List (List Char × Json)}
    (h : body.toList = '\x7b' :: [','].intercalate ts) (hts : List.Forall₂ IsMember ts ms) :
    TextOf (body ++ "\x7d") (.obj ms) := by
  have hclose : "\x7d".toList = ['\x7d'] := rfl
  rw [TextOf,String.toList_append,h,hclose]
  exact isText_object hts

section Labels

variable {jsonStr : String → String} (hjson : ReadsBack jsonStr)

include hjson

theorem otlpAttrs_textOf (k : SeriesKey) : TextOf (otlpAttrs jsonStr k) (.arr (attrTrees k)) := by
  have hattrs : List.Forall₂ TextOf [kvStr jsonStr "src" k.src,kvStr jsonStr "dst" k.dst,
      kvStr jsonStr "http.method" k.method,kvStr jsonStr "http.route" k.route,
      kvStr jsonStr "http.status_class" k.statusClass,kvStr jsonStr "http.protocol" k.protocol]
      (attrTrees k) :=
    .cons (kvStr_textOf hjson _ _) <| .cons (kvStr_textOf hjson _ _) <|
      .cons (kvStr_textOf hjson _ _) <| .cons (kvStr_textOf hjson _ _) <|
      .cons (kvStr_textOf hjson _ _) <| .cons (kvStr_textOf hjson _ _) .nil
  have hopen : "[".toList = ['['] := rfl
  have hclose : "]".toList = [']'] := rfl
  unfold otlpAttrs
  rw [TextOf,String.toList_append,String.toList_append,hopen,hclose]
  exact isText_joined hattrs

theorem labeled_textOf {body : String} {t : List Char} {ts : List (List Char)}
    {ms : List (List Char × Json)} (h : body.toList = '\x7b' :: [','].intercalate (t :: ts))
    (hts : List.Forall₂ IsMember (t :: ts) ms) (k : SeriesKey) :
    TextOf (body ++ ",\"attributes\":" ++ otlpAttrs jsonStr k ++ "\x7d")
      (.obj (ms ++ [member "attributes" (.arr (attrTrees k))])) := by
  have h₁ : ",\"attributes\":".toList = ',' :: '"' :: ("attributes".toList ++ ['"',':']) := rfl
  have h₂ : "\x7d".toList = ['\x7d'] := rfl
  have htext : (body ++ ",\"attributes\":" ++ otlpAttrs jsonStr k ++ "\x7d").toList =
      objectText ((t :: ts) ++ [memberText "attributes".toList (otlpAttrs jsonStr k).toList]) := by
    simp only [String.toList_append,h,h₁,h₂,objectText,memberText,intercalate_comma_cons,
      List.flatMap_append,List.flatMap_cons,List.flatMap_nil,List.append_assoc,List.cons_append,
      List.nil_append,List.append_nil]
  rw [TextOf,htext]
  refine isText_object (List.rel_append hts (.cons ?_ .nil))
  exact isMember_named (otlpAttrs_textOf hjson k) (by decide)

theorem histDataPoints_textOf (start ts : ℕ)
    (es : List (Sigma fun _ : SeriesKey => SeriesStats)) :
    List.Forall₂ TextOf (es.map fun e => histDataPoint f64 start ts e.2 (otlpAttrs jsonStr e.1))
      (es.map (histTree f64 start ts)) :=
  forall₂_map_same fun e _ => labeled_textOf hjson (histPoint_toList start ts e.2)
    (histTexts_members start ts e.2) e.1

theorem labeledPoints_textOf (start ts : ℕ) (value : SeriesStats → ℕ)
    (es : List (Sigma fun _ : SeriesKey => SeriesStats)) :
    List.Forall₂ TextOf (es.map fun e => labeledPoint start ts (value e.2) (otlpAttrs jsonStr e.1))
      (es.map fun e => labeledTree start ts (value e.2) e.1) :=
  forall₂_map_same fun e _ => labeled_textOf hjson (intPoint_toList start ts (value e.2))
    (intTexts_members start ts (value e.2)) e.1

end Labels

theorem isText_two : IsText ['2'] two := isText_num ⟨['2'],by decide⟩

section Points

variable {points : List String} {trees : List Json} (hpoints : List.Forall₂ TextOf points trees)
  {name desc : String} (hname : Plain name.toList)

include hpoints hname

theorem histMetric_textOf (hdesc : Plain desc.toList) :
    TextOf (histMetric name desc points) (histMetricTree name desc trees) := by
  have h₁ : "\x7b\"name\":\"".toList = '\x7b' :: '"' :: ("name".toList ++ ['"',':','"']) := rfl
  have h₂ : "\",\"unit\":\"ms\",\"description\":\"".toList =
      '"' :: ',' :: '"' :: ("unit".toList ++ '"' :: ':' :: '"' :: ("ms".toList ++ '"' :: ',' :: '"' ::
        ("description".toList ++ ['"',':','"']))) := rfl
  have h₃ : "\",\"histogram\":\x7b\"aggregationTemporality\":2,\"dataPoints\":[".toList =
      '"' :: ',' :: '"' :: ("histogram".toList ++ '"' :: ':' :: '\x7b' :: '"' ::
        ("aggregationTemporality".toList ++ '"' :: ':' :: '2' :: ',' :: '"' ::
          ("dataPoints".toList ++ ['"',':','[']))) := rfl
  have h₄ : "]\x7d\x7d".toList = [']','\x7d','\x7d'] := rfl
  have htext : (histMetric name desc points).toList = objectText
      [memberText "name".toList (quoted name),memberText "unit".toList (quoted "ms"),
        memberText "description".toList (quoted desc),memberText "histogram".toList (objectText
          [memberText "aggregationTemporality".toList ['2'],memberText "dataPoints".toList
            ('[' :: ((joinComma points).toList ++ [']']))])] := by
    unfold histMetric
    simp only [String.toList_append,h₁,h₂,h₃,h₄,objectText,memberText,quoted,
      intercalate_comma_cons,List.flatMap_cons,List.flatMap_nil,List.append_assoc,List.cons_append,
      List.nil_append,List.append_nil]
  rw [TextOf,htext]
  refine isText_object <| .cons (isMember_quoted hname (by decide)) <|
    .cons (isMember_quoted (by decide) (by decide)) <|
    .cons (isMember_quoted hdesc (by decide)) <|
    .cons (isMember_named (isText_object ?_) (by decide)) .nil
  exact .cons (isMember_named isText_two (by decide)) <|
    .cons (isMember_named (isText_joined hpoints) (by decide)) .nil

theorem sumMetric_textOf : TextOf (sumMetric name points) (sumMetricTree name trees) := by
  have h₁ : "\x7b\"name\":\"".toList = '\x7b' :: '"' :: ("name".toList ++ ['"',':','"']) := rfl
  have h₂ : "\",\"unit\":\"1\",\"sum\":\x7b\"aggregationTemporality\":2,\"isMonotonic\":true,\"dataPoints\":[".toList =
      '"' :: ',' :: '"' :: ("unit".toList ++ '"' :: ':' :: '"' :: ("1".toList ++ '"' :: ',' :: '"' ::
        ("sum".toList ++ '"' :: ':' :: '\x7b' :: '"' :: ("aggregationTemporality".toList ++ '"' ::
          ':' :: '2' :: ',' :: '"' :: ("isMonotonic".toList ++ '"' :: ':' :: 't' :: 'r' :: 'u' ::
            'e' :: ',' :: '"' :: ("dataPoints".toList ++ ['"',':','['])))))) := rfl
  have h₃ : "]\x7d\x7d".toList = [']','\x7d','\x7d'] := rfl
  have htext : (sumMetric name points).toList = objectText
      [memberText "name".toList (quoted name),memberText "unit".toList (quoted "1"),
        memberText "sum".toList (objectText
          [memberText "aggregationTemporality".toList ['2'],
            memberText "isMonotonic".toList ['t','r','u','e'],memberText "dataPoints".toList
              ('[' :: ((joinComma points).toList ++ [']']))])] := by
    unfold sumMetric
    simp only [String.toList_append,h₁,h₂,h₃,objectText,memberText,quoted,
      intercalate_comma_cons,List.flatMap_cons,List.flatMap_nil,List.append_assoc,List.cons_append,
      List.nil_append,List.append_nil]
  rw [TextOf,htext]
  refine isText_object <| .cons (isMember_quoted hname (by decide)) <|
    .cons (isMember_quoted (by decide) (by decide)) <|
    .cons (isMember_named (isText_object ?_) (by decide)) .nil
  exact .cons (isMember_named isText_two (by decide)) <|
    .cons (isMember_named isText_true (by decide)) <|
    .cons (isMember_named (isText_joined hpoints) (by decide)) .nil

omit hpoints

theorem gaugeMetric_textOf (ts value : ℕ) :
    TextOf (gaugeMetric name ts value) (gaugeMetricTree name ts value) := by
  have h₁ : "\x7b\"name\":\"".toList = '\x7b' :: '"' :: ("name".toList ++ ['"',':','"']) := rfl
  have h₂ : "\",\"unit\":\"1\",\"gauge\":\x7b\"dataPoints\":[\x7b\"timeUnixNano\":\"".toList =
      '"' :: ',' :: '"' :: ("unit".toList ++ '"' :: ':' :: '"' :: ("1".toList ++ '"' :: ',' :: '"' ::
        ("gauge".toList ++ '"' :: ':' :: '\x7b' :: '"' :: ("dataPoints".toList ++ '"' :: ':' :: '[' ::
          '\x7b' :: '"' :: ("timeUnixNano".toList ++ ['"',':','"']))))) := rfl
  have h₃ : "\",\"asInt\":\"".toList = '"' :: ',' :: '"' :: ("asInt".toList ++ ['"',':','"']) := rfl
  have h₄ : "\"\x7d]\x7d\x7d".toList = ['"','\x7d',']','\x7d','\x7d'] := rfl
  have htext : (gaugeMetric name ts value).toList = objectText
      [memberText "name".toList (quoted name),memberText "unit".toList (quoted "1"),
        memberText "gauge".toList (objectText [memberText "dataPoints".toList (arrayText [objectText
          [memberText "timeUnixNano".toList (quoted (toString ts)),
            memberText "asInt".toList (quoted (toString value))]])])] := by
    unfold gaugeMetric
    simp only [String.toList_append,h₁,h₂,h₃,h₄,objectText,arrayText,memberText,quoted,
      intercalate_comma_cons,List.flatMap_cons,List.flatMap_nil,List.append_assoc,List.cons_append,
      List.nil_append,List.append_nil]
  rw [TextOf,htext]
  refine isText_object <| .cons (isMember_quoted hname (by decide)) <|
    .cons (isMember_quoted (by decide) (by decide)) <|
    .cons (isMember_named (isText_object (.cons (isMember_named (isText_array
      (.cons (isText_object ?_) .nil)) (by decide)) .nil)) (by decide)) .nil
  exact .cons (isMember_quoted (plain_nat _) (by decide)) <|
    .cons (isMember_quoted (plain_nat _) (by decide)) .nil

omit hname
include hpoints

theorem unlessEmpty_textOf {metric : List String → String} {tree : List Json → Json}
    (h : TextOf (metric points) (tree trees)) :
    List.Forall₂ TextOf (unlessEmpty points metric) (unlessEmpty trees tree) := by
  unfold unlessEmpty
  cases hpoints with
  | nil => exact .nil
  | cons hp hps => exact .cons h .nil

theorem histMetrics_textOf (hname : Plain name.toList) (hdesc : Plain desc.toList) :
    List.Forall₂ TextOf (unlessEmpty points (histMetric name desc))
      (unlessEmpty trees (histMetricTree name desc)) :=
  unlessEmpty_textOf hpoints (histMetric_textOf hpoints hname hdesc)

theorem sumMetrics_textOf (hname : Plain name.toList) :
    List.Forall₂ TextOf (unlessEmpty points (sumMetric name))
      (unlessEmpty trees (sumMetricTree name)) :=
  unlessEmpty_textOf hpoints (sumMetric_textOf hpoints hname)

end Points

end

theorem plain_selfMetrics (g : MetricsSnapshot) : ∀ m ∈ g.selfMetrics, Plain m.1.toList := by
  have hnames : ∀ name ∈ g.selfMetrics.map Prod.fst, Plain name.toList := by
    change ∀ name ∈ ["obsagent.events_dropped","obsagent.tls_unmapped","obsagent.otlp_dropped",
      "obsagent.traces.sampled","obsagent.traces.not_sampled","obsagent.traces.dropped",
      "obsagent.traces.export_failed"], Plain name.toList
    decide
  exact fun m hm => hnames m.1 (List.mem_map_of_mem hm)

theorem plain_selfGauges (g : MetricsSnapshot) : ∀ m ∈ g.selfGauges, Plain m.1.toList := by
  have hnames : ∀ name ∈ g.selfGauges.map Prod.fst, Plain name.toList := by
    change ∀ name ∈ ["obsagent.service_map.edges","obsagent.sample_n"], Plain name.toList
    decide
  exact fun m hm => hnames m.1 (List.mem_map_of_mem hm)

section

variable {jsonStr : String → String} (hjson : ReadsBack jsonStr) (f64 : Float → NumberToken)
  (g : MetricsSnapshot) (ts : ℕ)

theorem unlabeledHist_textOf (start : ℕ) (s : SeriesStats) {name desc : String}
    (hname : Plain name.toList) (hdesc : Plain desc.toList) :
    TextOf (unlabeledHist f64 name desc start ts s)
      (histMetricTree name desc [.obj (histMembers f64 start ts s)]) :=
  histMetric_textOf (.cons (closed_textOf (histPoint_toList start ts s)
    (histTexts_members start ts s)) .nil) hname hdesc

include hjson

theorem metrics_textOf :
    List.Forall₂ TextOf (g.metrics jsonStr f64 ts) (g.metricTrees f64 ts) := by
  have hhandshake : List.Forall₂ TextOf (if g.handshake.count > 0 then
        [unlabeledHist f64 "tls.handshake.duration" "SSL_do_handshake duration" g.startUnixNano ts
          g.handshake] else [])
      (if g.handshake.count > 0 then
        [histMetricTree "tls.handshake.duration" "SSL_do_handshake duration"
          [.obj (histMembers f64 g.startUnixNano ts g.handshake)]] else []) := by
    split_ifs
    · exact .cons (unlabeledHist_textOf f64 ts _ _ (by decide) (by decide)) .nil
    · exact .nil
  have hself : List.Forall₂ TextOf (g.selfMetrics.map fun m => sumMetric m.1
        [intPoint g.startUnixNano ts m.2 ++ "\x7d"])
      (g.selfMetrics.map fun m => sumMetricTree m.1 [.obj (intMembers g.startUnixNano ts m.2)]) := by
    refine forall₂_map_same fun m hm => sumMetric_textOf ?_ (g.plain_selfMetrics m hm)
    exact .cons (closed_textOf (intPoint_toList _ _ _) (intTexts_members _ _ _)) .nil
  have hgauges : List.Forall₂ TextOf (g.selfGauges.map fun m => gaugeMetric m.1 ts m.2)
      (g.selfGauges.map fun m => gaugeMetricTree m.1 ts m.2) :=
    forall₂_map_same fun m hm => gaugeMetric_textOf (g.plain_selfGauges m hm) ts m.2
  unfold metrics metricTrees
  refine List.rel_append (List.rel_append (List.rel_append (List.rel_append (List.rel_append
    (List.rel_append ?_ ?_) ?_) ?_) hhandshake) hself) hgauges
  · exact histMetrics_textOf (histDataPoints_textOf hjson _ _ _) (by decide) (by decide)
  · exact sumMetrics_textOf (labeledPoints_textOf hjson _ _ SeriesStats.count _) (by decide)
  · exact sumMetrics_textOf (labeledPoints_textOf hjson _ _ SeriesStats.errors _) (by decide)
  · exact histMetrics_textOf (histDataPoints_textOf hjson _ _ _) (by decide) (by decide)

theorem toOtlpJson_textOf : TextOf (g.toOtlpJson jsonStr f64 ts) (g.metricsTree f64 ts) := by
  have h₁ : "\x7b\"resourceMetrics\":[\x7b\"resource\":\x7b\"attributes\":[".toList =
      '\x7b' :: '"' :: ("resourceMetrics".toList ++ '"' :: ':' :: '[' :: '\x7b' :: '"' ::
        ("resource".toList ++ '"' :: ':' :: '\x7b' :: '"' ::
          ("attributes".toList ++ ['"',':','[']))) := rfl
  have h₂ : "\x7b\"key\":\"service.name\",\"value\":\x7b\"stringValue\":\"obsagent\"\x7d\x7d".toList =
      '\x7b' :: '"' :: ("key".toList ++ '"' :: ':' :: '"' :: ("service.name".toList ++ '"' :: ',' ::
        '"' :: ("value".toList ++ '"' :: ':' :: '\x7b' :: '"' :: ("stringValue".toList ++ '"' :: ':' ::
          '"' :: ("obsagent".toList ++ ['"','\x7d','\x7d']))))) := rfl
  have h₃ : "]\x7d,\"scopeMetrics\":[\x7b\"scope\":\x7b\"name\":\"obsagent\",\"version\":\"0.1.0\"\x7d,\"metrics\":[".toList =
      ']' :: '\x7d' :: ',' :: '"' :: ("scopeMetrics".toList ++ '"' :: ':' :: '[' :: '\x7b' :: '"' ::
        ("scope".toList ++ '"' :: ':' :: '\x7b' :: '"' :: ("name".toList ++ '"' :: ':' :: '"' ::
          ("obsagent".toList ++ '"' :: ',' :: '"' :: ("version".toList ++ '"' :: ':' :: '"' ::
            ("0.1.0".toList ++ '"' :: '\x7d' :: ',' :: '"' ::
              ("metrics".toList ++ ['"',':','['])))))))  := rfl
  have h₄ : "]\x7d]\x7d]\x7d".toList = [']','\x7d',']','\x7d',']','\x7d'] := rfl
  have htext : (g.toOtlpJson jsonStr f64 ts).toList = objectText [memberText
      "resourceMetrics".toList (arrayText [objectText
        [memberText "resource".toList (objectText [memberText "attributes".toList (arrayText
            [objectText [memberText "key".toList (quoted "service.name"),memberText "value".toList
              (objectText [memberText "stringValue".toList (quoted "obsagent")])]])]),
          memberText "scopeMetrics".toList (arrayText [objectText
            [memberText "scope".toList (objectText [memberText "name".toList (quoted "obsagent"),
              memberText "version".toList (quoted "0.1.0")]),
            memberText "metrics".toList
              ('[' :: ((joinComma (g.metrics jsonStr f64 ts)).toList ++ [']']))]])]])] := by
    unfold toOtlpJson
    simp only [String.toList_append,h₁,h₂,h₃,h₄,objectText,arrayText,memberText,quoted,
      intercalate_comma_cons,List.flatMap_cons,List.flatMap_nil,List.append_assoc,List.cons_append,
      List.nil_append,List.append_nil]
  rw [TextOf,htext]
  refine isText_object (.cons (isMember_named (isText_array (.cons (isText_object
    (.cons ?_ (.cons ?_ .nil))) .nil)) (by decide)) .nil)
  · refine isMember_named (isText_object (.cons (isMember_named (isText_array (.cons
      (isText_object (.cons (isMember_quoted (by decide) (by decide)) (.cons ?_ .nil))) .nil))
        (by decide)) .nil)) (by decide)
    exact isMember_named (isText_object (.cons (isMember_quoted (by decide) (by decide)) .nil))
      (by decide)
  · refine isMember_named (isText_array (.cons (isText_object (.cons ?_ (.cons ?_ .nil))) .nil))
      (by decide)
    · exact isMember_named (isText_object (.cons (isMember_quoted (by decide) (by decide)) (.cons
        (isMember_quoted (by decide) (by decide)) .nil))) (by decide)
    · exact isMember_named (isText_joined (metrics_textOf hjson f64 g ts)) (by decide)

omit hjson

def histograms : List SeriesStats :=
  g.series.entries.map Sigma.snd ++ g.wire.entries.map Sigma.snd ++ [g.handshake]

end

end MetricsSnapshot

/-- The metrics of any run: the request body reads back as one document, and the counts of the
buckets of each of its histograms, one more than it has bounds, add up to its count. -/
theorem otlp_metrics_read_back (jsonStr : String → String) (hjson : ReadsBack jsonStr)
    (f64 : Float → NumberToken) (enabled : Bool) (sampleN : UInt64) (cap : ℕ)
    (profile : Option ProfileStore) (ops : List SinkOp) (g : MetricsSnapshot) (ts : ℕ)
    (hg : g.toMetricsRegistry = (Machine.final Sinks.step
      (Sinks.start (.start enabled sampleN cap profile)) ops).hub.registry) :
    parse (g.toOtlpJson jsonStr f64 ts).toList = some (g.metricsTree f64 ts) ∧
      ∀ s ∈ g.histograms, (List.ofFn s.buckets).length = MetricsSnapshot.boundTexts.length + 1 ∧
        (List.ofFn s.buckets).sum = s.count := by
  refine ⟨?_,fun s hs => ⟨by simp [MetricsSnapshot.boundTexts],?_⟩⟩
  · exact parse_of_isText (MetricsSnapshot.toOtlpJson_textOf hjson f64 g ts)
  · have htally := (Machine.final_log _ (I := Sinks.Tally) (fun op h => h.step op)
      (Sinks.tally_start (ExportHub.tally_start enabled sampleN cap profile)) ops).hub.registry
    rw [← hg] at htally
    rw [List.sum_ofFn]
    rcases List.mem_append.mp hs with hs | hs
    · rcases List.mem_append.mp hs with hs | hs
      · obtain ⟨⟨k,s⟩,he,rfl⟩ := List.mem_map.mp hs
        exact htally.series k s ((FiniteMap.get_eq_some_iff _ k s).mpr he)
      · obtain ⟨⟨k,s⟩,he,rfl⟩ := List.mem_map.mp hs
        exact htally.wire k s ((FiniteMap.get_eq_some_iff _ k s).mpr he)
    · rw [List.mem_singleton.mp hs]
      exact htally.handshake

def oneHandshake : MetricsSnapshot where
  toMetricsRegistry := (Machine.final Sinks.step (Sinks.start (.start false 1 0 none))
    [.noteHandshake 42 3 5 7 0]).hub.registry
  startUnixNano := 0
  eventsDropped := 0
  otlpDropped := 0
  edgeCount := 0
  tlsUnmapped := 0
  tracesExportFailed := 0
  sampleN := 1

theorem otlp_metrics_read_back_handshake :
    oneHandshake.handshake.count = 1 ∧
      parse (oneHandshake.toOtlpJson (fun s => String.ofList (quote s.toList))
          (fun _ => ⟨['0'],by decide⟩) 5).toList =
        some (oneHandshake.metricsTree (fun _ => ⟨['0'],by decide⟩) 5) :=
  ⟨rfl,(otlp_metrics_read_back _ readsBack_quote (fun _ => ⟨['0'],by decide⟩) false 1 0 none
    [.noteHandshake 42 3 5 7 0] oneHandshake 5 rfl).1⟩

end ObsAgent
