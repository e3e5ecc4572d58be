/-
# CocoHarness.Persistence.Header — the header record of a session log.

A log's first line is the session's immutable header, tagged so that a reader can tell it from an event line.  A
header can only be built with the current version and safe counts, so a header line written is a header line read
(`parseHeaderRecord_toHeaderLine`), with the delegation depth made explicit.
-/
import CocoHarness.Lib.Lines
import CocoHarness.Lib.Utf8
import CocoHarness.SessionLog.Admission

namespace CocoHarness.Persistence

open Lib Lib.SafeInteger SessionLog List Json Utf8 SessionEvent

/-! ## Printing unknown values -/

mutual

def jsString : Json → String
  | .null => "null"
  | .bool b => if b then "true" else "false"
  | .num n => String.ofList (Numeral.numberText n)
  | .str s => s
  | .arr xs => ",".intercalate (elementStrings xs)
  | .obj _ => "[object Object]"

/-- The elements of an array as `Array.prototype.join` prints them. -/
def elementStrings : List Json → List String
  | [] => []
  | .null :: xs => "" :: elementStrings xs
  | x :: xs => jsString x :: elementStrings xs

end

def jsStringOf : Option Json → String
  | none => "undefined"
  | some v => jsString v

mutual

/-- Whether `String(value)` succeeds: a `toString` field hides the inherited method. -/
def printable : Json → Bool
  | .arr xs => printableElements xs
  | .obj fields => !(Json.keys fields).contains "toString"
  | _ => true

def printableElements : List Json → Bool
  | [] => true
  | x :: xs => printable x && printableElements xs

end

def stringOf (v : Option Json) : Except JsError String :=
  if v.all printable then .ok (jsStringOf v) else .error .notPrimitive

/-! ## Headers -/

def sessionFormatVersion : Int := 0

structure SafeNat where
  val : Nat
  safe : IsSafe val

def SafeNat.toJson (n : SafeNat) : Json := SessionEvent.intField n.val

structure SessionHeader where
  version : Number := .int sessionFormatVersion
  id : String
  /-- Unix epoch milliseconds. -/
  createdAt : SafeNat
  cwd : Option String := none
  parentSession : Option String := none
  seedLength : Option SafeNat := none
  /-- Whether `origin` is `'subagent'`; it is absent otherwise. -/
  subagent : Bool := false
  delegationDepth : Option SafeNat := none
  agentPreset : Option String := none
  current : version = .int sessionFormatVersion := by rfl

variable (fields : List (String × Option Json))

def record : Json :=
  .obj (fields.flatMap fun field => (field.2.map (field.1, ·)).toList)

variable (header : SessionHeader)

/-- The header line object: the header tagged as a `session` record. -/
def toHeaderLine : Json :=
  record [("type", some (.str "session")), ("version", some (.num header.version)),
    ("id", some (.str header.id)), ("createdAt", some header.createdAt.toJson),
    ("cwd", header.cwd.map .str), ("parentSession", header.parentSession.map .str),
    ("seedLength", header.seedLength.map SafeNat.toJson),
    ("origin", if header.subagent then some (.str "subagent") else none),
    ("delegationDepth", some ((header.delegationDepth.map SafeNat.toJson).getD (SessionEvent.intField 0))),
    ("agentPreset", header.agentPreset.map .str)]

def safeNat? (value : Option Json) : Option Int := (value.bind safeInt?).filter (0 ≤ ·)

/-- Whether a parsed first line is a well-formed session header. -/
def isHeaderLine (value : Json) : Bool :=
  value.get? "type" = some (.str "session")
    && ((value.get? "version").bind Json.num?).isSome
    && ((value.get? "id").bind Json.str?).isSome
    && (safeNat? (value.get? "createdAt")).isSome
    && (safeNat? (value.get? "delegationDepth")).isSome
    && ((value.get? "origin").isNone || value.get? "origin" = some (.str "subagent"))
    && ((value.get? "agentPreset").isNone || ((value.get? "agentPreset").bind Json.str?).isSome)

/-- Parse a header line back into header metadata, absent fields omitted. -/
def fromHeaderLine (line : Json) : Except JsError Json :=
  if (line.get? "sandboxMode").isSome ∨ (line.get? "approvalPolicy").isSome then
    .error (.error "session header uses retired policy baseline fields")
  else
    .ok (record [("version", line.get? "version"), ("id", line.get? "id"),
      ("createdAt", line.get? "createdAt"), ("cwd", line.get? "cwd"),
      ("parentSession", line.get? "parentSession"), ("seedLength", line.get? "seedLength"),
      ("origin", line.get? "origin"), ("delegationDepth", line.get? "delegationDepth"),
      ("agentPreset", line.get? "agentPreset")])

def sessionFormatVersionRefusal (id : String) (version : Number) : String :=
  let text := String.ofList (Numeral.numberText version)
  let newer : Bool := match version with
    | .int n => sessionFormatVersion < n
    | .frac m _ _ => 0 < m
  if newer then
    s!"session \"{id}\" uses log format v{text}, but this harness reads only "
      ++ s!"v{sessionFormatVersion}: the log was written by a newer harness — "
      ++ "upgrade the harness to open it"
  else
    s!"session \"{id}\" uses log format v{text}, older than the supported "
      ++ s!"v{sessionFormatVersion}, and this build ships no upgrade path for it"

/-- Refuse a header of a foreign format version, before its shape is checked. -/
def refuseForeignFormatVersion (parsed : Json) : Except JsError Unit :=
  match (parsed.get? "version").bind Json.num? with
  | none => .ok ()
  | some version =>
    if version = .int sessionFormatVersion then .ok ()
    else do
      let id ← stringOf (parsed.get? "id")
      throw (.error (sessionFormatVersionRefusal id version))

def parseHeaderRecord (record : List UInt8) : Except JsError Json :=
  match Lines.first? Utf8.newline record with
  | some (line, []) =>
    match JsonText.parse (Utf8.decode line) with
    | none => .error (.error "corrupt session log: header line is not valid JSON")
    | some parsed => do
      refuseForeignFormatVersion parsed
      if ¬ isHeaderLine parsed then
        throw (.error "corrupt session log: first line is not a session header")
      else fromHeaderLine parsed
  | _ => .error (.error "empty or header-less session log")

/-! ## Reading a record -/

theorem record_keys_sublist : (Json.keys (fields.flatMap fun field => (field.2.map (field.1, ·)).toList)).Sublist
      (fields.map Prod.fst) := by
  induction fields with
  | nil => exact List.Sublist.refl []
  | cons field fields ih =>
    obtain ⟨key, value⟩ := field
    cases value with
    | none => exact ih.trans (sublist_cons_self _ _)
    | some v => exact ih.cons_cons key

theorem record_get? {fields : List (String × Option Json)} (h : (fields.map Prod.fst).Nodup)
    (key : String) : (record fields).get? key = (fields.lookup key).join := by
  rw [record, get?_obj]
  induction fields with
  | nil => rfl
  | cons field fields ih =>
    obtain ⟨name, value⟩ := field
    obtain ⟨hname, hfields⟩ := nodup_cons.mp h
    rw [flatMap_cons, lookup_cons]
    by_cases hkey : key = name
    · subst hkey
      rw [beq_self_eq_true]
      cases value with
      | some v => simp
      | none =>
        have hout : fields.lookup key = none := by
          rw [lookup_eq_none_iff]
          intro f hf
          exact bne_iff_ne.mpr fun heq => hname (mem_map.mpr ⟨f, hf, heq.symm⟩)
        simp [ih hfields, hout]
    · rw [beq_eq_false_iff_ne.mpr hkey]
      cases value with
      | some v => simpa [lookup_cons, beq_eq_false_iff_ne.mpr hkey] using ih hfields
      | none => simpa using ih hfields

theorem record_wf {fields : List (String × Option Json)} (h : (fields.map Prod.fst).Nodup)
    (hvalues : ∀ field ∈ fields, ∀ v, field.2 = some v → v.WF) : (record fields).WF := by
  rw [record, wf_obj]
  refine ⟨h.sublist (record_keys_sublist fields), ?_⟩
  intro f hf
  obtain ⟨field, hfield, hmem⟩ := mem_flatMap.mp hf
  obtain ⟨v, hv, rfl⟩ := by simpa using hmem
  exact hvalues field hfield v hv

/-! ## A header line written is a header line read -/

def headerRecord : List UInt8 := Utf8.encode (JsonText.text (toHeaderLine header) ++ ['\n'])

/-- What a header reads back as: its delegation depth is explicit. -/
def SessionHeader.stored : Json :=
  record [("version", some (.num header.version)), ("id", some (.str header.id)),
    ("createdAt", some header.createdAt.toJson), ("cwd", header.cwd.map .str),
    ("parentSession", header.parentSession.map .str),
    ("seedLength", header.seedLength.map SafeNat.toJson),
    ("origin", if header.subagent then some (.str "subagent") else none),
    ("delegationDepth", some ((header.delegationDepth.map SafeNat.toJson).getD (SessionEvent.intField 0))),
    ("agentPreset", header.agentPreset.map .str)]

@[simp] theorem safeNat?_toJson (n : SafeNat) : safeNat? (some n.toJson) = some n.val := by
  have hsafe := safeInt?_eq_some_iff.mpr ⟨rfl, n.safe⟩
  simp [safeNat?, SafeNat.toJson, hsafe, Option.filter_some]

theorem safeNat_wf (n : SafeNat) : n.toJson.WF := trivial

theorem toHeaderLine_wf : (toHeaderLine header).WF := by
  have hcount : ∀ (n : Option SafeNat) v, n.map SafeNat.toJson = some v → v.WF := by
    intro n v hv
    obtain ⟨m, -, rfl⟩ := Option.map_eq_some_iff.mp hv
    exact safeNat_wf m
  have htext : ∀ (s : Option String) v, s.map str = some v → v.WF := by
    intro s v hv
    obtain ⟨t, -, rfl⟩ := Option.map_eq_some_iff.mp hv
    trivial
  have hplain : ∀ {w v : Json}, some w = some v → w.WF → v.WF := by
    rintro w _ ⟨⟩ hw
    exact hw
  have horigin : ∀ v, (if header.subagent then some (str "subagent") else none) = some v → v.WF := by
    intro v hv
    split at hv
    · exact hplain hv trivial
    · cases hv
  have hdepth : ((header.delegationDepth.map SafeNat.toJson).getD (intField 0)).WF := by
    cases header.delegationDepth <;> trivial
  refine record_wf (by simp) fun field hfield v hv => ?_
  simp only [mem_cons, not_mem_nil, or_false] at hfield
  rcases hfield with rfl | rfl | rfl | rfl | rfl | rfl | rfl | rfl | rfl | rfl
  · exact hplain hv trivial
  · exact hplain hv trivial
  · exact hplain hv trivial
  · exact hplain hv trivial
  · exact htext _ v hv
  · exact htext _ v hv
  · exact hcount _ v hv
  · exact horigin v hv
  · exact hplain hv hdepth
  · exact htext _ v hv

theorem toHeaderLine_get? (key : String) {value : Option Json}
    (h : List.lookup key [("type", some (.str "session")), ("version", some (.num header.version)),
      ("id", some (.str header.id)), ("createdAt", some header.createdAt.toJson),
      ("cwd", header.cwd.map .str), ("parentSession", header.parentSession.map .str),
      ("seedLength", header.seedLength.map SafeNat.toJson),
      ("origin", if header.subagent then some (.str "subagent") else none),
      ("delegationDepth", some ((header.delegationDepth.map SafeNat.toJson).getD (intField 0))),
      ("agentPreset", header.agentPreset.map .str)] = some value) :
    (toHeaderLine header).get? key = value := by
  rw [toHeaderLine, record_get? (by simp), h]
  rfl

theorem isHeaderLine_toHeaderLine : isHeaderLine (toHeaderLine header) = true := by
  have hdepth : safeNat? (some ((header.delegationDepth.map SafeNat.toJson).getD
      (intField 0))) ≠ none := by
    cases header.delegationDepth with
    | none => decide
    | some depth => simp
  rw [isHeaderLine, toHeaderLine_get? header "type" rfl, toHeaderLine_get? header "version" rfl,
    toHeaderLine_get? header "id" rfl, toHeaderLine_get? header "createdAt" rfl,
    toHeaderLine_get? header "delegationDepth" rfl, toHeaderLine_get? header "origin" rfl,
    toHeaderLine_get? header "agentPreset" rfl]
  have hdepth' := Option.isSome_iff_ne_none.mpr hdepth
  cases header.subagent <;> cases header.agentPreset <;>
    simp [hdepth', num?, str?]

theorem fromHeaderLine_toHeaderLine : fromHeaderLine (toHeaderLine header) = .ok header.stored := by
  have hretired : ∀ key, key ∉ ["type", "version", "id", "createdAt", "cwd", "parentSession",
      "seedLength", "origin", "delegationDepth", "agentPreset"] →
      (toHeaderLine header).get? key = none := by
    intro key hkey
    rw [toHeaderLine, record_get? (by simp)]
    rw [lookup_eq_none_iff.mpr]
    · rfl
    · intro f hf
      refine bne_iff_ne.mpr fun heq => hkey ?_
      rw [heq]
      simpa using mem_map_of_mem (f := Prod.fst) hf
  rw [fromHeaderLine, hretired "sandboxMode" (by decide), hretired "approvalPolicy" (by decide),
    if_neg (by simp), toHeaderLine_get? header "version" rfl, toHeaderLine_get? header "id" rfl,
    toHeaderLine_get? header "createdAt" rfl, toHeaderLine_get? header "cwd" rfl,
    toHeaderLine_get? header "parentSession" rfl, toHeaderLine_get? header "seedLength" rfl,
    toHeaderLine_get? header "origin" rfl, toHeaderLine_get? header "delegationDepth" rfl,
    toHeaderLine_get? header "agentPreset" rfl]
  rfl

theorem headerRecord_eq : headerRecord header
    = encode (JsonText.text (toHeaderLine header)) ++ [newline] := by
  rw [headerRecord, encode_append, encode_newline]

/-- **Header round trip.** The header line a log starts with parses back to its header. -/
theorem parseHeaderRecord_headerRecord : parseHeaderRecord (headerRecord header) = .ok header.stored := by
  have hfirst : Lines.first? newline (headerRecord header)
      = some (encode (JsonText.text (toHeaderLine header)), []) := by
    rw [headerRecord_eq]
    exact Lines.first?_line (newline_notMem_encode_text _)
  have hversion : refuseForeignFormatVersion (toHeaderLine header) = .ok () := by
    rw [refuseForeignFormatVersion, toHeaderLine_get? header "version" rfl]
    simp [num?, header.current]
  rw [parseHeaderRecord, hfirst]
  simp [decode_encode, JsonText.parse_text (toHeaderLine_wf header), hversion,
    isHeaderLine_toHeaderLine, fromHeaderLine_toHeaderLine]

end CocoHarness.Persistence
