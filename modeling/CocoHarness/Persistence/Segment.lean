/-
# CocoHarness.Persistence.Segment — path segments for unvalidated ids.

A session id is any string, so it is escaped before it names a directory: every code unit outside a small portable
set becomes `~XXXX`, and the two names a file system reads as directions (`.` and `..`) are escaped although their
units are portable.
-/
import CocoHarness.Lib.Fallible
import CocoHarness.Lib.Utf16
import CocoHarness.SessionLog.JsonValue

namespace CocoHarness.Persistence

open Lib Lib.Utf16 SessionLog List

/-! ## Segments -/

def inRange (first last : Char) (u : Unit16) : Bool := first.toNat ≤ u.toNat && u.toNat ≤ last.toNat

def isPortable (u : Unit16) : Bool :=
  inRange 'A' 'Z' u || inRange 'a' 'z' u || inRange '0' '9' u
    || u == unit '.' || u == unit '_' || u == unit '-'

def tilde : Unit16 := unit '~'

def isLiteral (u : Unit16) : Bool := u != tilde && isPortable u

def encodeSegment (raw : List Unit16) : Except JsError (List Unit16) :=
  if raw.length = 0 then .error (.error "cannot encode an empty path segment")
  else if raw = text "." then .ok (text "~002E")
  else if raw = text ".." then .ok (text "~002E~002E")
  else .ok (escape tilde isLiteral raw)

/-! ## Paths -/

/-- A normalized absolute path, as its segments below the file system's root. -/
abbrev Path := List (List Unit16)

def isSeparator (windows : Bool) (u : Unit16) : Bool := u == unit '/' || (windows && u == unit '\\')

/-- Enter one segment: the two direction names and empty segments are resolved. -/
def enter (dir : Path) (segment : List Unit16) : Path :=
  if segment = [] ∨ segment = text "." then dir
  else if segment = text ".." then dir.dropLast
  else dir ++ [segment]

def join (windows : Bool) (dir : Path) (name : List Unit16) : Path :=
  (name.splitOnP (isSeparator windows)).foldl enter dir

structure KeyState where
  readable : List Unit16 := []
  separatorRun : Bool := false

def KeyState.step (s : KeyState) (u : Unit16) : KeyState :=
  if u = unit '/' ∨ u = unit '\\' ∨ u = unit ':' then
    { readable := if s.separatorRun then s.readable else s.readable ++ [unit '-'], separatorRun := true }
  else if isLiteral u then { readable := s.readable ++ [u], separatorRun := false }
  else { readable := s.readable ++ escapeUnit tilde u, separatorRun := false }

def projectKey (cwd : List Unit16) : Except JsError (List Unit16) :=
  if cwd.length = 0 then .error (.error "cannot encode an empty project path")
  else
    let readable := (cwd.foldl KeyState.step {}).readable
    let stripped := readable.dropWhile (· == unit '-')
    let slug := if stripped = [] then text "root" else stripped
    .ok (text "--" ++ slug.take 251 ++ text "--")

/-- The human-navigable project directory under the configured root. -/
def projectDir (windows : Bool) (root : Path) (cwd : Option (List Unit16)) : Except JsError Path :=
  match cwd with
  | none => .ok (join windows root (text "_no-cwd"))
  | some cwd => do
    let key ← projectKey cwd
    return join windows root key

def sessionDir (windows : Bool) (root : Path) (cwd : Option (List Unit16)) (id : List Unit16) :
    Except JsError Path := do
  let dir ← projectDir windows root cwd
  let segment ← encodeSegment id
  return join windows dir segment

inductive JsonlCompression where
  | zstd
  | none
  deriving DecidableEq

def logSuffix : JsonlCompression → List Unit16
  | .zstd => text ".jsonl.zstd"
  | .none => text ".jsonl"

def logPath (windows : Bool) (root : Path) (cwd : Option (List Unit16)) (id : List Unit16)
    (compression : JsonlCompression) : Except JsError Path := do
  let dir ← sessionDir windows root cwd id
  return join windows dir (text "session" ++ logSuffix compression)

/-! ## Safe segments -/

/-- The units some file system reads as more than a part of a name. -/
def reserved : List Unit16 := text "/\\:*?\"<>|%\x00\t\n\r "

def isSafe (u : Unit16) : Bool := isPortable u || u == tilde

structure SafeSegment (segment : List Unit16) : Prop where
  nonempty : segment ≠ []
  notDot : segment ≠ text "."
  notDotDot : segment ≠ text ".."
  portable : ∀ u ∈ segment, isSafe u = true

variable {segment : List Unit16}

theorem SafeSegment.not_reserved (h : SafeSegment segment) : ∀ u ∈ segment, u ∉ reserved := by
  have hreserved : reserved.all (fun u => !isSafe u) = true := by decide
  intro u hu hmem
  have hunsafe := all_eq_true.mp hreserved u hmem
  rw [h.portable u hu] at hunsafe
  cases hunsafe

theorem SafeSegment.not_separator (h : SafeSegment segment) (windows : Bool) :
    ∀ u ∈ segment, isSeparator windows u = false := by
  intro u hu
  have hfree := h.not_reserved u hu
  have hslash : u ≠ unit '/' := fun heq => hfree (heq ▸ by decide)
  have hback : u ≠ unit '\\' := fun heq => hfree (heq ▸ by decide)
  simp [isSeparator, hslash, hback]

/-- **A safe segment adds exactly one level** to a path. -/
theorem join_safe (h : SafeSegment segment) (windows : Bool) (dir : Path) :
    join windows dir segment = dir ++ [segment] := by
  rw [join, splitOnP_eq_singleton (h.not_separator windows), foldl_cons, foldl_nil, enter,
    if_neg (by simp [h.nonempty, h.notDot]), if_neg h.notDotDot]

theorem portable_hexUnit {d : Nat} (h : d < 16) : isPortable (hexUnit d) = true := by interval_cases d <;> rfl

theorem safe_of_portable {u : Unit16} (h : isPortable u = true) : isSafe u = true := by rw [isSafe, h, Bool.true_or]

theorem safe_of_literal {u : Unit16} (h : isLiteral u = true) : isSafe u = true := by
  rw [isLiteral, Bool.and_eq_true] at h
  exact safe_of_portable h.2

variable {raw : List Unit16}

theorem portable_escape : ∀ u ∈ escape tilde isLiteral raw, isSafe u = true := by
  intro u hu
  rcases mem_escape hu with hplain | hmarker | ⟨d, hd, rfl⟩
  · exact safe_of_literal hplain
  · rw [hmarker]; rfl
  · exact safe_of_portable (portable_hexUnit hd)

/-! ## The encoding -/

theorem unescape_escape_literal (raw : List Unit16) : unescape tilde (escape tilde isLiteral raw) = raw :=
  unescape_escape (by decide) raw

theorem unescape_encodeSegment (h : encodeSegment raw = .ok segment) : unescape tilde segment = raw := by
  unfold encodeSegment at h
  split at h
  · cases h
  · split at h
    -- the two direction names are escaped in full
    · next hdot =>
      rw [← Except.ok.inj h, hdot]
      exact unescape_all (text ".")
    · split at h
      · next hdots =>
        rw [← Except.ok.inj h, hdots]
        exact unescape_all (text "..")
      · rw [← Except.ok.inj h]
        exact unescape_escape_literal raw

theorem encodeSegment_ok (h : raw ≠ []) : ∃ segment, encodeSegment raw = .ok segment ∧ SafeSegment segment := by
  have hlen : raw.length ≠ 0 := by simpa using h
  unfold encodeSegment
  rw [if_neg hlen]
  split
  · exact ⟨_, rfl, by decide, by decide, by decide, all_eq_true.mp (by decide)⟩
  · next hdot =>
    split
    · exact ⟨_, rfl, by decide, by decide, by decide, all_eq_true.mp (by decide)⟩
    · next hdots =>
      -- an escape that read as a direction name would stand for that very name
      have hback : ∀ name, unescape tilde name = name → raw ≠ name → escape tilde isLiteral raw ≠ name := by
        intro name hname hne heq
        apply hne
        rw [← unescape_escape_literal raw, heq, hname]
      refine ⟨_, rfl, hback [] ?_ h, hback (text ".") ?_ hdot, hback (text "..") ?_ hdots, portable_escape⟩
      · rw [unescape]; simp
      · exact unescape_escape_literal (text ".")
      · exact unescape_escape_literal (text "..")

theorem encodeSegment_inj {a b : List Unit16} (h : encodeSegment a = encodeSegment b) : a = b := by
  rcases eq_or_ne a [] with rfl | ha
  · rcases eq_or_ne b [] with rfl | hb
    · rfl
    · obtain ⟨segment, hsegment, -⟩ := encodeSegment_ok hb
      rw [hsegment] at h
      cases h
  · obtain ⟨segment, hsegment, -⟩ := encodeSegment_ok ha
    rw [← unescape_encodeSegment hsegment, unescape_encodeSegment (h.symm.trans hsegment)]

/-! ## Where a session's log lies -/

theorem portable_step {s : KeyState} (h : ∀ u ∈ s.readable, isSafe u = true) (v : Unit16) :
    ∀ u ∈ (s.step v).readable, isSafe u = true := by
  intro u hu
  unfold KeyState.step at hu
  split at hu
  · dsimp only at hu
    split at hu
    · exact h u hu
    · rcases mem_append.mp hu with hu | hu
      · exact h u hu
      · rw [mem_singleton.mp hu]; rfl
  · split at hu
    · next hliteral =>
      rcases mem_append.mp hu with hu | hu
      · exact h u hu
      · rw [mem_singleton.mp hu]; exact safe_of_literal hliteral
    · next hliteral =>
      rcases mem_append.mp hu with hu | hu
      · exact h u hu
      · apply @portable_escape [v]
        rw [escape_cons, if_neg hliteral]
        exact mem_append_left _ hu

theorem portable_readable (cwd : List Unit16) : ∀ u ∈ (cwd.foldl KeyState.step {}).readable, isSafe u = true := by
  have hloop : ∀ (units : List Unit16) (s : KeyState), (∀ u ∈ s.readable, isSafe u = true) →
        ∀ u ∈ (units.foldl KeyState.step s).readable, isSafe u = true := by
    intro units
    induction units with
    | nil => intro s hs; exact hs
    | cons v units ih => intro s hs; exact ih (s.step v) (portable_step hs v)
  exact hloop cwd {} (by simp)

theorem projectKey_safe {cwd key : List Unit16} (h : projectKey cwd = .ok key) : SafeSegment key := by
  unfold projectKey at h
  split at h
  · cases h
  · cases h
    have htail : ∀ (slug : List Unit16) (name : List Unit16), name.length < 4 →
        text "--" ++ slug ++ text "--" ≠ name := by
      intro slug name hname heq
      have hlen := congrArg List.length heq
      rw [length_append, length_append] at hlen
      have hdashes : (text "--").length = 2 := rfl
      omega
    refine ⟨htail _ _ (by decide), htail _ _ (by decide), htail _ _ (by decide), ?_⟩
    intro u hu
    rw [mem_append, mem_append] at hu
    have hdash : ∀ u ∈ text "--", isSafe u = true :=
      all_eq_true.mp (by decide)
    rcases hu with (hu | hu) | hu
    · exact hdash u hu
    · have hslug := mem_of_mem_take hu
      split at hslug
      · have hroot : ∀ u ∈ text "root", isSafe u = true := all_eq_true.mp (by decide)
        exact hroot u hslug
      · exact portable_readable cwd u ((dropWhile_suffix _).subset hslug)
    · exact hdash u hu

theorem logPath_ok {windows : Bool} {root path : Path} {cwd : Option (List Unit16)} {id : List Unit16}
    {compression : JsonlCompression} (h : logPath windows root cwd id compression = .ok path) :
    ∃ project segment, encodeSegment id = .ok segment ∧
      path = root ++ [project, segment, text "session" ++ logSuffix compression] := by
  have hfile : SafeSegment (text "session" ++ logSuffix compression) := by
    cases compression <;> exact ⟨by decide, by decide, by decide, all_eq_true.mp (by decide)⟩
  simp only [logPath, sessionDir, bind_eq_ok_iff, pure_eq_ok, Except.ok.injEq] at h
  obtain ⟨_, ⟨dir, hdir, segment, hsegment, rfl⟩, rfl⟩ := h
  have hid : id ≠ [] := by
    rintro rfl
    cases hsegment
  obtain ⟨_, hsegment', hsafe⟩ := encodeSegment_ok hid
  cases hsegment.symm.trans hsegment'
  obtain ⟨project, rfl⟩ : ∃ project, dir = root ++ [project] := by
    cases cwd with
    | none =>
      cases hdir
      exact ⟨_, join_safe ⟨by decide, by decide, by decide, all_eq_true.mp (by decide)⟩ windows root⟩
    | some cwd =>
      simp only [projectDir, bind_eq_ok_iff, pure_eq_ok, Except.ok.injEq] at hdir
      obtain ⟨key, hkey, rfl⟩ := hdir
      exact ⟨key, join_safe (projectKey_safe hkey) windows root⟩
  refine ⟨project, segment, hsegment, ?_⟩
  rw [join_safe hsafe, join_safe hfile, append_assoc, append_assoc]
  rfl

/-- **Session ids name files apart, and inside the store.**  The encoding is injective, refuses the empty id only, and
returns one safe segment; so no two sessions share a log, and no log lies outside the root. -/
theorem encodeSegment_safe : (∀ a b, encodeSegment a = encodeSegment b → a = b) ∧
    (∀ raw segment, encodeSegment raw = .ok segment → SafeSegment segment ∧ ∀ u ∈ segment, u ∉ reserved) ∧
    (∀ raw, (∃ error, encodeSegment raw = .error error) ↔ raw = []) ∧
    (∀ windows root cwd cwd' id id' compression compression' path, logPath windows root cwd id compression = .ok path →
      logPath windows root cwd' id' compression' = .ok path → id = id') ∧
    (∀ windows root cwd id compression path, logPath windows root cwd id compression = .ok path →
      root <+: path ∧ path.length = root.length + 3) := by
  refine ⟨fun a b => encodeSegment_inj, ?_, ?_, ?_, ?_⟩
  · intro raw segment h
    have hne : raw ≠ [] := by
      rintro rfl
      cases h
    obtain ⟨_, h', hsafe⟩ := encodeSegment_ok hne
    cases h.symm.trans h'
    exact ⟨hsafe, hsafe.not_reserved⟩
  · intro raw
    constructor
    · rintro ⟨error, herror⟩
      by_contra hne
      obtain ⟨_, h', -⟩ := encodeSegment_ok hne
      rw [h'] at herror
      cases herror
    · rintro rfl
      exact ⟨_, rfl⟩
  · intro windows root cwd cwd' id id' compression compression' path h h'
    obtain ⟨project, segment, hsegment, rfl⟩ := logPath_ok h
    obtain ⟨project', segment', hsegment', heq⟩ := logPath_ok h'
    have htail := append_cancel_left heq
    obtain rfl : segment = segment' := (List.cons.inj (List.cons.inj htail).2).1
    exact encodeSegment_inj (hsegment.trans hsegment'.symm)
  · intro windows root cwd id compression path h
    obtain ⟨project, segment, -, rfl⟩ := logPath_ok h
    exact ⟨prefix_append _ _, by simp⟩

end CocoHarness.Persistence
