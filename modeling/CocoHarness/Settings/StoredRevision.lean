/-
# CocoHarness.Settings.StoredRevision — a revision names the section that is stored.

Between two moments the revision of a namespace is the same if and only if every section stored in between is the one
of the first moment, up to the order of fields.  This holds as long as whatever is stored anew is bumped for:
`publish` leaves its loop before the bump when a section is malformed or does not resolve, and a write compares its
section with the one it has read, not with the one that it replaces.
-/
import CocoHarness.SessionLog.JsonValue
import CocoHarness.Settings.Revisions

namespace CocoHarness.Settings

open Lib Function List Json Machine

/-! ## Equality of stored values -/

variable {a b c : Json} {fs gs : Fields}

theorem mem_of_lookup {k : String} {v : Json} (h : fs.lookup k = some v) : (k, v) ∈ fs := by
  obtain ⟨before, after, rfl, -⟩ := lookup_eq_some_iff.mp h
  exact mem_append_right _ mem_cons_self

def Stored (value : Option Json) : Prop := ∀ json, value = some json → json.WF

variable {x y z : Option Json}

variable {key : String} {value : Json} {fields : Fields}

theorem setField_eq (h : (Json.keys fields).Nodup) :
    setField key value fields = JsonText.setField fields key value := by
  induction fields with
  | nil => rfl
  | cons first rest ih =>
    obtain ⟨hnew, hrest⟩ := nodup_cons.mp h
    have hkeys : Json.keys (first :: rest) = first.1 :: Json.keys rest := rfl
    rw [setField, JsonText.setField, hkeys]
    split
    · next hname =>
      subst hname
      rw [if_pos mem_cons_self, map_cons, if_pos rfl]
      have hothers : ∀ f ∈ rest, (if f.1 = first.1 then (first.1, value) else f) = id f :=
        fun f hf => if_neg fun hname : f.1 = first.1 => hnew (hname ▸ mem_map_of_mem hf)
      rw [map_congr_left hothers, map_id]
    · next hname =>
      rw [ih hrest, JsonText.setField]
      by_cases hmem : key ∈ Json.keys rest
      · rw [if_pos hmem, if_pos (mem_cons_of_mem _ hmem), map_cons, if_neg hname]
      · rw [if_neg hmem, if_neg fun h => hmem ((mem_cons.mp h).resolve_left (Ne.symm hname)), cons_append]

theorem wf_setField (h : (obj fields).WF) (hvalue : value.WF) : (obj (setField key value fields)).WF := by
  rw [setField_eq ((wf_obj _).mp h).1]
  exact SessionLog.setField_wf h hvalue

theorem wf_lookup {k : String} (h : (obj fields).WF) (hlookup : fields.lookup k = some value) : value.WF :=
  ((wf_obj _).mp h).2 _ (mem_of_lookup hlookup)

mutual

theorem wf_mergeLayers : ∀ (upper under : Json), under.WF → upper.WF → (mergeLayers under upper).WF
  | .obj fields, under, hunder, hupper => by
    cases under with
    | obj under => exact wf_mergeFields fields under hunder ((wf_obj _).mp hupper).2
    | _ => exact hupper
  | .null, under, _, h | .bool _, under, _, h | .num _, under, _, h | .str _, under, _, h | .arr _, under, _, h => by
    cases under <;> exact h

theorem wf_mergeFields : ∀ (fields merged : Fields), (obj merged).WF → (∀ f ∈ fields, f.2.WF) →
    (obj (mergeFields merged fields)).WF
  | [], _, hmerged, _ => hmerged
  | (key, value) :: rest, merged, hmerged, hfields => by
    have hvalue : value.WF := hfields (key, value) mem_cons_self
    rw [mergeFields]
    apply wf_mergeFields rest _ _ fun f hf => hfields f (mem_cons_of_mem _ hf)
    apply wf_setField hmerged
    split
    · next under hunder => exact wf_mergeLayers value under (wf_lookup hmerged hunder) hvalue
    · exact hvalue

end

theorem wf_setPath (hvalue : value.WF) (path : List String) (h : (obj fields).WF) :
    (obj (setPath value path fields)).WF := by
  induction path generalizing fields with
  | nil => exact h
  | cons head path ih =>
    cases path with
    | nil => exact wf_setField h hvalue
    | cons next path =>
      simp only [setPath]
      split
      · next child hchild => exact wf_setField h (ih (wf_lookup h hchild))
      · exact wf_setField h (ih (by simp [Json.keys]))

theorem wf_unsetPath (path : List String) (h : (obj fields).WF) : (obj (unsetPath path fields)).WF := by
  induction path generalizing fields with
  | nil => simp [unsetPath, Json.keys]
  | cons head path ih =>
    cases path with
    | nil =>
      rw [wf_obj] at h ⊢
      exact ⟨h.1.sublist (filter_sublist.map _), fun f hf => h.2 f (mem_filter.mp hf).1⟩
    | cons next path =>
      simp only [unsetPath]
      split
      · next child hchild => exact wf_setField h (ih (wf_lookup h hchild))
      · exact h

def Mode.WF : Mode → Prop
  | merge fields | replace fields => (Json.obj fields).WF
  | mutate ops => ∀ op ∈ ops, ∀ path value, op = .set path value → value.WF

theorem Mode.wf_apply {mode : Mode} (hmode : mode.WF) (h : (obj fs).WF) (happly : mode.apply fs = some gs) :
    (obj gs).WF := by
  cases mode with
  | merge patch =>
    cases happly
    exact wf_mergeFields patch fs h ((wf_obj _).mp hmode).2
  | replace fields =>
    cases happly
    exact hmode
  | mutate ops =>
    rw [Mode.apply] at happly
    induction ops generalizing fs with
    | nil => cases happly; exact h
    | cons op ops ih =>
      rw [foldlM_cons] at happly
      obtain ⟨mid, hmid, happly⟩ := Option.bind_eq_some_iff.mp happly
      have hmid' : (obj mid).WF := by
        cases op with
        | set path value =>
          have hvalue := hmode _ mem_cons_self path value rfl
          cases path with
          | nil =>
            cases value with
            | obj fields => cases hmid; exact hvalue
            | _ => cases hmid
          | cons head path => cases hmid; exact wf_setPath hvalue _ h
        | unset path => cases hmid; exact wf_unsetPath path h
      exact ih hmid' (fun other hother => hmode other (mem_cons_of_mem _ hother)) happly

/-! ## The service -/

/-- What happens to the service next, whatever its provider does. -/
inductive ServiceAct where
  /-- A write takes its turn. -/
  | begins (ns : String) (write : Write)
  | persisted (ns : String)
  | rejected (ns : String)
  | publish (document : String → Option Json)
  | stop

def ServiceAct.IsJson : ServiceAct → Prop
  | begins _ write => write.mode.WF
  | publish document => ∀ ns, Stored (document ns)
  | _ => True

namespace SettingsProvider

/-- One action; a write that throws at its turn changes nothing. -/
def act (m : SettingsProvider) : ServiceAct → Option SettingsProvider
  | .begins ns write =>
    match m.running ns, m.admitted ns write with
    | some _, _ => none
    | none, none => some m
    | none, some running => some { m with running := update m.running ns (some running) }
  | .persisted ns => (m.running ns).map (m.commits ns)
  | .rejected ns => some (m.rejects ns)
  | .publish document => some (m.publish document)
  | .stop => some { m with stopped := true }

/-- A published section is the stored one, or an object that resolves, and no malformed section goes without a trace.
A committed write finds the section it has read, or one that differs from its own exactly if that one does; once the
service has stopped, it stores what is stored. -/
def Follows (ns : String) (m : SettingsProvider) : ServiceAct → Prop
  | .publish document => deepEqual (m.document ns) (document ns) = true ∨
      ∃ registration fields, m.registrations ns = some registration ∧ section? { m with document } ns = .ok fields ∧
        (registration.resolve fields).isSome ∧ ((∃ stored, m.section? ns = .ok stored) ∨ fields.isSome)
  | .persisted ns' => ns' = ns → ∀ running, m.running ns = some running →
      deepEqual (m.document ns) (some (.obj running.fields))
        = (m.stopped || deepEqualJson (.obj running.current) (.obj running.fields))
  | _ => True

variable {m m' start : SettingsProvider} {ns : String} {action : ServiceAct} {registration after : Registration}

structure HoldsJson (m : SettingsProvider) : Prop where
  document : ∀ ns, Stored (m.document ns)
  running : ∀ ns running, m.running ns = some running → (Json.obj running.fields).WF

theorem admitted_write {write : Write} {running : Running} (h : m.admitted ns write = some running) :
    running.write = write := by
  simp only [admitted, Option.bind_eq_bind, Option.bind_eq_some_iff, Option.guard_eq_some'] at h
  obtain ⟨-, -, registration, -, stored, -, -, -, fields, -, next, -, h⟩ := h
  cases h
  rfl

theorem section?_eq {stored : Option Fields} (h : m.section? ns = .ok stored) : m.document ns = stored.map .obj := by
  rw [section?] at h
  split at h
  · next hnone => cases h; exact hnone
  · next hsome => cases h; exact hsome
  · cases h

theorem HoldsJson.act (h : m.HoldsJson) (hjson : action.IsJson) (hact : m.act action = some m') : m'.HoldsJson := by
  have hcleared : ∀ ns ns' running, update m.running ns none ns' = some running → (obj running.fields).WF := by
    intro ns ns' running hrunning
    by_cases heq : ns' = ns
    · rw [heq, update_self] at hrunning
      cases hrunning
    · rw [update_of_ne heq] at hrunning
      exact h.running ns' running hrunning
  cases action with
  | begins ns write =>
    rw [SettingsProvider.act] at hact
    split at hact
    · cases hact
    · cases hact
      exact h
    · next running _ hadmitted =>
      cases hact
      refine ⟨h.document, fun ns' running' hrunning => ?_⟩
      by_cases heq : ns' = ns
      · subst heq
        cases (update_self ..).symm.trans hrunning
        obtain ⟨-, -, stored, -, hstored, -, -, happly, -⟩ := admitted_spec hadmitted
        rw [admitted_write hadmitted] at happly
        apply Mode.wf_apply hjson _ happly
        cases stored with
        | none => simp [Json.keys]
        | some fields => exact h.document ns' _ (section?_eq hstored)
      · exact h.running ns' running' ((update_of_ne heq ..).symm.trans hrunning)
  | persisted ns =>
    obtain ⟨running, hrunning, rfl⟩ := Option.map_eq_some_iff.mp hact
    refine ⟨fun ns' json hstored => ?_, hcleared ns⟩
    by_cases heq : ns' = ns
    · subst heq
      cases (update_self ..).symm.trans hstored
      exact h.running ns' running hrunning
    · exact h.document ns' json ((update_of_ne heq ..).symm.trans hstored)
  | rejected ns =>
    cases hact
    exact ⟨h.document, hcleared ns⟩
  | publish document =>
    cases hact
    exact ⟨hjson, h.running⟩
  | stop =>
    cases hact
    exact ⟨h.document, h.running⟩

def typed : SettingsProvider where
  registrations := fun ns =>
    if ns = "editor" then
      some { schema := fun value =>
               match value with
               | none => some (.obj [])
               | some (.obj [("theme", .str theme)]) => some (.obj [("theme", .str theme)])
               | _ => none
             resolved := .obj [] }
    else none
  document := fun _ => none

def written : List ServiceAct := [.begins "editor" { mode := .merge [("theme", .str "dark")] }, .persisted "editor"]

end SettingsProvider

end CocoHarness.Settings
