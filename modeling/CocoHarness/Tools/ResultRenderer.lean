/-
# CocoHarness.Tools.ResultRenderer — the text of a `run_code` result.

`renderJsonValue` writes a JSON value from a stack of tasks: texts, and values still to be written.  A value at a
depth whose members would be indented by more than ten characters is written without blanks, and so is everything
inside of it.
-/
import CocoHarness.Lib.JsonText
import CocoHarness.Lib.Loop

namespace CocoHarness.Tools

open Lib JsonText List

/-! ## The renderer -/

def jsonIndent : List Char := [' ', ' ']

def maxJsonIndentChars : Nat := 10

def indentation (depth : Nat) : List Char := (List.replicate depth jsonIndent).flatten

inductive JsonRenderTask where
  | text (text : List Char)
  | value (value : Json) (depth : Nat) (compact : Bool)

/-- The stack, top first, and the chunks written so far, joined. -/
structure Rendering where
  tasks : List JsonRenderTask
  chunks : List Char

def separator (compact : Bool) (childDepth index : Nat) : List Char :=
  if compact then (if index = 0 then [] else [','])
  else (if index = 0 then ['\n'] else [',', '\n']) ++ indentation childDepth

def closing (compact : Bool) (depth : Nat) (bracket : Char) : List Char :=
  if compact then [bracket] else '\n' :: indentation depth ++ [bracket]

/-- The tasks of an array's items from an index on, in the order they are popped. -/
def itemTasks (compact : Bool) (childDepth : Nat) : Nat → List Json → List JsonRenderTask
  | _, [] => []
  | index, item :: items =>
    .text (separator compact childDepth index) :: .value item childDepth compact
      :: itemTasks compact childDepth (index + 1) items

def propertyTasks (compact : Bool) (childDepth : Nat) : Nat → List (String × Json) → List JsonRenderTask
  | _, [] => []
  | index, (key, item) :: properties =>
    .text (separator compact childDepth index ++ quoted key.toList ++ if compact then [':'] else [':', ' '])
      :: .value item childDepth compact :: propertyTasks compact childDepth (index + 1) properties

def Rendering.turn : Rendering → Rendering ⊕ List Char
  | ⟨[], chunks⟩ => .inr chunks
  | ⟨.text text :: tasks, chunks⟩ => .inl ⟨tasks, chunks ++ text⟩
  | ⟨.value current depth compact :: tasks, chunks⟩ =>
    let compact := compact || decide (maxJsonIndentChars < (depth + 1) * jsonIndent.length)
    match current with
    | .arr [] => .inl ⟨tasks, chunks ++ ['[', ']']⟩
    | .arr (item :: items) =>
      .inl ⟨itemTasks compact (depth + 1) 0 (item :: items)
        ++ .text (closing compact depth ']') :: tasks, chunks ++ ['[']⟩
    | .obj [] => .inl ⟨tasks, chunks ++ ['\x7b', '\x7d']⟩
    | .obj (property :: properties) =>
      .inl ⟨propertyTasks compact (depth + 1) 0 (property :: properties)
        ++ .text (closing compact depth '\x7d') :: tasks, chunks ++ ['\x7b']⟩
    | scalar => .inl ⟨tasks, chunks ++ JsonText.text scalar⟩

def renderJsonValue (fuel : Nat) (value : Json) : Option (List Char) :=
  Loop.run Rendering.turn fuel ⟨[.value value 0 false], []⟩

/-! ## Lines -/

/-- Every line that begins inside the text is indented by ten characters at most, and goes on. -/
def Shallow (t : List Char) : Prop :=
  ∀ before line, t = before ++ '\n' :: line →
    ∃ k c rest, k ≤ maxJsonIndentChars ∧ line = List.replicate k ' ' ++ c :: rest ∧ c ≠ ' '

/-- What stands before an item or a closing bracket: nothing, or a new line. -/
def Gap (w : List Char) : Prop := w = [] ∨ ∃ k ≤ maxJsonIndentChars, w = '\n' :: List.replicate k ' '

variable {s t w : List Char}

theorem shallow_of_notMem (h : '\n' ∉ t) : Shallow t := by
  rintro before line rfl
  exact absurd (mem_append_right _ mem_cons_self) h

theorem Shallow.append (hs : Shallow s) (ht : Shallow t) : Shallow (s ++ t) := by
  intro before line h
  rcases append_eq_append_iff.mp h with ⟨rest, -, hrest⟩ | ⟨rest, hrest, hline⟩
  · exact ht rest line hrest
  · cases rest with
    | nil => exact ht [] line hline.symm
    | cons d rest =>
      -- the line begins in the first text, and goes on there
      cases hline
      obtain ⟨k, c, more, hk, rfl, hc⟩ := hs before rest hrest
      exact ⟨k, c, more ++ t, hk, by simp, hc⟩

theorem Gap.shallow (hw : Gap w) (ht : Shallow t) {c : Char} {rest : List Char} (hhead : t = c :: rest)
    (hc : c ≠ ' ') : Shallow (w ++ t) := by
  rcases hw with rfl | ⟨k, hk, rfl⟩
  · exact ht
  · intro before line h
    cases before with
    | nil =>
      obtain ⟨-, hline⟩ := List.cons.inj h
      exact ⟨k, c, rest, hk, by rw [← hline, hhead]; rfl, hc⟩
    | cons d before =>
      obtain ⟨-, hline⟩ := List.cons.inj h
      have hblanks : '\n' ∉ List.replicate k ' ' := by
        intro hmem
        exact absurd (eq_of_mem_replicate hmem) (by decide)
      exact (shallow_of_notMem hblanks).append ht before line hline

theorem Gap.blank (hw : Gap w) : Blank w := by
  intro c hc
  rcases hw with rfl | ⟨k, -, rfl⟩
  · cases hc
  · rcases mem_cons.mp hc with rfl | hc
    · decide
    · rw [eq_of_mem_replicate hc]
      decide

theorem indentation_eq (depth : Nat) : indentation depth = List.replicate (2 * depth) ' ' := by
  induction depth with
  | zero => rfl
  | succ depth ih =>
    have ih' : (List.replicate depth jsonIndent).flatten = List.replicate (2 * depth) ' ' := ih
    rw [indentation, replicate_succ, flatten_cons, ih', Nat.mul_succ, Nat.add_comm, replicate_add]
    rfl

def gap (compact : Bool) (depth : Nat) : List Char := if compact then [] else '\n' :: indentation depth

theorem gap_gap {compact : Bool} {depth : Nat} (h : compact = false → 2 * depth ≤ maxJsonIndentChars) : Gap (gap compact depth) := by
  cases compact with
  | true => exact Or.inl rfl
  | false => exact Or.inr ⟨2 * depth, h rfl, by rw [gap, if_neg Bool.false_ne_true, indentation_eq]⟩

theorem separator_zero (compact : Bool) (depth : Nat) : separator compact depth 0 = gap compact depth := by
  cases compact <;> rfl

theorem separator_succ (compact : Bool) (depth index : Nat) :
    separator compact depth (index + 1) = ',' :: gap compact depth := by
  cases compact <;> rfl

theorem closing_eq (compact : Bool) (depth : Nat) (bracket : Char) :
    closing compact depth bracket = gap compact depth ++ [bracket] := by
  cases compact <;> rfl

/-! ## Rendering -/

/-- The loop writes a text in place of a task, whatever stands below it. -/
def Puts (tasks : List JsonRenderTask) (t : List Char) : Prop :=
  ∀ below chunks, Loop.Leads Rendering.turn ⟨tasks ++ below, chunks⟩ ⟨below, chunks ++ t⟩

theorem Puts.text (t : List Char) : Puts [.text t] t := fun _ _ => Loop.Leads.step rfl

theorem Puts.append {tasks tasks' : List JsonRenderTask} (h : Puts tasks s) (h' : Puts tasks' t) :
    Puts (tasks ++ tasks') (s ++ t) := by
  intro below chunks
  rw [append_assoc, ← append_assoc chunks]
  exact (h _ _).trans (h' _ _)

/-- A value is written by a text that reads back as it, and whose lines are shallow. -/
def Renders (depth : Nat) (compact : Bool) (v : Json) : Prop :=
  ∃ t, Puts [.value v depth compact] t ∧ Writes v t ∧ Shallow t

variable {v : Json}

theorem Gap.shallow_value (hw : Gap w) (h : Writes v t) (ht : Shallow t) : Shallow (w ++ t) := by
  obtain ⟨c, rest, hhead, hc, -⟩ := h.head
  apply hw.shallow ht hhead
  rintro rfl
  exact absurd hc (by decide)

variable {compact : Bool} {depth childDepth : Nat}

theorem renders_items (hgap : Gap (gap compact childDepth)) (hclose : Gap (gap compact depth))
    (items : List Json) (index : Nat) (h : ∀ item ∈ items, Renders childDepth compact item) :
    ∃ e, Puts (itemTasks compact childDepth (index + 1) items ++ [.text (closing compact depth ']')]) e ∧
      Elements items e ∧ Shallow e := by
  induction items generalizing index with
  | nil =>
    refine ⟨closing compact depth ']', Puts.text _, ?_, ?_⟩
    · rw [closing_eq]
      exact .close hclose.blank
    · rw [closing_eq]
      exact hclose.shallow (shallow_of_notMem (by decide)) rfl (by decide)
  | cons item items ih =>
    obtain ⟨t, hput, hwrites, hshallow⟩ := h item mem_cons_self
    obtain ⟨e, hputs, helements, hlines⟩ := ih (index + 1) fun x hx => h x (mem_cons_of_mem _ hx)
    refine ⟨',' :: (gap compact childDepth ++ (t ++ e)), ?_, .next hgap.blank hwrites helements, ?_⟩
    · have hall := ((Puts.text (separator compact childDepth (index + 1))).append hput).append hputs
      rw [separator_succ] at hall
      simpa [itemTasks, separator_succ] using hall
    · rw [← append_assoc, ← singleton_append]
      exact (shallow_of_notMem (by decide)).append ((hgap.shallow_value hwrites hshallow).append hlines)

theorem blank_space : Blank [' '] := by
  intro c hc
  rw [mem_singleton.mp hc]
  rfl

theorem shallow_name (key : String) (compact : Bool) :
    Shallow (quoted key.toList ++ if compact then [':'] else [':', ' ']) := by
  apply shallow_of_notMem
  intro hmem
  rcases mem_append.mp hmem with hmem | hmem
  · exact absurd (quoted_printable _ _ hmem) (by decide)
  · cases compact <;> exact absurd hmem (by decide)

theorem shallow_property (key : String) {e : List Char} (hgap : Gap (gap compact childDepth))
    (ht : Shallow t) (he : Shallow e) :
    Shallow (gap compact childDepth ++ (quoted key.toList ++
      ((if compact then [':'] else [':', ' ']) ++ (t ++ e)))) := by
  rw [← append_assoc (quoted key.toList)]
  apply hgap.shallow ((shallow_name key compact).append (ht.append he))
  · rfl
  · decide

theorem renders_properties (hgap : Gap (gap compact childDepth)) (hclose : Gap (gap compact depth))
    (properties : List (String × Json)) (index : Nat)
    (h : ∀ property ∈ properties, Renders childDepth compact property.2) :
    ∃ e, Puts (propertyTasks compact childDepth (index + 1) properties
        ++ [.text (closing compact depth '\x7d')]) e ∧ Members properties e ∧ Shallow e := by
  induction properties generalizing index with
  | nil =>
    refine ⟨closing compact depth '\x7d', Puts.text _, ?_, ?_⟩
    · rw [closing_eq]
      exact .close hclose.blank
    · rw [closing_eq]
      exact hclose.shallow (shallow_of_notMem (by decide)) rfl (by decide)
  | cons property properties ih =>
    obtain ⟨key, item⟩ := property
    obtain ⟨t, hput, hwrites, hshallow⟩ := h _ mem_cons_self
    obtain ⟨e, hputs, hmembers, hlines⟩ := ih (index + 1) fun x hx => h x (mem_cons_of_mem _ hx)
    have hall := ((Puts.text (separator compact childDepth (index + 1) ++ quoted key.toList
      ++ if compact then [':'] else [':', ' '])).append hput).append hputs
    refine ⟨_, hall, ?_, ?_⟩
    · rw [separator_succ]
      cases compact with
      | true => simpa using Members.next hgap.blank (show Blank [] from nofun) hwrites hmembers
      | false => simpa using Members.next hgap.blank blank_space hwrites hmembers
    · rw [separator_succ]
      have hline := (shallow_of_notMem (t := [',']) (by decide)).append
        (shallow_property key hgap hshallow hlines)
      simpa using hline

theorem renders_text (hwf : v.WF) (hturn : ∀ below chunks, Rendering.turn ⟨.value v depth compact :: below, chunks⟩ =
      .inl ⟨below, chunks ++ JsonText.text v⟩) : Renders depth compact v := by
  refine ⟨JsonText.text v, fun below chunks => Loop.Leads.step (hturn below chunks), writes_text v hwf, ?_⟩
  apply shallow_of_notMem
  intro hmem
  exact absurd (text_printable v _ hmem) (by decide)

theorem gap_of_depth {d : Nat} (hd : d ≤ depth + 1) :
    Gap (gap (compact || decide (maxJsonIndentChars < (depth + 1) * jsonIndent.length)) d) := by
  apply gap_gap
  intro hpretty
  have hdepth := of_decide_eq_false (Bool.or_eq_false_iff.mp hpretty).2
  show 2 * d ≤ maxJsonIndentChars
  have htwo : jsonIndent.length = 2 := rfl
  rw [htwo] at hdepth
  omega

variable {item : Json}

theorem renders_arr {items : List Json} (h : ∀ x ∈ item :: items, ∀ depth compact, Renders depth compact x) :
    Renders depth compact (.arr (item :: items)) := by
  have hgap := @gap_of_depth compact depth _ (le_refl (depth + 1))
  have hclose := @gap_of_depth compact depth _ (Nat.le_succ depth)
  generalize hdeeper : (compact || decide (maxJsonIndentChars < (depth + 1) * jsonIndent.length)) = deeper
    at hgap hclose
  obtain ⟨t, hput, hwrites, hshallow⟩ := h item mem_cons_self (depth + 1) deeper
  obtain ⟨e, hputs, helements, hlines⟩ := renders_items hgap hclose items 0
    fun x hx => h x (mem_cons_of_mem _ hx) _ _
  have hall := ((Puts.text (separator deeper (depth + 1) 0)).append hput).append hputs
  rw [separator_zero] at hall
  refine ⟨'[' :: (gap deeper (depth + 1) ++ (t ++ e)), ?_, hwrites.arr hgap.blank helements, ?_⟩
  · intro below chunks
    have hturn : Rendering.turn ⟨[.value (.arr (item :: items)) depth compact] ++ below, chunks⟩ =
        .inl ⟨itemTasks deeper (depth + 1) 0 (item :: items)
          ++ .text (closing deeper depth ']') :: below, chunks ++ ['[']⟩ := by
      rw [← hdeeper]
      rfl
    apply (Loop.Leads.step hturn).trans
    simpa [itemTasks, separator_zero] using hall below (chunks ++ ['['])
  · rw [← singleton_append, ← append_assoc (gap _ _)]
    exact (shallow_of_notMem (by decide)).append ((hgap.shallow_value hwrites hshallow).append hlines)

theorem renders_obj {key : String} {properties : List (String × Json)}
    (hnodup : (Json.keys ((key, item) :: properties)).Nodup)
    (h : ∀ property ∈ (key, item) :: properties, ∀ depth compact, Renders depth compact property.2) :
    Renders depth compact (.obj ((key, item) :: properties)) := by
  have hgap := @gap_of_depth compact depth _ (le_refl (depth + 1))
  have hclose := @gap_of_depth compact depth _ (Nat.le_succ depth)
  generalize hdeeper : (compact || decide (maxJsonIndentChars < (depth + 1) * jsonIndent.length)) = deeper
    at hgap hclose
  obtain ⟨t, hput, hwrites, hshallow⟩ := h (key, item) mem_cons_self (depth + 1) deeper
  obtain ⟨e, hputs, hmembers, hlines⟩ := renders_properties hgap hclose properties 0
    fun x hx => h x (mem_cons_of_mem _ hx) _ _
  have hall := ((Puts.text (separator deeper (depth + 1) 0 ++ quoted key.toList
    ++ if deeper then [':'] else [':', ' '])).append hput).append hputs
  refine ⟨'\x7b' :: (separator deeper (depth + 1) 0 ++ quoted key.toList
    ++ (if deeper then [':'] else [':', ' ']) ++ t ++ e), ?_, ?_, ?_⟩
  · intro below chunks
    have hturn : Rendering.turn
        ⟨[.value (.obj ((key, item) :: properties)) depth compact] ++ below, chunks⟩ =
        .inl ⟨propertyTasks deeper (depth + 1) 0 ((key, item) :: properties)
          ++ .text (closing deeper depth '\x7d') :: below, chunks ++ ['\x7b']⟩ := by
      rw [← hdeeper]
      rfl
    apply (Loop.Leads.step hturn).trans
    simpa [propertyTasks] using hall below (chunks ++ ['\x7b'])
  · rw [separator_zero]
    cases deeper with
    | true => simpa using hwrites.obj hgap.blank (show Blank [] from nofun) hmembers hnodup
    | false => simpa using hwrites.obj hgap.blank blank_space hmembers hnodup
  · rw [separator_zero]
    have hline := (shallow_of_notMem (t := ['\x7b']) (by decide)).append
      (shallow_property key hgap hshallow hlines)
    simpa using hline

/-- **Every value renders**, by induction on the value. -/
theorem renders (v : Json) : v.WF → ∀ depth compact, Renders depth compact v := by
  induction v using Json.induct with
  | null | bool b | num n | str s => exact fun hwf _ _ => renders_text hwf fun _ _ => rfl
  | arr items ih =>
    intro hwf depth compact
    cases items with
    | nil => exact renders_text hwf fun _ _ => rfl
    | cons item items =>
      rw [Json.wf_arr] at hwf
      exact renders_arr fun x hx => ih x hx (hwf x hx)
  | obj properties ih =>
    intro hwf depth compact
    cases properties with
    | nil => exact renders_text hwf fun _ _ => rfl
    | cons property properties =>
      rw [Json.wf_obj] at hwf
      exact renders_obj hwf.1 fun x hx => ih x hx (hwf.2 x hx)

/-- **The text of a result is the result.**  The renderer ends with a text that `JSON.parse` reads back as the value,
and no line of it is indented by more than ten characters. -/
theorem renderJsonValue_faithful (value : Json) (hwf : value.WF) :
    ∃ text, (∃ enough, ∀ fuel, enough ≤ fuel → renderJsonValue fuel value = some text) ∧ parse text = some value ∧
      ∀ before line, '\n' :: text = before ++ '\n' :: line →
        (line.takeWhile (· == ' ')).length ≤ maxJsonIndentChars := by
  obtain ⟨text, hput, hwrites, hshallow⟩ := renders value hwf 0 false
  refine ⟨text, ?_, hwrites.parse, ?_⟩
  · have hends : Loop.Ends Rendering.turn ⟨[.value value 0 false], []⟩ text := (hput [] []).ends (Loop.Ends.step rfl)
    exact hends.enough
  · intro before line h
    have hgap : Gap ['\n'] := Or.inr ⟨0, Nat.zero_le _, rfl⟩
    obtain ⟨k, c, rest, hk, rfl, hc⟩ := hgap.shallow_value hwrites hshallow before line h
    have hblanks : ∀ x ∈ List.replicate k ' ', (x == ' ') = true := by
      intro x hx
      rw [eq_of_mem_replicate hx]
      rfl
    rw [takeWhile_append_of_pos hblanks, takeWhile_cons, beq_eq_false_iff_ne.mpr hc]
    simpa using hk

def nestedResult : Json := .obj [("a", .arr [.arr []]), ("b", .null)]

theorem renderJsonValue_nested : renderJsonValue 20 nestedResult
        = some "\x7b\n  \"a\": [\n    []\n  ],\n  \"b\": null\n\x7d".toList ∧
      ∃ text, (∃ enough, ∀ fuel, enough ≤ fuel → renderJsonValue fuel nestedResult = some text) ∧
        parse text = some nestedResult ∧
        ∀ before line, '\n' :: text = before ++ '\n' :: line →
          (line.takeWhile (· == ' ')).length ≤ maxJsonIndentChars :=
  ⟨by decide +kernel, renderJsonValue_faithful nestedResult (by simp [nestedResult, Json.keys])⟩

end CocoHarness.Tools
